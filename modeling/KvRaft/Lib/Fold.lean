import Mathlib.Tactic

/-! Invariants of loops that may stop early. -/

namespace Fold

/-- What holds at the start of a loop and is kept by every round holds at its end. -/
theorem foldlM_invariant {α β : Type} {f : β → α → Option β} {P : β → Prop} {l : List α} {b b' : β}
    (h : l.foldlM f b = some b') (h0 : P b)
    (hstep : ∀ b x b', x ∈ l → P b → f b x = some b' → P b') : P b' := by
  induction l generalizing b with
  | nil =>
    obtain rfl : b = b' := Option.some.inj h
    exact h0
  | cons x xs ih =>
    rw [List.foldlM_cons] at h
    obtain ⟨b₁, h1, h2⟩ := Option.bind_eq_some_iff.mp h
    exact ih h2 (hstep b x b₁ (List.mem_cons_self ..) h0 h1)
      fun b y b' hy => hstep b y b' (List.mem_cons_of_mem _ hy)

theorem foldlM_forall {α β : Type} {f : β → α → Option β} {Q : α → β → Prop} {l : List α} {b b' : β}
    (h : l.foldlM f b = some b') (hnew : ∀ b x b', f b x = some b' → Q x b')
    (hkeep : ∀ b x b' y, Q y b → f b x = some b' → Q y b') : ∀ x ∈ l, Q x b' := by
  induction l generalizing b with
  | nil => intro x hx; cases hx
  | cons x xs ih =>
    rw [List.foldlM_cons] at h
    obtain ⟨b₁, h1, h2⟩ := Option.bind_eq_some_iff.mp h
    intro y hy
    rcases List.mem_cons.mp hy with rfl | hy
    · exact foldlM_invariant h2 (hnew b y b₁ h1) fun b z b' _ hq hf => hkeep b z b' y hq hf
    · exact ih h2 y hy

/-- Every round of a loop starts as `Q` says. -/
def Along {α β : Type} (f : β → α → Option β) (Q : β → α → Prop) : β → List α → Prop
  | _, [] => True
  | b, x :: xs => Q b x ∧ ∀ b' ∈ f b x, Along f Q b' xs

instance decidableAlong {α β : Type} {f : β → α → Option β} {Q : β → α → Prop}
    [∀ b x, Decidable (Q b x)] : ∀ b l, Decidable (Along f Q b l)
  | _, [] => .isTrue trivial
  | _, _ :: xs =>
    have := fun b' => decidableAlong (f := f) (Q := Q) b' xs
    inferInstanceAs (Decidable (_ ∧ _))

/-- What is kept by the rounds that start as `Q` says holds at the end of a loop of such rounds. -/
theorem foldlM_along {α β : Type} {f : β → α → Option β} {Q : β → α → Prop} {P : β → Prop} {l : List α}
    {b b' : β} (h : l.foldlM f b = some b') (hQ : Along f Q b l) (h0 : P b)
    (hstep : ∀ b x b', x ∈ l → Q b x → P b → f b x = some b' → P b') : P b' := by
  induction l generalizing b with
  | nil =>
    obtain rfl : b = b' := Option.some.inj h
    exact h0
  | cons x xs ih =>
    rw [List.foldlM_cons] at h
    obtain ⟨b₁, h1, h2⟩ := Option.bind_eq_some_iff.mp h
    exact ih h2 (hQ.2 b₁ h1) (hstep b x b₁ (List.mem_cons_self ..) hQ.1 h0 h1)
      fun b y b' hy => hstep b y b' (List.mem_cons_of_mem _ hy)

end Fold
