import Mathlib.Order.Interval.Set.Basic

/-! Names that a counter hands out and that pass from owner to owner. As long as the counter does not run
out, a name that is in use has one owner, and a new name is nobody's. -/

namespace Ownership
variable {O ι : Type} {name : ℕ → ι} {issued bound : ℕ} {owns owns' : O → ι → Prop}

structure Distinct (name : ℕ → ι) (issued : ℕ) (owns : O → ι → Prop) : Prop where
  issued : ∀ o i, owns o i → ∃ k < issued, i = name k
  unique : ∀ o o' i, owns o i → owns o' i → o = o'

theorem Distinct.none (h : ∀ o i, ¬owns o i) : Distinct name issued owns :=
  ⟨fun o i hi => absurd hi (h o i), fun o _ i hi => absurd hi (h o i)⟩

/-- Names may change hands, when it is the name that tells to whom it goes. -/
theorem Distinct.moved (h : Distinct name issued owns) (heir : ι → O → O)
    (hmoved : ∀ o i, owns' o i → ∃ o₀, owns o₀ i ∧ o = heir i o₀) : Distinct name issued owns' := by
  refine ⟨fun o i hi => ?_, fun o o' i hi hi' => ?_⟩
  · obtain ⟨o₀, hold, -⟩ := hmoved o i hi
    exact h.issued o₀ i hold
  · obtain ⟨o₀, hold, rfl⟩ := hmoved o i hi
    obtain ⟨o₁, hold', rfl⟩ := hmoved o' i hi'
    rw [h.unique o₀ o₁ i hold hold']

theorem Distinct.mono (h : Distinct name issued owns) (hold : ∀ o i, owns' o i → owns o i) :
    Distinct name issued owns' :=
  h.moved (fun _ o => o) fun o i hi => ⟨o, hold o i hi, rfl⟩

theorem Distinct.fresh (h : Distinct name issued owns) (hname : Set.InjOn name (Set.Iio bound))
    (hlt : issued < bound) (o : O) : ¬owns o (name issued) := by
  intro hown
  obtain ⟨k, hk, heq⟩ := h.issued o _ hown
  exact hk.ne' (hname hlt (hk.trans hlt) heq)

theorem Distinct.issue (h : Distinct name issued owns) (hname : Set.InjOn name (Set.Iio bound))
    (hlt : issued < bound) (new : O) (hold : ∀ o i, owns' o i → owns o i ∨ (o = new ∧ i = name issued)) :
    Distinct name (issued + 1) owns' := by
  refine ⟨fun o i hi => ?_, fun o o' i hi hi' => ?_⟩
  · rcases hold o i hi with hi | ⟨-, rfl⟩
    · obtain ⟨k, hk, heq⟩ := h.issued o i hi
      exact ⟨k, Nat.lt_succ_of_lt hk, heq⟩
    · exact ⟨issued, Nat.lt_succ_self _, rfl⟩
  · rcases hold o i hi with hi | ⟨rfl, rfl⟩ <;> rcases hold o' _ hi' with hi' | ⟨rfl, heq⟩
    · exact h.unique o o' i hi hi'
    · exact absurd (heq ▸ hi) (h.fresh hname hlt o)
    · exact absurd hi' (h.fresh hname hlt o')
    · rfl

end Ownership
