import Mathlib.Tactic

/-! What a computation that may fail ends in: `Q` if it returns, `E` if it fails. -/

namespace Outcome
variable {ε σ α β : Type}

def Returns (x : Except ε α) (E : Prop) (Q : α → Prop) : Prop :=
  match x with
  | .ok a => Q a
  | .error _ => E

def Runs (x : EStateM ε σ α) (s : σ) (E : Prop) (Q : α → σ → Prop) : Prop :=
  match x s with
  | .ok a s' => Q a s'
  | .error _ _ => E

section Returns
variable {x : Except ε α} {E : Prop} {Q Q' : α → Prop}

theorem Returns.of_ok {a : α} (hx : x = .ok a) (hQ : Q a) : Returns x E Q := by
  subst hx
  exact hQ

theorem Returns.of_error {e : ε} (hx : x = .error e) (hE : E) : Returns x E Q := by
  subst hx
  exact hE

theorem Returns.bind {f : α → Except ε β} {R : β → Prop} (hx : Returns x E Q)
    (hf : ∀ a, Q a → Returns (f a) E R) : Returns (x >>= f) E R := by
  cases x with
  | ok a => exact hf a hx
  | error e => exact hx

theorem Returns.mono (hx : Returns x E Q) (h : ∀ a, Q a → Q' a) : Returns x E Q' := by
  cases x with
  | ok a => exact h a hx
  | error e => exact hx

theorem Returns.ok_of_not (hx : Returns x E Q) (hE : ¬ E) : ∃ a, x = .ok a ∧ Q a := by
  cases x with
  | ok a => exact ⟨a, rfl, hx⟩
  | error e => exact absurd hx hE

theorem Returns.of_map_eq {γ : Type} {y : Except ε β} {f : α → γ} {g : β → γ} {R : β → Prop}
    (h : x.map f = y.map g) (hy : Returns y E R) : Returns x E fun a => ∃ b, f a = g b ∧ R b := by
  cases y with
  | ok b =>
    cases x with
    | ok a => exact ⟨b, by simpa [Except.map] using h, hy⟩
    | error e => simp [Except.map] at h
  | error e =>
    cases x with
    | ok a => simp [Except.map] at h
    | error e => exact hy

/-- A loop that may fail, with an invariant about the elements it has gone through. -/
theorem Returns.foldlM {f : β → α → Except ε β} {I : List α → β → Prop} {l : List α} {b : β}
    (h0 : I [] b)
    (hstep : ∀ done a rest b, l = done ++ a :: rest → I done b →
      Returns (f b a) E (I (done ++ [a]))) : Returns (l.foldlM f b) E (I l) := by
  have hgen : ∀ rest done b, l = done ++ rest → I done b → Returns (rest.foldlM f b) E (I l) := by
    intro rest
    induction rest with
    | nil =>
      intro done b hl hb
      rw [List.append_nil] at hl
      exact hl ▸ hb
    | cons a rest ih =>
      intro done b hl hb
      rw [List.foldlM_cons]
      exact (hstep done a rest b hl hb).bind fun b' hb' =>
        ih (done ++ [a]) b' (by rw [hl, List.append_assoc, List.singleton_append]) hb'
  exact hgen l [] b rfl h0

end Returns

theorem bind_eq_ok {x : EStateM ε σ α} {f : α → EStateM ε σ β} {s s'' : σ} {b : β}
    (h : (x >>= f) s = .ok b s'') : ∃ a s', x s = .ok a s' ∧ f a s' = .ok b s'' := by
  change EStateM.bind x f s = _ at h
  rw [EStateM.bind] at h
  cases hx : x s with
  | ok a s' =>
    rw [hx] at h
    exact ⟨a, s', rfl, h⟩
  | error e s' =>
    rw [hx] at h
    cases h

section Runs
variable {x : EStateM ε σ α} {s : σ} {E : Prop} {Q Q' : α → σ → Prop}

theorem Runs.of_ok {a : α} {s' : σ} (hx : x s = .ok a s') (hQ : Q a s') : Runs x s E Q := by
  unfold Runs
  rw [hx]
  exact hQ

theorem Runs.bind {f : α → EStateM ε σ β} {R : β → σ → Prop} (hx : Runs x s E Q)
    (hf : ∀ a s', Q a s' → Runs (f a) s' E R) : Runs (x >>= f) s E R := by
  unfold Runs at hx ⊢
  change match EStateM.bind x f s with
    | .ok a s' => R a s'
    | .error _ _ => E
  rw [EStateM.bind]
  cases hxs : x s with
  | ok a s' =>
    rw [hxs] at hx
    exact hf a s' hx
  | error e s' =>
    rw [hxs] at hx
    exact hx

theorem Runs.step {f : α → EStateM ε σ β} {R : β → σ → Prop} {a : α} {s' : σ} (hx : x s = .ok a s')
    (hf : Runs (f a) s' E R) : Runs (x >>= f) s E R :=
  Runs.bind (Q := fun b t => b = a ∧ t = s') (.of_ok hx ⟨rfl, rfl⟩) fun _ _ ⟨hb, ht⟩ => hb ▸ ht ▸ hf

theorem Runs.mono (hx : Runs x s E Q) (h : ∀ a s', Q a s' → Q' a s') : Runs x s E Q' := by
  unfold Runs at hx ⊢
  cases hxs : x s with
  | ok a s' =>
    rw [hxs] at hx
    exact h a s' hx
  | error e s' =>
    rw [hxs] at hx
    exact hx

theorem Runs.weaken (hx : Runs x s E Q) {E' : Prop} (h : E → E') : Runs x s E' Q := by
  unfold Runs at hx ⊢
  cases hxs : x s with
  | ok a s' =>
    rw [hxs] at hx
    exact hx
  | error e s' =>
    rw [hxs] at hx
    exact h hx

theorem Runs.with_eq (hx : Runs x s E Q) : Runs x s E fun a s' => x s = .ok a s' ∧ Q a s' := by
  unfold Runs at hx ⊢
  cases hxs : x s with
  | ok a s' =>
    rw [hxs] at hx
    exact ⟨rfl, hx⟩
  | error e s' =>
    rw [hxs] at hx
    exact hx

theorem Runs.of_eq_ok (hx : Runs x s E Q) {a : α} {s' : σ} (h : x s = .ok a s') : Q a s' := by
  unfold Runs at hx
  rw [h] at hx
  exact hx

theorem Runs.ok_of_not (hx : Runs x s E Q) (hE : ¬ E) : ∃ a s', x s = .ok a s' := by
  unfold Runs at hx
  cases hxs : x s with
  | ok a s' => exact ⟨a, s', rfl⟩
  | error e s' =>
    rw [hxs] at hx
    exact absurd hx hE

theorem Runs.forM {f : α → EStateM ε σ PUnit} {I : List α → σ → Prop} {l : List α}
    (h0 : I [] s)
    (hstep : ∀ done a rest s, l = done ++ a :: rest → I done s →
      Runs (f a) s E fun _ => I (done ++ [a])) : Runs (l.forM f) s E fun _ => I l := by
  have hgen : ∀ rest done s, l = done ++ rest → I done s →
      Runs (rest.forM f) s E fun _ => I l := by
    intro rest
    induction rest with
    | nil =>
      intro done s hl hs
      rw [List.append_nil] at hl
      exact Runs.of_ok rfl (hl ▸ hs)
    | cons a rest ih =>
      intro done s hl hs
      change Runs (f a >>= fun _ => rest.forM f) s E _
      exact (hstep done a rest s hl hs).bind fun _ s' hs' =>
        ih (done ++ [a]) s' (by rw [hl, List.append_assoc, List.singleton_append]) hs'
  exact hgen l [] s rfl h0

end Runs

/-- Like `Runs`, with a say about the state in which a computation fails. -/
def Leaves (x : EStateM ε σ α) (s : σ) (E : σ → Prop) (Q : α → σ → Prop) : Prop :=
  match x s with
  | .ok a s' => Q a s'
  | .error _ s' => E s'

section Leaves
variable {x : EStateM ε σ α} {s : σ} {E : σ → Prop} {Q Q' : α → σ → Prop}

theorem Leaves.of_ok {a : α} {s' : σ} (hx : x s = .ok a s') (hQ : Q a s') : Leaves x s E Q := by
  unfold Leaves
  rw [hx]
  exact hQ

theorem Leaves.of_error {e : ε} {s' : σ} (hx : x s = .error e s') (hE : E s') : Leaves x s E Q := by
  unfold Leaves
  rw [hx]
  exact hE

theorem Leaves.mono (hx : Leaves x s E Q) (h : ∀ a s', Q a s' → Q' a s') : Leaves x s E Q' := by
  unfold Leaves at hx ⊢
  split at hx
  · exact h _ _ hx
  · exact hx

theorem Leaves.weaken (hx : Leaves x s E Q) {E' : σ → Prop} (h : ∀ s', E s' → E' s') : Leaves x s E' Q := by
  unfold Leaves at hx ⊢
  split at hx
  · exact hx
  · exact h _ hx

theorem Leaves.bind {f : α → EStateM ε σ β} {R : β → σ → Prop} (hx : Leaves x s E Q)
    (hf : ∀ a s', Q a s' → Leaves (f a) s' E R) : Leaves (x >>= f) s E R := by
  change match EStateM.bind x f s with
    | .ok a s' => R a s'
    | .error _ s' => E s'
  rw [EStateM.bind]
  unfold Leaves at hx
  split at hx
  · next a s' hxs =>
    rw [hxs]
    exact hf a s' hx
  · next e s' hxs =>
    rw [hxs]
    exact hx

theorem Leaves.step {f : α → EStateM ε σ β} {R : β → σ → Prop} {a : α} {s' : σ} (hx : x s = .ok a s')
    (hf : Leaves (f a) s' E R) : Leaves (x >>= f) s E R :=
  Leaves.bind (Q := fun b t => b = a ∧ t = s') (.of_ok hx ⟨rfl, rfl⟩) fun _ _ ⟨hb, ht⟩ => hb ▸ ht ▸ hf

theorem Leaves.forM {f : α → EStateM ε σ PUnit} {I : σ → Prop} {l : List α} (h0 : I s)
    (hstep : ∀ a ∈ l, ∀ s, I s → Leaves (f a) s E fun _ => I) : Leaves (l.forM f) s E fun _ => I := by
  induction l generalizing s with
  | nil => exact .of_ok rfl h0
  | cons a l ih =>
    change Leaves (f a >>= fun _ => l.forM f) s E _
    exact (hstep a (List.mem_cons_self ..) s h0).bind fun _ s' hs' =>
      ih hs' fun b hb => hstep b (List.mem_cons_of_mem _ hb)

end Leaves

/-- The same for a computation without a state, with a say about the error. -/
def Ends (x : Except ε α) (E : ε → Prop) (Q : α → Prop) : Prop :=
  match x with
  | .ok a => Q a
  | .error e => E e

def FailsOnly (x : EStateM ε σ α) (E : ε → Prop) : Prop := ∀ s e s', x s = .error e s' → E e

section Ends
variable {E : ε → Prop}

theorem Ends.bind {x : Except ε α} {Q : α → Prop} {f : α → Except ε β} {R : β → Prop} (hx : Ends x E Q)
    (hf : ∀ a, Q a → Ends (f a) E R) : Ends (x >>= f) E R := by
  cases x with
  | ok a => exact hf a hx
  | error e => exact hx

theorem Ends.mono {x : Except ε α} {Q Q' : α → Prop} (hx : Ends x E Q) (h : ∀ a, Q a → Q' a) : Ends x E Q' := by
  cases x with
  | ok a => exact h a hx
  | error e => exact hx

theorem Ends.foldlM {f : β → α → Except ε β} {I : β → Prop} {l : List α} {b : β} (h0 : I b)
    (hstep : ∀ b, ∀ a ∈ l, I b → Ends (f b a) E I) : Ends (l.foldlM f b) E I := by
  induction l generalizing b with
  | nil => exact h0
  | cons a l ih =>
    rw [List.foldlM_cons]
    exact (hstep b a List.mem_cons_self h0).bind fun b' hb' =>
      ih hb' fun b'' a' ha' => hstep b'' a' (List.mem_cons_of_mem a ha')

theorem Ends.mapM {f : α → Except ε β} (hf : ∀ a, Ends (f a) E fun _ => True) (l : List α) :
    Ends (l.mapM f) E fun _ => True := by
  induction l with
  | nil => trivial
  | cons a l ih =>
    rw [List.mapM_cons]
    exact (hf a).bind fun b _ => ih.bind fun bs _ => trivial

theorem FailsOnly.pure (a : α) : FailsOnly (Pure.pure a : EStateM ε σ α) E := nofun

theorem FailsOnly.bind {x : EStateM ε σ α} {f : α → EStateM ε σ β} (hx : FailsOnly x E)
    (hf : ∀ a, FailsOnly (f a) E) : FailsOnly (x >>= f) E := by
  intro s e s' h
  change EStateM.bind x f s = _ at h
  rw [EStateM.bind] at h
  cases hxs : x s with
  | ok a s₁ =>
    rw [hxs] at h
    exact hf a s₁ e s' h
  | error e₁ s₁ =>
    rw [hxs] at h
    obtain ⟨rfl, -⟩ := EStateM.Result.error.inj h
    exact hx s e₁ s₁ hxs

theorem FailsOnly.forM {f : α → EStateM ε σ PUnit} (hf : ∀ a, FailsOnly (f a) E) (l : List α) :
    FailsOnly (l.forM f) E := by
  induction l with
  | nil => exact .pure _
  | cons a l ih => exact (hf a).bind fun _ => ih

end Ends
end Outcome
