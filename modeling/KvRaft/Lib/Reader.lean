import KvRaft.Lib.Bytes

/-! Readers that take what they need from the front of a byte string and fail when it runs out. -/

namespace Bytes
variable {ε α β : Type}

/-- What is read is taken from the front and does not depend on what follows it. -/
structure Steady (p : Bytes → Except ε (α × Bytes)) : Prop where
  suffix : ∀ bs a rest, p bs = .ok (a, rest) → rest <:+ bs
  more : ∀ bs a rest ys, p bs = .ok (a, rest) → p (bs ++ ys) = .ok (a, rest ++ ys)

section Rules
variable {p : Bytes → Except ε (α × Bytes)}

theorem Steady.of_except (x : Except ε α) : Steady fun bs => x.map fun a => (a, bs) := by
  cases x with
  | error e => exact ⟨fun _ _ _ h => (nomatch h), fun _ _ _ _ h => (nomatch h)⟩
  | ok b =>
    refine ⟨fun bs a rest h => ?_, fun bs a rest ys h => ?_⟩
    · cases h
      exact List.suffix_refl _
    · cases h
      rfl

theorem Steady.bind_except (x : Except ε α) {f : α → Bytes → Except ε (β × Bytes)}
    (hf : ∀ a, Steady (f a)) : Steady fun bs => x.bind fun a => f a bs := by
  cases x with
  | error e => exact ⟨fun _ _ _ h => (nomatch h), fun _ _ _ _ h => (nomatch h)⟩
  | ok a => exact hf a

theorem Steady.fail (e : ε) : Steady fun _ => (.error e : Except ε (α × Bytes)) :=
  ⟨fun _ _ _ h => (nomatch h), fun _ _ _ _ h => (nomatch h)⟩

theorem Steady.bind (hp : Steady p) {g : α × Bytes → Except ε (β × Bytes)}
    (hg : ∀ a, Steady fun bs => g (a, bs)) : Steady fun bs => (p bs).bind g := by
  constructor
  · intro bs b rest h
    cases hx : p bs with
    | error e =>
      simp only [hx] at h
      cases h
    | ok r =>
      simp only [hx] at h
      exact ((hg r.1).suffix r.2 b rest h).trans (hp.suffix bs r.1 r.2 hx)
  · intro bs b rest ys h
    cases hx : p bs with
    | error e =>
      simp only [hx] at h
      cases h
    | ok r =>
      simp only [hx] at h
      simp only [hp.more bs r.1 r.2 ys hx]
      exact (hg r.1).more r.2 b rest ys h

theorem Steady.ite {c : Prop} [Decidable c] {q : Bytes → Except ε (α × Bytes)} (hp : Steady p)
    (hq : Steady q) : Steady fun bs => if c then p bs else q bs := by
  split_ifs
  · exact hp
  · exact hq

theorem Steady.not_ok_of_take (hp : Steady p) {w : Bytes} {a : α} (hw : p w = .ok (a, [])) {k : Nat}
    (hk : k < w.length) (b : α) (rest : Bytes) : p (w.take k) ≠ .ok (b, rest) := by
  intro h
  have hmore := hp.more _ _ _ (w.drop k) h
  rw [List.take_append_drop, hw] at hmore
  have hnil : [] = rest ++ w.drop k := congrArg Prod.snd (Except.ok.inj hmore)
  have hlen := congrArg List.length hnil
  rw [List.length_append, List.length_drop, List.length_nil] at hlen
  omega

end Rules

end Bytes
