import Mathlib.Tactic
import Mathlib.Data.Finset.Card

/-! An abstract replicated log: terms, votes, leaders and acknowledgements, with one event for
each thing a protocol of this kind does. The history of votes, candidacies, leaders' logs and
acknowledgements is part of the state and only grows. -/

namespace ReplicatedLog

/-- The voters, the term an entry was proposed in, and the entry all logs start with. -/
structure Setting (N E : Type) where
  members : Finset N
  term : E → ℕ
  root : E
  term_root : term root = 0

structure State (N E : Type) where
  term : N → ℕ
  log : N → List E
  /-- Whom a node voted for in a term, and the log it held then. -/
  vote : N → ℕ → Option (N × List E)
  /-- The log with which a node stood for election in a term. -/
  stood : N → ℕ → Option (List E)
  /-- The leader of a term and the log it has reached. -/
  led : ℕ → Option (N × List E)
  /-- The node has confirmed, in that term, to hold the leader's log up to that index. -/
  acked : N → ℕ → ℕ → Prop

def set2 {A B C : Type} [DecidableEq A] [DecidableEq B] (f : A → B → C) (a : A) (b : B) (c : C) :
    A → B → C := fun a' b' => if a' = a ∧ b' = b then c else f a' b'

section Set2
variable {A B C : Type} [DecidableEq A] [DecidableEq B] {f : A → B → C} {a a' : A} {b b' : B} {c : C}

@[simp] theorem set2_self : set2 f a b c a b = c := by simp [set2]

theorem set2_of_left (h : a' ≠ a) : set2 f a b c a' b' = f a' b' := by simp [set2, h]

theorem set2_of_right (h : b' ≠ b) : set2 f a b c a' b' = f a' b' := by simp [set2, h]

end Set2

variable {N E : Type} (S : Setting N E)

namespace Setting

def lastTerm (ℓ : List E) : ℕ := (ℓ.getLast?.map S.term).getD 0

/-- The vote rule: `a` ends in a later term than `b`, or in the same one and no earlier. -/
def UpToDate (a b : List E) : Prop :=
  S.lastTerm b < S.lastTerm a ∨ (S.lastTerm a = S.lastTerm b ∧ b.length ≤ a.length)

def Majority (Q : Finset N) : Prop := Q ⊆ S.members ∧ S.members.card < 2 * Q.card

variable {S} in
theorem Majority.inter {Q Q' : Finset N} (h : S.Majority Q) (h' : S.Majority Q') :
    ∃ q, q ∈ Q ∧ q ∈ Q' := by
  classical
  by_contra hne
  push Not at hne
  have hd : Disjoint Q Q' := Finset.disjoint_left.mpr hne
  have hc := Finset.card_le_card (Finset.union_subset h.1 h'.1)
  rw [Finset.card_union_of_disjoint hd] at hc
  have h1 := h.2
  have h2 := h'.2
  omega

end Setting

/-- Every entry was proposed by the leader of its term, on top of exactly the entries before it. -/
structure LogOk (s : State N E) (ℓ : List E) : Prop where
  head : ℓ.head? = some S.root
  origin : ∀ i e, ℓ[i]? = some e → 0 < i →
    ∃ c L, s.led (S.term e) = some (c, L) ∧ ℓ.take (i + 1) <+: L
  sorted : ℓ.Pairwise (fun a b => S.term a ≤ S.term b)

/-- The leader of term `u` was elected without the entries `p`. -/
def Lacks (s : State N E) (u : ℕ) (p : List E) : Prop :=
  ∃ c L ℓ, s.led u = some (c, L) ∧ s.stood c u = some ℓ ∧ ¬ p <+: ℓ

/-- What `q` confirmed in terms below `t` is still in `ℓ`, unless a leader of a term below `b`
was elected without it. -/
def Kept (s : State N E) (q : N) (t : ℕ) (ℓ : List E) (b : ℕ) : Prop :=
  ∀ u m c L i, u < t → s.acked q u m → s.led u = some (c, L) → i ≤ m →
    (L[i]?.map S.term) = some u →
    L.take (i + 1) <+: ℓ ∨ ∃ v, u < v ∧ v < b ∧ Lacks s v (L.take (i + 1))

/-- A majority voted for `c` in term `t`, each with all it had confirmed before. -/
def Elected (s : State N E) (c : N) (t : ℕ) : Prop :=
  ∃ Q, S.Majority Q ∧ ∀ q ∈ Q, ∃ ℓ, s.vote q t = some (c, ℓ) ∧ Kept S s q t ℓ t

structure Inv (s : State N E) : Prop where
  vote_ok : ∀ q t c ℓ, s.vote q t = some (c, ℓ) → q ∈ S.members ∧ t ≤ s.term q ∧ LogOk S s ℓ ∧
    (∃ ℓ', s.stood c t = some ℓ' ∧ S.UpToDate ℓ' ℓ) ∧ Kept S s q t ℓ (t + 1)
  stood_ok : ∀ c t ℓ, s.stood c t = some ℓ → t ≤ s.term c ∧ LogOk S s ℓ ∧ ∀ e ∈ ℓ, S.term e < t
  led_ok : ∀ t c L, s.led t = some (c, L) → (∃ ℓ, s.stood c t = some ℓ ∧ ℓ <+: L) ∧ LogOk S s L ∧
    (∀ e ∈ L, S.term e ≤ t) ∧ Elected S s c t
  log_ok : ∀ n, LogOk S s (s.log n) ∧ (∀ e ∈ s.log n, S.term e ≤ s.term n) ∧
    Kept S s n (s.term n + 1) (s.log n) (s.term n + 1)
  acked_ok : ∀ q t m, s.acked q t m → q ∈ S.members ∧ t ≤ s.term q ∧
    ∃ c L, s.led t = some (c, L) ∧ m < L.length

structure Extends (s s' : State N E) : Prop where
  led : ∀ t c L, s.led t = some (c, L) → ∃ L', s'.led t = some (c, L') ∧ L <+: L'
  stood : ∀ c t ℓ, s.stood c t = some ℓ → s'.stood c t = some ℓ
  vote : ∀ q t v, s.vote q t = some v → s'.vote q t = some v
  acked : ∀ q t m, s.acked q t m → s'.acked q t m

section Basic
variable {S} {s s' s'' : State N E}

theorem Extends.refl (s : State N E) : Extends s s :=
  ⟨fun _ _ L h => ⟨L, h, List.prefix_rfl⟩, fun _ _ _ h => h, fun _ _ _ h => h, fun _ _ _ h => h⟩

theorem Extends.trans (h : Extends s s') (h' : Extends s' s'') : Extends s s'' := by
  refine ⟨?_, fun c t ℓ hs => h'.stood c t ℓ (h.stood c t ℓ hs),
    fun q t v hv => h'.vote q t v (h.vote q t v hv), fun q t m ha => h'.acked q t m (h.acked q t m ha)⟩
  intro t c L hl
  obtain ⟨L', hl', hp⟩ := h.led t c L hl
  obtain ⟨L'', hl'', hp'⟩ := h'.led t c L' hl'
  exact ⟨L'', hl'', hp.trans hp'⟩

theorem LogOk.mono {ℓ : List E} (h : LogOk S s ℓ) (hx : Extends s s') : LogOk S s' ℓ := by
  refine ⟨h.head, ?_, h.sorted⟩
  intro i e he hi
  obtain ⟨c, L, hl, hp⟩ := h.origin i e he hi
  obtain ⟨L', hl', hp'⟩ := hx.led _ _ _ hl
  exact ⟨c, L', hl', hp.trans hp'⟩

theorem LogOk.length_pos {ℓ : List E} (h : LogOk S s ℓ) : 0 < ℓ.length := by
  have hh := h.head
  cases ℓ with
  | nil => simp at hh
  | cons a as => simp

theorem LogOk.of_initial {ℓ L : List E} (h : LogOk S s L) (hp : ℓ <+: L) (hne : ℓ ≠ []) :
    LogOk S s ℓ := by
  obtain ⟨r, rfl⟩ := hp
  refine ⟨?_, ?_, (List.pairwise_append.mp h.sorted).1⟩
  · have hh := h.head
    cases ℓ with
    | nil => exact absurd rfl hne
    | cons a as => simpa using hh
  · intro i e he hi
    have hil : i < ℓ.length := (List.getElem?_eq_some_iff.mp he).1
    obtain ⟨c, L', hl, hp⟩ := h.origin i e (by rw [List.getElem?_append_left hil]; exact he) hi
    refine ⟨c, L', hl, ?_⟩
    rwa [List.take_append_of_le_length (by omega)] at hp

theorem Lacks.mono {u : ℕ} {p : List E} (h : Lacks s u p) (hx : Extends s s') : Lacks s' u p := by
  obtain ⟨c, L, ℓ, hl, hs, hn⟩ := h
  obtain ⟨L', hl', -⟩ := hx.led _ _ _ hl
  exact ⟨c, L', ℓ, hl', hx.stood _ _ _ hs, hn⟩

theorem prefix_take_eq {L L' : List E} (hp : L <+: L') {i : ℕ} (hi : i < L.length) :
    L'.take (i + 1) = L.take (i + 1) := by
  obtain ⟨r, rfl⟩ := hp
  exact List.take_append_of_le_length (by omega)

theorem prefix_getElem? {L L' : List E} (hp : L <+: L') {i : ℕ} (hi : i < L.length) :
    L'[i]? = L[i]? := by
  obtain ⟨r, rfl⟩ := hp
  exact List.getElem?_append_left hi

/-- `Kept` survives as long as the node confirms nothing new in the terms it speaks about. -/
theorem Kept.mono {q : N} {t b b' : ℕ} {ℓ : List E} (h : Kept S s q t ℓ b) (hx : Extends s s')
    (hinv : Inv S s) (hb : b ≤ b') {t' : ℕ}
    (hold : ∀ u m, u < t' → s'.acked q u m → u < t ∧ s.acked q u m) : Kept S s' q t' ℓ b' := by
  intro u m c L i hu ha hl hi ht
  obtain ⟨hut, ha0⟩ := hold u m hu ha
  obtain ⟨-, -, c0, L0, hl0, hm0⟩ := hinv.acked_ok q u m ha0
  obtain ⟨L', hl', hp⟩ := hx.led _ _ _ hl0
  obtain ⟨rfl, rfl⟩ : c = c0 ∧ L = L' := by
    rw [hl] at hl'
    exact Prod.mk.inj (Option.some.inj hl')
  have hiL : i < L0.length := by omega
  rw [prefix_take_eq hp hiL]
  rw [prefix_getElem? hp hiL] at ht
  rcases h u m c L0 i hut ha0 hl0 hi ht with h1 | ⟨v, hv1, hv2, hv3⟩
  · exact Or.inl h1
  · exact Or.inr ⟨v, hv1, hv2.trans_le hb, hv3.mono hx⟩

theorem Elected.mono {c : N} {t : ℕ} (h : Elected S s c t) (hx : Extends s s') (hinv : Inv S s)
    (hold : ∀ q u m, u < s.term q → s'.acked q u m → s.acked q u m) : Elected S s' c t := by
  obtain ⟨Q, hQ, hv⟩ := h
  refine ⟨Q, hQ, fun q hq => ?_⟩
  obtain ⟨ℓ, hvote, hk⟩ := hv q hq
  have ht := (hinv.vote_ok q t c ℓ hvote).2.1
  exact ⟨ℓ, hx.vote _ _ _ hvote, hk.mono hx hinv le_rfl
    fun u m hu ha => ⟨hu, hold q u m (hu.trans_le ht) ha⟩⟩

end Basic

variable [DecidableEq N]

namespace State

/-! The effect of each event. -/

def advance (s : State N E) (n : N) (t : ℕ) : State N E :=
  { s with term := Function.update s.term n t }

def stand (s : State N E) (n : N) : State N E :=
  { s with
    term := Function.update s.term n (s.term n + 1)
    stood := set2 s.stood n (s.term n + 1) (some (s.log n))
    vote := set2 s.vote n (s.term n + 1) (some (n, s.log n)) }

def grant (s : State N E) (q c : N) : State N E :=
  { s with vote := set2 s.vote q (s.term q) (some (c, s.log q)) }

def elect (s : State N E) (c : N) : State N E :=
  { s with
    led := Function.update s.led (s.term c) (some (c, s.log c))
    acked := fun q t m => s.acked q t m ∨ (q = c ∧ t = s.term c ∧ m = (s.log c).length - 1) }

def propose (s : State N E) (c : N) (e : E) : State N E :=
  { s with
    log := Function.update s.log c (s.log c ++ [e])
    led := Function.update s.led (s.term c) (some (c, s.log c ++ [e]))
    acked := fun q t m => s.acked q t m ∨ (q = c ∧ t = s.term c ∧ m = (s.log c).length) }

def accept (s : State N E) (q : N) (m : ℕ) (ℓ : List E) : State N E :=
  { s with
    log := Function.update s.log q ℓ
    acked := fun q' t m' => s.acked q' t m' ∨ (q' = q ∧ t = s.term q ∧ m' = m) }

variable {s : State N E} {n c q : N} {t m : ℕ} {e : E} {ℓ : List E}

omit [DecidableEq N] in
@[simp] theorem elect_led : (s.elect c).led (s.term c) = some (c, s.log c) := Function.update_self ..

omit [DecidableEq N] in
theorem elect_led_of_ne (h : t ≠ s.term c) : (s.elect c).led t = s.led t :=
  Function.update_of_ne h ..

@[simp] theorem propose_led : (s.propose c e).led (s.term c) = some (c, s.log c ++ [e]) :=
  Function.update_self ..

theorem propose_led_of_ne (h : t ≠ s.term c) : (s.propose c e).led t = s.led t :=
  Function.update_of_ne h ..

@[simp] theorem propose_log : (s.propose c e).log c = s.log c ++ [e] := Function.update_self ..

theorem propose_log_of_ne (h : n ≠ c) : (s.propose c e).log n = s.log n := Function.update_of_ne h ..

@[simp] theorem accept_log : (s.accept q m ℓ).log q = ℓ := Function.update_self ..

theorem accept_log_of_ne (h : n ≠ q) : (s.accept q m ℓ).log n = s.log n := Function.update_of_ne h ..

@[simp] theorem advance_term : (s.advance n t).term n = t := Function.update_self ..

theorem advance_term_of_ne (h : q ≠ n) : (s.advance n t).term q = s.term q :=
  Function.update_of_ne h ..

@[simp] theorem stand_term : (s.stand n).term n = s.term n + 1 := Function.update_self ..

theorem stand_term_of_ne (h : q ≠ n) : (s.stand n).term q = s.term q := Function.update_of_ne h ..

end State

/-- The new log of a node that accepts the leader's log `L` up to index `m`: unchanged if it has
all of that already, and otherwise exactly that. -/
def Accepts (L : List E) (m : ℕ) (old new : List E) : Prop :=
  (L.take (m + 1) <+: old ∧ new = old) ∨ (¬ L.take (m + 1) <+: old ∧ new = L.take (m + 1))

inductive Step : State N E → State N E → Prop
  | advance (s : State N E) (n : N) (t : ℕ) (h : s.term n < t) : Step s (s.advance n t)
  | stand (s : State N E) (n : N) (hn : n ∈ S.members) : Step s (s.stand n)
  | grant (s : State N E) (q c : N) (ℓ : List E) (hq : q ∈ S.members)
      (hv : s.vote q (s.term q) = none) (hs : s.stood c (s.term q) = some ℓ)
      (hu : S.UpToDate ℓ (s.log q)) : Step s (s.grant q c)
  | elect (s : State N E) (c : N) (Q : Finset N) (hs : s.stood c (s.term c) = some (s.log c))
      (hQ : S.Majority Q) (hv : ∀ q ∈ Q, ∃ ℓ, s.vote q (s.term c) = some (c, ℓ))
      (hn : s.led (s.term c) = none) (hc : c ∈ S.members) : Step s (s.elect c)
  | propose (s : State N E) (c : N) (e : E) (hl : s.led (s.term c) = some (c, s.log c))
      (he : S.term e = s.term c) (hc : c ∈ S.members) : Step s (s.propose c e)
  | accept (s : State N E) (q c : N) (L : List E) (m : ℕ) (ℓ : List E) (hq : q ∈ S.members)
      (hl : s.led (s.term q) = some (c, L)) (hm : m < L.length) (hc : q ≠ c)
      (hℓ : Accepts L m (s.log q) ℓ) : Step s (s.accept q m ℓ)

end ReplicatedLog
