import KvRaft.Lib.LogInvariant
import Mathlib.Logic.Relation

/-! Leader completeness and agreement on chosen entries, for the abstract replicated log. -/

namespace ReplicatedLog
variable {N E : Type} {S : Setting N E} {s s' : State N E}

/-- A majority has confirmed the entry that the leader of term `t` proposed at index `i`. -/
def Chosen (S : Setting N E) (s : State N E) (t i : ℕ) : Prop :=
  ∃ c L Q, s.led t = some (c, L) ∧ (L[i]?.map S.term) = some t ∧ S.Majority Q ∧
    ∀ q ∈ Q, ∃ m, i ≤ m ∧ s.acked q t m

/-- The entries of `ℓ` up to index `k` were chosen in a term of at most `b`. -/
def Committed (S : Setting N E) (s : State N E) (b : ℕ) (ℓ : List E) (k : ℕ) : Prop :=
  k = 0 ∨ ∃ t i c L, t ≤ b ∧ k ≤ i ∧ Chosen S s t i ∧ s.led t = some (c, L) ∧ L.take (k + 1) <+: ℓ

theorem Chosen.lt_length {t i : ℕ} (h : Chosen S s t i) {c : N} {L : List E}
    (hl : s.led t = some (c, L)) : i < L.length := by
  obtain ⟨c', L', -, hl', ht, -⟩ := h
  obtain ⟨-, rfl⟩ := Prod.mk.inj (Option.some.inj (hl.symm.trans hl'))
  obtain ⟨e, he, -⟩ := Option.map_eq_some_iff.mp ht
  exact (List.getElem?_eq_some_iff.mp he).1

theorem Chosen.mono {t i : ℕ} (h : Chosen S s t i) (hx : Extends s s') : Chosen S s' t i := by
  have hlt := fun c L hl => h.lt_length (c := c) (L := L) hl
  obtain ⟨c, L, Q, hl, ht, hQ, ha⟩ := h
  obtain ⟨L', hl', hp⟩ := hx.led _ _ _ hl
  refine ⟨c, L', Q, hl', ?_, hQ, fun q hq => ?_⟩
  · rwa [prefix_getElem? hp (hlt c L hl)]
  · obtain ⟨m, hm, hq'⟩ := ha q hq
    exact ⟨m, hm, hx.acked _ _ _ hq'⟩

theorem Committed.mono {b b' k : ℕ} {ℓ ℓ' : List E} (h : Committed S s b ℓ k) (hx : Extends s s')
    (hb : b ≤ b') (hp : ℓ <+: ℓ') : Committed S s' b' ℓ' k := by
  rcases h with rfl | ⟨t, i, c, L, ht, hk, hch, hl, hpre⟩
  · exact Or.inl rfl
  · obtain ⟨L', hl', hp'⟩ := hx.led _ _ _ hl
    refine Or.inr ⟨t, i, c, L', ht.trans hb, hk, hch.mono hx, hl', ?_⟩
    have hlt := hch.lt_length hl
    rw [prefix_take_eq hp' (by omega)]
    exact hpre.trans hp

theorem Committed.lt_length {b k : ℕ} {ℓ : List E} (h : Committed S s b ℓ k) (hne : 0 < ℓ.length) :
    k < ℓ.length := by
  rcases h with rfl | ⟨t, i, c, L, -, hk, hch, hl, hpre⟩
  · exact hne
  · have hlt := hch.lt_length hl
    have := hpre.length_le
    rw [List.length_take] at this
    omega

theorem Committed.of_le {b k k' : ℕ} {ℓ : List E} (h : Committed S s b ℓ k) (hk : k' ≤ k) :
    Committed S s b ℓ k' := by
  rcases h with rfl | ⟨t, i, c, L, ht, hki, hch, hl, hpre⟩
  · exact Or.inl (by omega)
  · exact Or.inr ⟨t, i, c, L, ht, hk.trans hki, hch, hl,
      (List.take_prefix_take_left (by omega)).trans hpre⟩

theorem Committed.of_take {b k m : ℕ} {L ℓ : List E} (h : Committed S s b L k) (hk : k ≤ m)
    (hp : L.take (m + 1) <+: ℓ) : Committed S s b ℓ k := by
  rcases h with rfl | ⟨t, i, c, L', ht, hki, hch, hl, hpre⟩
  · exact Or.inl rfl
  · refine Or.inr ⟨t, i, c, L', ht, hki, hch, hl, List.IsPrefix.trans ?_ hp⟩
    refine List.prefix_of_prefix_length_le hpre (List.take_prefix _ _) ?_
    have hle := hpre.length_le
    rw [List.length_take] at hle ⊢
    rw [List.length_take]
    omega

theorem lastTerm_of_getElem? {ℓ : List E} {e : E} (h : ℓ[ℓ.length - 1]? = some e) :
    S.lastTerm ℓ = S.term e := by
  rw [← List.getLast?_eq_getElem?] at h
  simp [Setting.lastTerm, h]

theorem LogOk.last {ℓ : List E} (h : LogOk S s ℓ) :
    ∃ e, ℓ[ℓ.length - 1]? = some e ∧ S.lastTerm ℓ = S.term e := by
  have hlt : ℓ.length - 1 < ℓ.length := Nat.sub_lt h.length_pos one_pos
  exact ⟨ℓ[ℓ.length - 1], List.getElem?_eq_getElem hlt,
    lastTerm_of_getElem? (List.getElem?_eq_getElem hlt)⟩

theorem LogOk.prefix_led {ℓ : List E} (h : LogOk S s ℓ) (hlen : 1 < ℓ.length) :
    ∃ c L, s.led (S.lastTerm ℓ) = some (c, L) ∧ ℓ <+: L := by
  obtain ⟨e, he, ht⟩ := h.last
  obtain ⟨c, L, hl, hp⟩ := h.origin _ e he (by omega)
  refine ⟨c, L, ht ▸ hl, ?_⟩
  rwa [Nat.sub_add_cancel h.length_pos, List.take_length] at hp

theorem Inv.led_pos (hinv : Inv S s) {t : ℕ} {c : N} {L : List E} (hl : s.led t = some (c, L)) :
    0 < t := by
  obtain ⟨⟨ℓ, hs, -⟩, -⟩ := hinv.led_ok t c L hl
  obtain ⟨-, hok, hb⟩ := hinv.stood_ok c t ℓ hs
  have hr := hok.head
  cases ℓ with
  | nil => simp at hr
  | cons a as =>
    exact lt_of_le_of_lt (Nat.zero_le _) (hb a (List.mem_cons_self ..))

theorem Inv.index_pos (hinv : Inv S s) {t i : ℕ} {c : N} {L : List E} (hl : s.led t = some (c, L))
    (ht : (L[i]?.map S.term) = some t) : 0 < i := by
  rcases Nat.eq_zero_or_pos i with rfl | hi
  · have hpos := hinv.led_pos hl
    have hr := (hinv.led_ok t c L hl).2.1.head
    rw [List.head?_eq_getElem?] at hr
    rw [hr, Option.map_some, S.term_root] at ht
    have := Option.some.inj ht
    omega
  · exact hi

/-- The vote rule carries a chosen prefix from the voter to the candidate, provided the leaders
between have it. -/
theorem carry_of_upToDate (hinv : Inv S s) {t i t' : ℕ} {c : N} {L ℓ ℓ' : List E}
    (hl : s.led t = some (c, L)) (ht : (L[i]?.map S.term) = some t) (hok : LogOk S s ℓ)
    (hok' : LogOk S s ℓ') (hb' : ∀ e ∈ ℓ', S.term e < t') (hp : L.take (i + 1) <+: ℓ)
    (hu : S.UpToDate ℓ' ℓ)
    (hmid : ∀ u c L₁, t < u → u < t' → s.led u = some (c, L₁) → L.take (i + 1) <+: L₁) :
    L.take (i + 1) <+: ℓ' := by
  obtain ⟨x, hx, hxt⟩ := Option.map_eq_some_iff.mp ht
  have hiL : i < L.length := (List.getElem?_eq_some_iff.mp hx).1
  have hlen : (L.take (i + 1)).length = i + 1 := List.length_take_of_le hiL
  have hile : i + 1 ≤ ℓ.length := hlen ▸ hp.length_le
  have hi := hinv.index_pos hl ht
  obtain ⟨y, hy, hyt⟩ := hok.last
  have hxℓ : ℓ[i]? = some x := by
    rw [prefix_getElem? hp (by omega), List.getElem?_take_of_lt (by omega)]
    exact hx
  -- terms never fall along a log
  have hlast : t ≤ S.lastTerm ℓ := by
    rw [hyt, ← hxt]
    exact hok.term_le (by omega) hxℓ hy
  obtain ⟨z, hz, hzt⟩ := hok'.last
  have hzmem : z ∈ ℓ' := List.mem_of_getElem? hz
  rcases hu with hgt | ⟨heq, hge⟩
  · -- the candidate's last entry comes from a later leader, which has the prefix
    have hlen' : 1 < ℓ'.length := by
      by_contra hle
      have h1 : ℓ'.length = 1 := by
        have := hok'.length_pos
        omega
      have hr := hok'.head
      rw [List.head?_eq_getElem?] at hr
      rw [h1, Nat.sub_self, hr] at hz
      obtain rfl := Option.some.inj hz
      rw [S.term_root] at hzt
      omega
    obtain ⟨c₁, L₁, hl₁, hp₁⟩ := hok'.prefix_led hlen'
    have hpL₁ := hmid _ c₁ L₁ (by omega) (hzt ▸ hb' z hzmem) hl₁
    rcases List.prefix_or_prefix_of_prefix hpL₁ hp₁ with h1 | h1
    · exact h1
    · have hzL : z ∈ L := List.mem_of_mem_take (h1.subset hzmem)
      have := (hinv.led_ok t c L hl).2.2.1 z hzL
      omega
  · -- both logs end inside the log of one leader
    obtain ⟨c₁, L₁, hl₁, hp₁⟩ := hok.prefix_led (by omega)
    obtain ⟨c₂, L₂, hl₂, hp₂⟩ := hok'.prefix_led (by omega)
    rw [heq, hl₁] at hl₂
    obtain ⟨-, rfl⟩ := Prod.mk.inj (Option.some.inj hl₂)
    exact hp.trans (List.prefix_of_prefix_length_le hp₁ hp₂ hge)

/-- Every later leader stood for election with all entries chosen before. -/
theorem leader_has_chosen (hinv : Inv S s) {t i t' : ℕ} (hch : Chosen S s t i) {c c' : N}
    {L L' ℓ : List E} (hl : s.led t = some (c, L)) (hl' : s.led t' = some (c', L'))
    (hs : s.stood c' t' = some ℓ) (htt : t < t') : L.take (i + 1) <+: ℓ := by
  induction t' using Nat.strong_induction_on generalizing c' L' ℓ with
  | _ t' ih =>
    obtain ⟨c₀, L₀, Q, hl₀, ht, hQ, hacks⟩ := hch
    obtain ⟨rfl, rfl⟩ := Prod.mk.inj (Option.some.inj (hl.symm.trans hl₀))
    obtain ⟨-, -, -, Q', hQ', hvotes⟩ := hinv.led_ok t' c' L' hl'
    obtain ⟨q, hq, hq'⟩ := hQ.inter hQ'
    obtain ⟨m, him, hack⟩ := hacks q hq
    obtain ⟨ℓq, hvote, hkept⟩ := hvotes q hq'
    obtain ⟨-, -, hokq, ⟨ℓ₁, hs₁, hu⟩, -⟩ := hinv.vote_ok q t' c' ℓq hvote
    obtain rfl := Option.some.inj (hs.symm.trans hs₁)
    obtain ⟨-, hok, hb⟩ := hinv.stood_ok c' t' ℓ hs
    have hvoter : L.take (i + 1) <+: ℓq := by
      rcases hkept t m c L i htt hack hl him ht with h1 | ⟨v, hv1, hv2, cv, Lv, ℓv, hlv, hsv, hnot⟩
      · exact h1
      · exact absurd (ih v hv2 hlv hsv hv1) hnot
    refine carry_of_upToDate hinv hl ht hokq hok hb hvoter hu fun u c₁ L₁ hu1 hu2 hl₁ => ?_
    obtain ⟨⟨ℓu, hsu, hpu⟩, -⟩ := hinv.led_ok u c₁ L₁ hl₁
    exact (ih u hu2 hl₁ hsu hu1).trans hpu

theorem LogOk.head_prefix {ℓ ℓ' : List E} (h : LogOk S s ℓ) (h' : LogOk S s ℓ') :
    ℓ.take 1 <+: ℓ' := by
  have h1 := h.head
  have h2 := h'.head
  cases ℓ with
  | nil => simp at h1
  | cons a as => cases ℓ' with
    | nil => simp at h2
    | cons b bs => simp_all

theorem take_prefix_take_eq {L ℓ : List E} {k : ℕ} (hp : L.take (k + 1) <+: ℓ)
    (hk : k < L.length) : ℓ.take (k + 1) = L.take (k + 1) := by
  have h := (List.prefix_iff_eq_take.mp hp).symm
  rwa [List.length_take_of_le hk] at h

theorem Committed.prefix_stood (hinv : Inv S s) {b k : ℕ} {ℓ : List E} (h : Committed S s b ℓ k)
    (hok : LogOk S s ℓ) {t' : ℕ} {c' : N} {L' ℓ' : List E} (hbt : b < t')
    (hl' : s.led t' = some (c', L')) (hs : s.stood c' t' = some ℓ') : ℓ.take (k + 1) <+: ℓ' := by
  rcases h with rfl | ⟨t, i, c, L, ht, hk, hch, hl, hpre⟩
  · exact hok.head_prefix (hinv.stood_ok c' t' ℓ' hs).2.1
  · have hlt := hch.lt_length hl
    rw [take_prefix_take_eq hpre (by omega)]
    exact (List.take_prefix_take_left (by omega)).trans
      (leader_has_chosen hinv hch hl hl' hs (by omega))

theorem Committed.prefix_led (hinv : Inv S s) {b k : ℕ} {ℓ : List E} (h : Committed S s b ℓ k)
    (hok : LogOk S s ℓ) {t' : ℕ} {c' : N} {L' : List E} (hbt : b ≤ t')
    (hl' : s.led t' = some (c', L')) : ℓ.take (k + 1) <+: L' := by
  obtain ⟨⟨ℓ', hs, hp⟩, hok', -⟩ := hinv.led_ok t' c' L' hl'
  rcases h with rfl | ⟨t, i, c, L, ht, hk, hch, hl, hpre⟩
  · exact hok.head_prefix hok'
  · have hlt := hch.lt_length hl
    rcases Nat.eq_or_lt_of_le (ht.trans hbt) with rfl | htt
    · obtain ⟨-, rfl⟩ := Prod.mk.inj (Option.some.inj (hl.symm.trans hl'))
      rw [take_prefix_take_eq hpre (by omega)]
      exact List.take_prefix _ _
    · have hcom : Committed S s t ℓ k := Or.inr ⟨t, i, c, L, le_rfl, hk, hch, hl, hpre⟩
      exact (hcom.prefix_stood hinv hok htt hl' hs).trans hp

theorem Committed.agree (hinv : Inv S s) {b b' k k' : ℕ} {ℓ ℓ' : List E}
    (h : Committed S s b ℓ k) (h' : Committed S s b' ℓ' k') (hok : LogOk S s ℓ)
    (hok' : LogOk S s ℓ') (hk : k ≤ k') : ℓ.take (k + 1) = ℓ'.take (k + 1) := by
  have hlen : k < ℓ.length := h.lt_length hok.length_pos
  have hlen' : k' < ℓ'.length := h'.lt_length hok'.length_pos
  have hsize : (ℓ.take (k + 1)).length = (ℓ'.take (k + 1)).length := by
    rw [List.length_take_of_le hlen, List.length_take_of_le (by omega)]
  -- the later of the two deciding leaders has both
  suffices ∃ L₁ : List E, ℓ.take (k + 1) <+: L₁ ∧ ℓ'.take (k + 1) <+: L₁ by
    obtain ⟨L₁, h1, h2⟩ := this
    exact (List.prefix_of_prefix_length_le h1 h2 hsize.le).eq_of_length hsize
  have h2 := h'.of_le hk
  rcases Nat.eq_zero_or_pos k with rfl | hpos
  · refine ⟨[S.root], ?_, ?_⟩
    · have h1 := hok.head
      cases ℓ with
      | nil => simp at h1
      | cons a as => simp_all
    · have h1 := hok'.head
      cases ℓ' with
      | nil => simp at h1
      | cons a as => simp_all
  · obtain ⟨t, i, c, L, ht, hki, hch, hl, hpre⟩ := h.resolve_left (by omega)
    obtain ⟨t', i', c', L', ht', hki', hch', hl', hpre'⟩ := h2.resolve_left (by omega)
    have e1 : Committed S s t ℓ k := Or.inr ⟨t, i, c, L, le_rfl, hki, hch, hl, hpre⟩
    have e2 : Committed S s t' ℓ' k := Or.inr ⟨t', i', c', L', le_rfl, hki', hch', hl', hpre'⟩
    rcases Nat.le_total t t' with hle | hle
    · exact ⟨L', e1.prefix_led hinv hok hle hl', e2.prefix_led hinv hok' le_rfl hl'⟩
    · exact ⟨L, e1.prefix_led hinv hok le_rfl hl, e2.prefix_led hinv hok' hle hl⟩

theorem Committed.accept (hinv : Inv S s) {b k m : ℕ} {ℓ ℓ' L : List E} {c : N}
    (h : Committed S s b ℓ k) (hok : LogOk S s ℓ) (hl : s.led b = some (c, L))
    (hacc : Accepts L m ℓ ℓ') : Committed S s b ℓ' k := by
  have hk : k < ℓ.length := h.lt_length hok.length_pos
  have hL := h.prefix_led hinv hok le_rfl hl
  have hkeep := hacc.keeps (List.take_prefix (k + 1) ℓ) hL
  rcases h with rfl | ⟨t, i, c', L', ht, hki, hch, hl', hpre⟩
  · exact Or.inl rfl
  · refine Or.inr ⟨t, i, c', L', ht, hki, hch, hl', ?_⟩
    have hlt := hch.lt_length hl'
    have hlen : (L'.take (k + 1)).length = k + 1 := List.length_take_of_le (by omega)
    rw [List.prefix_iff_eq_take.mp hpre, hlen]
    exact hkeep

def State.init (S : Setting N E) : State N E where
  term _ := 0
  log _ := [S.root]
  vote _ _ := none
  stood _ _ := none
  led _ := none
  acked _ _ _ := False

theorem Inv.init : Inv S (State.init S) where
  vote_ok _ _ _ _ h := nomatch h
  stood_ok _ _ _ h := nomatch h
  led_ok _ _ _ h := nomatch h
  acked_ok _ _ _ h := nomatch h
  log_ok n := by
    refine ⟨⟨rfl, ?_, List.pairwise_singleton _ _⟩, ?_, fun _ _ _ _ _ _ ha => nomatch ha⟩
    · intro i e he hi
      have := (List.getElem?_eq_some_iff.mp he).1
      simp only [State.init, List.length_singleton] at this
      omega
    · intro e he
      rw [List.mem_singleton.mp he, S.term_root]
      exact le_rfl

abbrev Run [DecidableEq N] (S : Setting N E) := Relation.ReflTransGen (Step S)

theorem Run.inv [DecidableEq N] (h : Run S s s') (hinv : Inv S s) : Inv S s' ∧ Extends s s' := by
  induction h with
  | refl => exact ⟨hinv, Extends.refl s⟩
  | tail _ hstep ih => exact ⟨hstep.inv ih.1, ih.2.trans (hstep.extends ih.1)⟩

/-- Every node still has what it has confirmed in its present term. -/
def Held (s : State N E) : Prop :=
  ∀ q m c L, s.acked q (s.term q) m → s.led (s.term q) = some (c, L) → L.take (m + 1) <+: s.log q

theorem Held.init : Held (State.init S) := fun _ _ _ _ h => nomatch h

theorem Inv.not_acked (hinv : Inv S s) {q : N} {t m : ℕ} (ht : s.term q < t) : ¬ s.acked q t m :=
  fun h => absurd (hinv.acked_ok q t m h).2.1 (not_le.mpr ht)

section Events
variable [DecidableEq N] (hinv : Inv S s) (hheld : Held s)
include hinv hheld

theorem Held.advance {n : N} {t : ℕ} (ht : s.term n < t) : Held (s.advance n t) := by
  intro q m c L hack hl
  by_cases hq : q = n
  · subst hq
    rw [State.advance_term] at hack
    exact absurd hack (hinv.not_acked ht)
  · rw [State.advance_term_of_ne hq] at hack hl
    exact hheld q m c L hack hl

theorem Held.stand (n : N) : Held (s.stand n) := by
  intro q m c L hack hl
  by_cases hq : q = n
  · subst hq
    rw [State.stand_term] at hack
    exact absurd hack (hinv.not_acked (Nat.lt_succ_self _))
  · rw [State.stand_term_of_ne hq] at hack hl
    exact hheld q m c L hack hl

omit [DecidableEq N] in
theorem Held.elect {c : N} (hn : s.led (s.term c) = none) : Held (s.elect c) := by
  intro q m c' L hack hl
  by_cases ht : s.term q = s.term c
  · -- Nobody can have confirmed anything in a term without a leader.
    rcases hack with hack | ⟨rfl, -, rfl⟩
    · obtain ⟨-, -, c₀, L₀, hl₀, -⟩ := hinv.acked_ok q _ m hack
      exact nomatch (ht ▸ hl₀).symm.trans hn
    · rw [show (s.elect q).term q = s.term q from rfl, State.elect_led] at hl
      obtain ⟨-, rfl⟩ := Prod.mk.inj (Option.some.inj hl)
      exact List.take_prefix _ _
  · rw [show (s.elect c).term q = s.term q from rfl, State.elect_led_of_ne ht] at hl
    rcases hack with hack | ⟨rfl, -, -⟩
    · exact hheld q m c' L hack hl
    · exact absurd rfl ht

theorem Held.propose {c : N} {e : E} (hl : s.led (s.term c) = some (c, s.log c)) : Held (s.propose c e) := by
  intro q m c' L hack hL
  have hkept : s.log q <+: (s.propose c e).log q := by
    by_cases hq : q = c
    · subst hq
      rw [State.propose_log]
      exact List.prefix_append _ _
    · rw [State.propose_log_of_ne hq]
  by_cases ht : s.term q = s.term c
  · rw [show (s.propose c e).term q = s.term c from ht, State.propose_led] at hL
    obtain ⟨rfl, rfl⟩ := Prod.mk.inj (Option.some.inj hL)
    rcases hack with hack | ⟨rfl, -, rfl⟩
    · obtain ⟨-, -, c₀, L₀, hl₀, hm⟩ := hinv.acked_ok q _ m hack
      obtain ⟨-, rfl⟩ := Prod.mk.inj (Option.some.inj (hl.symm.trans (ht ▸ hl₀)))
      rw [List.take_append_of_le_length hm]
      exact (hheld q m c _ hack (ht ▸ hl)).trans hkept
    · rw [State.propose_log]
      exact List.take_prefix _ _
  · rw [show (s.propose c e).term q = s.term q from rfl, State.propose_led_of_ne ht] at hL
    rcases hack with hack | ⟨rfl, -, -⟩
    · exact (hheld q m c' L hack hL).trans hkept
    · exact absurd rfl ht

omit hinv in
theorem Held.accept {q c : N} {L ℓ : List E} {m : ℕ} (hl : s.led (s.term q) = some (c, L))
    (hℓ : Accepts L m (s.log q) ℓ) : Held (s.accept q m ℓ) := by
  intro q' m' c' L' hack hL'
  by_cases hq : q' = q
  · subst hq
    obtain ⟨rfl, rfl⟩ := Prod.mk.inj (Option.some.inj (hl.symm.trans hL'))
    rw [State.accept_log]
    rcases hack with hack | ⟨-, -, rfl⟩
    · exact hℓ.keeps (hheld q' m' c _ hack hl) (List.take_prefix _ _)
    · exact hℓ.take_prefix
  · rw [State.accept_log_of_ne hq]
    rcases hack with hack | ⟨rfl, -, -⟩
    · exact hheld q' m' c' L' hack hL'
    · exact absurd rfl hq

theorem Step.held (h : Step S s s') : Held s' := by
  cases h with
  | advance n t ht => exact hheld.advance hinv ht
  | stand n => exact hheld.stand hinv n
  | grant => exact hheld
  | elect c Q hs hQ hv hn => exact hheld.elect hinv hn
  | propose c e hl => exact hheld.propose hinv hl
  | accept q c L m ℓ hq hl hm hc hℓ => exact hheld.accept hl hℓ

theorem Run.held (h : Run S s s') : Held s' := by
  induction h with
  | refl => exact hheld
  | tail hrun hstep ih => exact hstep.held (Run.inv hrun hinv).1 ih

end Events
end ReplicatedLog
