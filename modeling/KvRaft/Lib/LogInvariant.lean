import KvRaft.Lib.ReplicatedLog

/-! Every event of the abstract replicated log extends the history and keeps the invariant. -/

namespace ReplicatedLog
variable {N E : Type} {S : Setting N E} {s s' : State N E}

/-- Two proper logs with entries of one term at one index agree up to that index. -/
theorem LogOk.agree {a b : List E} (ha : LogOk S s a) (hb : LogOk S s b) {i : ℕ} {x y : E}
    (hx : a[i]? = some x) (hy : b[i]? = some y) (ht : S.term x = S.term y) :
    a.take (i + 1) = b.take (i + 1) := by
  have hla : i < a.length := (List.getElem?_eq_some_iff.mp hx).1
  have hlb : i < b.length := (List.getElem?_eq_some_iff.mp hy).1
  rcases Nat.eq_zero_or_pos i with rfl | hi
  · have h1 := ha.head
    have h2 := hb.head
    cases a with
    | nil => simp at h1
    | cons u us => cases b with
      | nil => simp at h2
      | cons v vs => simp_all
  · obtain ⟨c, L, hl, hp⟩ := ha.origin i x hx hi
    obtain ⟨c', L', hl', hp'⟩ := hb.origin i y hy hi
    rw [ht, hl'] at hl
    obtain ⟨-, rfl⟩ := Prod.mk.inj (Option.some.inj hl)
    have hlen : (a.take (i + 1)).length = (b.take (i + 1)).length := by
      rw [List.length_take_of_le hla, List.length_take_of_le hlb]
    exact (List.prefix_of_prefix_length_le hp hp' hlen.le).eq_of_length hlen

theorem LogOk.term_le {ℓ : List E} (h : LogOk S s ℓ) {i j : ℕ} {x y : E} (hij : i ≤ j)
    (hx : ℓ[i]? = some x) (hy : ℓ[j]? = some y) : S.term x ≤ S.term y := by
  obtain ⟨hi, rfl⟩ := List.getElem?_eq_some_iff.mp hx
  obtain ⟨hj, rfl⟩ := List.getElem?_eq_some_iff.mp hy
  rcases Nat.eq_or_lt_of_le hij with rfl | hlt
  · exact le_rfl
  · exact List.pairwise_iff_getElem.mp h.sorted i j hi hj hlt

theorem LogOk.append {ℓ : List E} (h : LogOk S s ℓ) {e : E} (hmax : ∀ x ∈ ℓ, S.term x ≤ S.term e)
    {c : N} (hl : s.led (S.term e) = some (c, ℓ ++ [e])) : LogOk S s (ℓ ++ [e]) := by
  have hne := h.length_pos
  refine ⟨?_, ?_, ?_⟩
  · have hh := h.head
    cases ℓ with
    | nil => simp at hh
    | cons a as => simpa using hh
  · intro i x hx hi
    rcases Nat.lt_or_ge i ℓ.length with hlt | hge
    · rw [List.getElem?_append_left hlt] at hx
      obtain ⟨c', L, hl', hp⟩ := h.origin i x hx hi
      exact ⟨c', L, hl', by rwa [List.take_append_of_le_length (by omega)]⟩
    · have hil : i < (ℓ ++ [e]).length := (List.getElem?_eq_some_iff.mp hx).1
      have hieq : i = ℓ.length := by
        rw [List.length_append, List.length_singleton] at hil
        omega
      subst hieq
      obtain rfl : e = x := by simpa using hx
      exact ⟨c, ℓ ++ [e], hl, List.take_prefix _ _⟩
  · rw [List.pairwise_append]
    exact ⟨h.sorted, List.pairwise_singleton _ _, fun a ha b hb => by
      rw [List.mem_singleton.mp hb]
      exact hmax a ha⟩

/-- A log that changed by an accepted append keeps every prefix it shares with the leader. -/
theorem Accepts.take_prefix {L old new : List E} {m : ℕ} (h : Accepts L m old new) :
    L.take (m + 1) <+: new := by
  rcases h with ⟨hp, rfl⟩ | ⟨-, rfl⟩
  · exact hp
  · exact List.prefix_rfl

theorem Accepts.keeps {L old new p : List E} {m : ℕ} (h : Accepts L m old new)
    (hold : p <+: old) (hL : p <+: L) : p <+: new := by
  rcases h with ⟨-, rfl⟩ | ⟨hn, rfl⟩
  · exact hold
  · rcases List.prefix_or_prefix_of_prefix hL (List.take_prefix (m + 1) L) with h1 | h1
    · exact h1
    · exact absurd (h1.trans hold) hn

theorem Inv.led_unique (h : Inv S s) {t : ℕ} {c c' : N} {L : List E} {Q : Finset N}
    (hQ : S.Majority Q) (hv : ∀ q ∈ Q, ∃ ℓ, s.vote q t = some (c, ℓ))
    (hl : s.led t = some (c', L)) : c' = c := by
  obtain ⟨-, -, -, Q', hQ', hv'⟩ := h.led_ok t c' L hl
  obtain ⟨q, hq, hq'⟩ := hQ.inter hQ'
  obtain ⟨ℓ, h1⟩ := hv q hq
  obtain ⟨ℓ', h2, -⟩ := hv' q hq'
  rw [h1] at h2
  exact (Prod.mk.inj (Option.some.inj h2)).1.symm

theorem Kept.of_initial {q : N} {t b : ℕ} {ℓ ℓ' : List E} (h : Kept S s q t ℓ b) (hp : ℓ <+: ℓ') :
    Kept S s q t ℓ' b := by
  intro u m c L i hu ha hl hi ht
  exact (h u m c L i hu ha hl hi ht).imp_left fun h1 => h1.trans hp

/-- The confirmations of the current term are added to those of the terms before it. -/
theorem Kept.succ {q : N} {t b : ℕ} {ℓ : List E} (h : Kept S s q t ℓ b)
    (hnow : ∀ m c L i, s.acked q t m → s.led t = some (c, L) → i ≤ m →
      (L[i]?.map S.term) = some t → L.take (i + 1) <+: ℓ) : Kept S s q (t + 1) ℓ b := by
  intro u m c L i hu ha hl hi ht
  rcases Nat.lt_succ_iff_lt_or_eq.mp hu with hlt | rfl
  · exact h u m c L i hlt ha hl hi ht
  · exact Or.inl (hnow m c L i ha hl hi ht)

variable [DecidableEq N]

theorem Step.extends (h : Step S s s') (hinv : Inv S s) : Extends s s' := by
  cases h with
  | advance n t hlt => exact ⟨fun _ _ L h => ⟨L, h, List.prefix_rfl⟩, fun _ _ _ h => h,
      fun _ _ _ h => h, fun _ _ _ h => h⟩
  | stand n hn =>
    refine ⟨fun _ _ L h => ⟨L, h, List.prefix_rfl⟩, ?_, ?_, fun _ _ _ h => h⟩
    · intro c t ℓ hs
      -- what is recorded is of an earlier term than the one the node stands in
      have ht := (hinv.stood_ok c t ℓ hs).1
      by_cases hc : c = n
      · subst hc
        exact (set2_of_right (by omega)).trans hs
      · exact (set2_of_left hc).trans hs
    · rintro q t ⟨c, ℓ⟩ hv
      have ht := (hinv.vote_ok q t c ℓ hv).2.1
      by_cases hc : q = n
      · subst hc
        exact (set2_of_right (by omega)).trans hv
      · exact (set2_of_left hc).trans hv
  | grant q c ℓ hq hv hs hu =>
    refine ⟨fun _ _ L h => ⟨L, h, List.prefix_rfl⟩, fun _ _ _ h => h, ?_, fun _ _ _ h => h⟩
    intro q' t v hv'
    by_cases hc : q' = q ∧ t = s.term q
    · obtain ⟨rfl, rfl⟩ := hc
      -- nobody votes twice in a term
      rw [hv] at hv'
      cases hv'
    · simpa [State.grant, set2, hc] using hv'
  | elect c Q hs hQ hv hn hc =>
    refine ⟨?_, fun _ _ _ h => h, fun _ _ _ h => h, fun _ _ _ h => Or.inl h⟩
    intro t c' L hl
    have hne : t ≠ s.term c := by
      rintro rfl
      rw [hn] at hl
      cases hl
    exact ⟨L, (State.elect_led_of_ne hne).trans hl, List.prefix_rfl⟩
  | propose c e hl he hc =>
    refine ⟨?_, fun _ _ _ h => h, fun _ _ _ h => h, fun _ _ _ h => Or.inl h⟩
    intro t c' L hl'
    by_cases hne : t = s.term c
    · subst hne
      rw [hl] at hl'
      obtain ⟨rfl, rfl⟩ := Prod.mk.inj (Option.some.inj hl')
      exact ⟨s.log c ++ [e], State.propose_led, List.prefix_append _ _⟩
    · exact ⟨L, (State.propose_led_of_ne hne).trans hl', List.prefix_rfl⟩
  | accept q c L m ℓ hq hl hm hc hℓ =>
    exact ⟨fun _ _ L h => ⟨L, h, List.prefix_rfl⟩, fun _ _ _ h => h, fun _ _ _ h => h,
      fun _ _ _ h => Or.inl h⟩

theorem Step.term_le (h : Step S s s') (n : N) : s.term n ≤ s'.term n := by
  cases h with
  | advance m t hlt =>
    by_cases hn : n = m
    · subst hn
      simpa using hlt.le
    · exact (State.advance_term_of_ne hn).ge
  | stand m hm =>
    by_cases hn : n = m
    · subst hn
      simp
    · exact (State.stand_term_of_ne hn).ge
  | grant => exact le_rfl
  | elect => exact le_rfl
  | propose => exact le_rfl
  | accept => exact le_rfl

theorem Step.acked_old (h : Step S s s') {q : N} {u m : ℕ} (hu : u < s.term q)
    (ha : s'.acked q u m) : s.acked q u m := by
  cases h with
  | advance => exact ha
  | stand => exact ha
  | grant => exact ha
  | elect c =>
    rcases ha with ha | ⟨rfl, rfl, -⟩
    · exact ha
    · exact absurd hu (lt_irrefl _)
  | propose c =>
    rcases ha with ha | ⟨rfl, rfl, -⟩
    · exact ha
    · exact absurd hu (lt_irrefl _)
  | accept q' =>
    rcases ha with ha | ⟨rfl, rfl, -⟩
    · exact ha
    · exact absurd hu (lt_irrefl _)

section Transfer
variable (h : Step S s s') (hinv : Inv S s)
include h hinv

/-! What the invariant says of the history so far, after one more event. -/

theorem Step.keep_vote {q : N} {t : ℕ} {c : N} {ℓ : List E} (hv : s.vote q t = some (c, ℓ)) :
    q ∈ S.members ∧ t ≤ s'.term q ∧ LogOk S s' ℓ ∧
      (∃ ℓ', s'.stood c t = some ℓ' ∧ S.UpToDate ℓ' ℓ) ∧ Kept S s' q t ℓ (t + 1) := by
  have hx := h.extends hinv
  obtain ⟨hq, ht, hok, ⟨ℓ', hs, hu⟩, hk⟩ := hinv.vote_ok q t c ℓ hv
  exact ⟨hq, ht.trans (h.term_le q), hok.mono hx, ⟨ℓ', hx.stood _ _ _ hs, hu⟩,
    hk.mono hx hinv le_rfl fun u m hu ha => ⟨hu, h.acked_old (hu.trans_le ht) ha⟩⟩

theorem Step.keep_stood {c : N} {t : ℕ} {ℓ : List E} (hs : s.stood c t = some ℓ) :
    t ≤ s'.term c ∧ LogOk S s' ℓ ∧ ∀ e ∈ ℓ, S.term e < t := by
  obtain ⟨ht, hok, hb⟩ := hinv.stood_ok c t ℓ hs
  exact ⟨ht.trans (h.term_le c), hok.mono (h.extends hinv), hb⟩

theorem Step.keep_led {t : ℕ} {c : N} {L : List E} (hl : s.led t = some (c, L)) :
    (∃ ℓ, s'.stood c t = some ℓ ∧ ℓ <+: L) ∧ LogOk S s' L ∧ (∀ e ∈ L, S.term e ≤ t) ∧
      Elected S s' c t := by
  have hx := h.extends hinv
  obtain ⟨⟨ℓ, hs, hp⟩, hok, hb, he⟩ := hinv.led_ok t c L hl
  exact ⟨⟨ℓ, hx.stood _ _ _ hs, hp⟩, hok.mono hx, hb,
    he.mono hx hinv fun q u m hu ha => h.acked_old hu ha⟩

theorem Step.keep_acked {q : N} {t m : ℕ} (ha : s.acked q t m) :
    q ∈ S.members ∧ t ≤ s'.term q ∧ ∃ c L, s'.led t = some (c, L) ∧ m < L.length := by
  obtain ⟨hq, ht, c, L, hl, hm⟩ := hinv.acked_ok q t m ha
  obtain ⟨L', hl', hp⟩ := (h.extends hinv).led _ _ _ hl
  exact ⟨hq, ht.trans (h.term_le q), c, L', hl', hm.trans_le hp.length_le⟩

theorem Step.keep_log {n : N} (hlog : s'.log n = s.log n)
    (hacked : ∀ u m, s'.acked n u m → s.acked n u m) :
    LogOk S s' (s'.log n) ∧ (∀ e ∈ s'.log n, S.term e ≤ s'.term n) ∧
      Kept S s' n (s'.term n + 1) (s'.log n) (s'.term n + 1) := by
  have hx := h.extends hinv
  have ht := h.term_le n
  obtain ⟨hok, hb, hk⟩ := hinv.log_ok n
  rw [hlog]
  refine ⟨hok.mono hx, fun e he => (hb e he).trans ht, hk.mono hx hinv (by omega) ?_⟩
  intro u m _ ha
  have ha0 := hacked u m ha
  exact ⟨Nat.lt_succ_of_le (hinv.acked_ok n u m ha0).2.1, ha0⟩

end Transfer

theorem Inv.advance {n : N} {t : ℕ} (hinv : Inv S s) (hlt : s.term n < t) :
    Inv S (s.advance n t) := by
  have h := Step.advance (S := S) s n t hlt
  exact ⟨fun _ _ _ _ hv => h.keep_vote hinv hv, fun _ _ _ hs => h.keep_stood hinv hs,
    fun _ _ _ hl => h.keep_led hinv hl, fun n => h.keep_log hinv rfl fun _ _ ha => ha,
    fun _ _ _ ha => h.keep_acked hinv ha⟩

theorem Inv.stand {n : N} (hinv : Inv S s) (hn : n ∈ S.members) : Inv S (s.stand n) := by
  have h := Step.stand (S := S) s n hn
  have hx := h.extends hinv
  obtain ⟨hok, hb, hk⟩ := hinv.log_ok n
  refine ⟨?_, ?_, fun _ _ _ hl => h.keep_led hinv hl, fun m => h.keep_log hinv rfl fun _ _ ha => ha,
    fun _ _ _ ha => h.keep_acked hinv ha⟩
  · intro q t c ℓ hv
    by_cases hc : q = n ∧ t = s.term n + 1
    · obtain ⟨rfl, rfl⟩ := hc
      obtain ⟨rfl, rfl⟩ := Prod.mk.inj (Option.some.inj ((set2_self).symm.trans hv))
      exact ⟨hn, by simp, hok.mono hx, ⟨s.log q, set2_self, Or.inr ⟨rfl, le_rfl⟩⟩,
        hk.mono hx hinv (by omega) fun u m hu ha => ⟨hu, ha⟩⟩
    · exact h.keep_vote hinv (by simpa [State.stand, set2, hc] using hv)
  · intro c t ℓ hs
    by_cases hc : c = n ∧ t = s.term n + 1
    · obtain ⟨rfl, rfl⟩ := hc
      obtain rfl := Option.some.inj ((set2_self).symm.trans hs)
      exact ⟨by simp, hok.mono hx, fun e he => Nat.lt_succ_of_le (hb e he)⟩
    · exact h.keep_stood hinv (by simpa [State.stand, set2, hc] using hs)

theorem Inv.grant {q c : N} {ℓ : List E} (hinv : Inv S s) (hq : q ∈ S.members)
    (hv : s.vote q (s.term q) = none) (hs : s.stood c (s.term q) = some ℓ)
    (hu : S.UpToDate ℓ (s.log q)) : Inv S (s.grant q c) := by
  have h := Step.grant (S := S) s q c ℓ hq hv hs hu
  have hx := h.extends hinv
  obtain ⟨hok, -, hk⟩ := hinv.log_ok q
  refine ⟨?_, fun _ _ _ hs => h.keep_stood hinv hs, fun _ _ _ hl => h.keep_led hinv hl,
    fun m => h.keep_log hinv rfl fun _ _ ha => ha, fun _ _ _ ha => h.keep_acked hinv ha⟩
  intro q' t c' ℓ' hv'
  by_cases hc : q' = q ∧ t = s.term q
  · obtain ⟨rfl, rfl⟩ := hc
    obtain ⟨rfl, rfl⟩ := Prod.mk.inj (Option.some.inj ((set2_self).symm.trans hv'))
    exact ⟨hq, le_rfl, hok.mono hx, ⟨ℓ, hs, hu⟩,
      hk.mono hx hinv le_rfl fun u m hu ha => ⟨by omega, ha⟩⟩
  · exact h.keep_vote hinv (by simpa [State.grant, set2, hc] using hv')

theorem Inv.elect {c : N} {Q : Finset N} (hinv : Inv S s)
    (hs : s.stood c (s.term c) = some (s.log c)) (hQ : S.Majority Q)
    (hv : ∀ q ∈ Q, ∃ ℓ, s.vote q (s.term c) = some (c, ℓ)) (hn : s.led (s.term c) = none)
    (hc : c ∈ S.members) : Inv S (s.elect c) := by
  have h := Step.elect (S := S) s c Q hs hQ hv hn hc
  have hx := h.extends hinv
  obtain ⟨hok, hb, hk⟩ := hinv.log_ok c
  refine ⟨fun _ _ _ _ hv => h.keep_vote hinv hv, fun _ _ _ hs => h.keep_stood hinv hs, ?_, ?_, ?_⟩
  · intro t c' L hl
    by_cases ht : t = s.term c
    · subst ht
      obtain ⟨rfl, rfl⟩ := Prod.mk.inj (Option.some.inj (State.elect_led.symm.trans hl))
      refine ⟨⟨s.log c, hs, List.prefix_rfl⟩, hok.mono hx, hb, Q, hQ, fun q hq => ?_⟩
      obtain ⟨ℓ, hvote⟩ := hv q hq
      obtain ⟨-, hqt, -, -, hkq⟩ := hinv.vote_ok q _ c ℓ hvote
      -- nobody led this term when the vote was cast, so what a voter lost it lost earlier
      have hk' : Kept S s q (s.term c) ℓ (s.term c) := by
        intro u m c' L i hu ha hl hi ht
        rcases hkq u m c' L i hu ha hl hi ht with h1 | ⟨v, hv1, hv2, hv3⟩
        · exact Or.inl h1
        · have hne : v ≠ s.term c := by
            rintro rfl
            obtain ⟨c'', L'', -, hl'', -⟩ := hv3
            rw [hn] at hl''
            cases hl''
          exact Or.inr ⟨v, hv1, by omega, hv3⟩
      exact ⟨ℓ, hvote, hk'.mono hx hinv le_rfl
        fun u m hu ha => ⟨hu, h.acked_old (hu.trans_le hqt) ha⟩⟩
    · exact h.keep_led hinv ((State.elect_led_of_ne ht).symm.trans hl)
  · intro n
    by_cases hnc : n = c
    · subst hnc
      refine ⟨hok.mono hx, hb, Kept.succ (t := s.term n) ?_ ?_⟩
      · exact hk.mono hx hinv le_rfl fun u m hu ha => ⟨by omega, h.acked_old hu ha⟩
      · intro m c' L i _ hl _ _
        obtain ⟨-, rfl⟩ := Prod.mk.inj (Option.some.inj (State.elect_led.symm.trans hl))
        exact List.take_prefix _ _
    · refine h.keep_log hinv rfl fun u m ha => ?_
      rcases ha with ha | ⟨rfl, -⟩
      · exact ha
      · exact absurd rfl hnc
  · intro q t m ha
    rcases ha with ha | ⟨rfl, rfl, rfl⟩
    · exact h.keep_acked hinv ha
    · exact ⟨hc, le_rfl, q, s.log q, State.elect_led, by
        have := hok.length_pos
        omega⟩

theorem Inv.propose {c : N} {e : E} (hinv : Inv S s) (hl : s.led (s.term c) = some (c, s.log c))
    (he : S.term e = s.term c) (hc : c ∈ S.members) : Inv S (s.propose c e) := by
  have h := Step.propose (S := S) s c e hl he hc
  have hx := h.extends hinv
  obtain ⟨hok, hb, hk⟩ := hinv.log_ok c
  have hmax : ∀ x ∈ s.log c, S.term x ≤ S.term e := fun x hxm => he ▸ hb x hxm
  have hnew := (hok.mono hx).append hmax (c := c) (by rw [he]; exact State.propose_led)
  have hbound : ∀ x ∈ s.log c ++ [e], S.term x ≤ s.term c := by
    intro x hxm
    rcases List.mem_append.mp hxm with h1 | h1
    · exact hb x h1
    · rw [List.mem_singleton.mp h1, he]
  refine ⟨fun _ _ _ _ hv => h.keep_vote hinv hv, fun _ _ _ hs => h.keep_stood hinv hs, ?_, ?_, ?_⟩
  · intro t c' L hl'
    by_cases ht : t = s.term c
    · subst ht
      -- the term of the leader: its log is one entry longer
      obtain ⟨rfl, rfl⟩ := Prod.mk.inj (Option.some.inj (State.propose_led.symm.trans hl'))
      obtain ⟨⟨ℓ, hs, hp⟩, -, -, hel⟩ := h.keep_led hinv hl
      exact ⟨⟨ℓ, hs, hp.trans (List.prefix_append _ _)⟩, hnew, hbound, hel⟩
    · exact h.keep_led hinv ((State.propose_led_of_ne ht).symm.trans hl')
  · intro n
    by_cases hnc : n = c
    · subst hnc
      rw [State.propose_log]
      refine ⟨hnew, hbound, Kept.succ (t := s.term n) ?_ ?_⟩
      · exact (hk.mono hx hinv le_rfl fun u m hu ha =>
          ⟨by omega, h.acked_old hu ha⟩).of_initial (List.prefix_append _ _)
      · intro m c' L i _ hl' _ _
        obtain ⟨-, rfl⟩ := Prod.mk.inj (Option.some.inj (State.propose_led.symm.trans hl'))
        exact List.take_prefix _ _
    · refine h.keep_log hinv (State.propose_log_of_ne hnc) fun u m ha => ?_
      rcases ha with ha | ⟨rfl, -⟩
      · exact ha
      · exact absurd rfl hnc
  · intro q t m ha
    rcases ha with ha | ⟨rfl, rfl, rfl⟩
    · exact h.keep_acked hinv ha
    · exact ⟨hc, le_rfl, q, s.log q ++ [e], State.propose_led, by simp⟩

theorem Inv.accept {q c : N} {L ℓ : List E} {m : ℕ} (hinv : Inv S s) (hq : q ∈ S.members)
    (hl : s.led (s.term q) = some (c, L)) (hm : m < L.length) (hc : q ≠ c)
    (hℓ : Accepts L m (s.log q) ℓ) : Inv S (s.accept q m ℓ) := by
  have h := Step.accept (S := S) s q c L m ℓ hq hl hm hc hℓ
  have hx := h.extends hinv
  obtain ⟨hok, hb, hk⟩ := hinv.log_ok q
  obtain ⟨⟨ℓ₀, hs, hp₀⟩, hokL, hbL, -⟩ := hinv.led_ok _ _ _ hl
  refine ⟨fun _ _ _ _ hv => h.keep_vote hinv hv, fun _ _ _ hs => h.keep_stood hinv hs,
    fun _ _ _ hl => h.keep_led hinv hl, ?_, ?_⟩
  · intro n
    by_cases hnq : n = q
    · subst hnq
      rw [State.accept_log]
      refine ⟨?_, ?_, Kept.succ (t := s.term n) ?_ ?_⟩
      · rcases hℓ with ⟨-, rfl⟩ | ⟨-, rfl⟩
        · exact hok.mono hx
        · exact (hokL.of_initial (List.take_prefix _ _) (by
            rw [← List.length_pos_iff, List.length_take]
            omega)).mono hx
      · rcases hℓ with ⟨-, rfl⟩ | ⟨-, rfl⟩
        · exact hb
        · exact fun e he => hbL e (List.mem_of_mem_take he)
      · -- the leader either has what was confirmed, or was elected without it
        have hk' : Kept S s n (s.term n) ℓ (s.term n + 1) := by
          intro u m' c' L' i hu ha hl' hi ht
          rcases hk u m' c' L' i (by omega) ha hl' hi ht with h1 | h1
          · by_cases hL : L'.take (i + 1) <+: L
            · exact Or.inl (hℓ.keeps h1 hL)
            · exact Or.inr ⟨s.term n, hu, Nat.lt_succ_self _, c, L, ℓ₀, hl, hs,
                fun hp => hL (hp.trans hp₀)⟩
          · exact Or.inr h1
        exact hk'.mono hx hinv le_rfl fun u m' hu ha => ⟨hu, h.acked_old hu ha⟩
      · intro m' c' L' i ha hl' hi ht
        -- in the current term the leader's own log is what is confirmed
        obtain ⟨rfl, rfl⟩ := Prod.mk.inj (Option.some.inj (hl.symm.trans hl'))
        rcases ha with ha | ⟨-, -, rfl⟩
        · rcases hk _ m' c L i (Nat.lt_succ_self _) ha hl hi ht with h1 | ⟨v, h1, h2, -⟩
          · exact hℓ.keeps h1 (List.take_prefix _ _)
          · omega
        · have hsub : L.take (i + 1) <+: L.take (m' + 1) := List.take_prefix_take_left (by omega)
          rcases hℓ with ⟨h1, rfl⟩ | ⟨-, rfl⟩
          · exact hsub.trans h1
          · exact hsub
    · refine h.keep_log hinv (State.accept_log_of_ne hnq) fun u m' ha => ?_
      rcases ha with ha | ⟨rfl, -⟩
      · exact ha
      · exact absurd rfl hnq
  · intro q' t m' ha
    rcases ha with ha | ⟨rfl, rfl, rfl⟩
    · exact h.keep_acked hinv ha
    · exact ⟨hq, le_rfl, c, L, hl, hm⟩

theorem Step.inv (h : Step S s s') (hinv : Inv S s) : Inv S s' := by
  cases h with
  | advance n t hlt => exact hinv.advance hlt
  | stand n hn => exact hinv.stand hn
  | grant q c ℓ hq hv hs hu => exact hinv.grant hq hv hs hu
  | elect c Q hs hQ hv hn hc => exact hinv.elect hs hQ hv hn hc
  | propose c e hl he hc => exact hinv.propose hl he hc
  | accept q c L m ℓ hq hl hm hc hℓ => exact hinv.accept hq hl hm hc hℓ

end ReplicatedLog
