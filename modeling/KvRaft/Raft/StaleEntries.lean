import KvRaft.Raft.Safety

/-! What a follower has confirmed stays, however late, often or out of order the leader's AppendEntries of
that term arrive. -/

namespace KvRaft
open ReplicatedLog

section General
variable [FloatText] {D : Type} [Storage D] [Bincode]

/-- An answer of `q`, sent or waiting to be sent, that it holds the log of the leader of term `t` up to
index `m`. -/
def Cluster.Answered (c : Cluster D) (q : NodeId) (t m : Nat) : Prop :=
  ∃ dest, (dest, .appendEntriesResponse ⟨t, q, true, m⟩) ∈ c.network ∨
    ∃ j n, c.nodes j = some n ∧ (dest, .appendEntriesResponse ⟨t, q, true, m⟩) ∈ n.outbox

variable {M : Membership} {config : Config} {now : Instant} {as : List Action}

/-- Abstract states along a run, one for each of its beginnings. -/
structure Chronicle (D : Type) [Storage D] (M : Membership) (config : Config) (now : Instant) (as : List Action)
    (A : List Action → State NodeId LogEntry) : Prop where
  ok : ∀ p (c : Cluster D), p <+: as → Cluster.exec config (M.start config now) p = some c →
    ClusterOk M config c (A p) ∧ Held (A p)
  grows : ∀ p q (c : Cluster D), p <+: q → q <+: as → Cluster.exec config (M.start config now) q = some c →
    Extends (A p) (A q)

variable (D M config now) in
theorem exists_chronicle (has : ∀ x ∈ as, x.inMemory = true) : ∃ A, Chronicle D M config now as A := by
  induction as using List.reverseRecOn with
  | nil =>
    refine ⟨fun _ => State.init M.setting, fun p c hp hc => ?_, fun _ _ _ _ _ _ => Extends.refl _⟩
    obtain rfl := List.prefix_nil.mp hp
    obtain rfl := Option.some.inj hc
    exact ⟨.start M config now, .init⟩
  | append_singleton as x ih =>
    obtain ⟨A, hok, hgrows⟩ := ih fun y hy => has y (List.mem_append_left _ hy)
    cases hlast : Cluster.exec config (M.start config now : Cluster D) (as ++ [x]) with
    | none =>
      -- the run cannot take its last step, so it has no states but those before
      refine ⟨A, fun p c hp hc => ?_, fun p q c hpq hq hc => ?_⟩
      · rcases List.prefix_concat_iff.mp hp with rfl | hp
        · exact nomatch hlast.symm.trans hc
        · exact hok p c hp hc
      · rcases List.prefix_concat_iff.mp hq with rfl | hq
        · exact nomatch hlast.symm.trans hc
        · exact hgrows p q c hpq hq hc
    | some c' =>
      obtain ⟨c₁, hc₁, hs⟩ := (Cluster.exec_concat config).mp hlast
      obtain ⟨hok₁, hheld₁⟩ := hok as c₁ List.prefix_rfl hc₁
      obtain ⟨a', hrun, hok'⟩ := hok₁.step_run (has x (by simp)) hs
      have hheld' := Run.held hok₁.inv hheld₁ hrun
      have hx := (Run.inv hrun hok₁.inv).2
      have hshort : ∀ {p}, p <+: as → p ≠ as ++ [x] := by
        rintro p hp rfl
        have := hp.length_le
        simp at this
      -- the longer run is given the new abstract state, every shorter one keeps its own
      refine ⟨Function.update A (as ++ [x]) a', fun p c hp hc => ?_, fun p q c hpq hq hc => ?_⟩
      · rcases List.prefix_concat_iff.mp hp with rfl | hp
        · rw [Function.update_self]
          exact Option.some.inj (hlast.symm.trans hc) ▸ ⟨hok', hheld'⟩
        · rw [Function.update_of_ne (hshort hp)]
          exact hok p c hp hc
      · rcases List.prefix_concat_iff.mp hq with rfl | hq
        · rw [Function.update_self]
          rcases List.prefix_concat_iff.mp hpq with rfl | hp
          · rw [Function.update_self]
            exact Extends.refl _
          · rw [Function.update_of_ne (hshort hp)]
            exact (hgrows p as c₁ hp List.prefix_rfl hc₁).trans hx
        · rw [Function.update_of_ne (hshort hq), Function.update_of_ne (hshort (hpq.trans hq))]
          exact hgrows p q c hpq hq hc

section Confirmed
variable {A : List Action → State NodeId LogEntry} {p p' : List Action} {c c' : Cluster D} {q : NodeId} {t m : Nat}

omit [Bincode] in
theorem Cluster.Answered.acked {a : State NodeId LogEntry} (h : c.Answered q t m) (hc : ClusterOk M config c a) :
    a.acked q t m := by
  obtain ⟨dest, h | ⟨j, n, hn, h⟩⟩ := h
  · exact (hc.network _ h).2.2 rfl
  · exact ((hc.nodes j n hn).outbox _ h).2.2 rfl

theorem Chronicle.acked (hA : Chronicle D M config now as A) (h : c.Answered q t m)
    (hv : Cluster.VisitsInOrder config (M.start config now) as c c') :
    ∃ p, p <+: as ∧ Cluster.exec config (M.start config now) p = some c' ∧ (A p).acked q t m := by
  obtain ⟨before, between, after, rfl, hb, hb'⟩ := hv
  have hall : Cluster.exec config (M.start config now) (before ++ between) = some c' := by
    rw [Cluster.exec_append, hb, Option.bind_some, hb']
  have hpre : before ++ between <+: before ++ between ++ after := List.prefix_append _ _
  have hold := h.acked (hA.ok before c ((List.prefix_append _ _).trans hpre) hb).1
  exact ⟨_, hpre, hall, (hA.grows before _ c' (List.prefix_append _ _) hpre hall).acked _ _ _ hold⟩

/-- Where something is confirmed, the leader of the term has it, and always the same. -/
theorem Chronicle.led_take (hA : Chronicle D M config now as A) (hp : p <+: as) (hp' : p' <+: as)
    (hc : Cluster.exec config (M.start config now) p = some c)
    (hc' : Cluster.exec config (M.start config now) p' = some c') (hack : (A p).acked q t m)
    (hack' : (A p').acked q t m) {l l' : NodeId} {L L' : List LogEntry} (hl : (A p).led t = some (l, L))
    (hl' : (A p').led t = some (l', L')) : m < L.length ∧ L'.take (m + 1) = L.take (m + 1) := by
  have hlen : ∀ {p c L l}, p <+: as → Cluster.exec config (M.start config now : Cluster D) p = some c →
      (A p).acked q t m → (A p).led t = some (l, L) → m < L.length := by
    intro p c L l hp hc hack hl
    obtain ⟨-, -, l₀, L₀, hl₀, hm⟩ := (hA.ok p c hp hc).1.inv.acked_ok q t m hack
    obtain ⟨-, rfl⟩ := Prod.mk.inj (Option.some.inj (hl.symm.trans hl₀))
    exact hm
  refine ⟨hlen hp hc hack hl, ?_⟩
  rcases List.prefix_or_prefix_of_prefix hp hp' with hpp | hpp
  · obtain ⟨L₁, hl₁, hpre⟩ := (hA.grows p p' c' hpp hp' hc').led _ _ _ hl
    obtain ⟨-, rfl⟩ := Prod.mk.inj (Option.some.inj (hl'.symm.trans hl₁))
    exact prefix_take_eq hpre (hlen hp hc hack hl)
  · obtain ⟨L₁, hl₁, hpre⟩ := (hA.grows p' p c hpp hp hc).led _ _ _ hl'
    obtain ⟨-, rfl⟩ := Prod.mk.inj (Option.some.inj (hl.symm.trans hl₁))
    exact (prefix_take_eq hpre (hlen hp' hc' hack' hl')).symm

/-- The leader of the term, whenever it is seen, has no other entry there. -/
theorem Chronicle.led_getElem? (hA : Chronicle D M config now as A) (hp : p <+: as) (hp' : p' <+: as)
    (hc : Cluster.exec config (M.start config now) p = some c)
    (hc' : Cluster.exec config (M.start config now) p' = some c') (hack : (A p).acked q t m)
    {l l' : NodeId} {L L' : List LogEntry} (hl : (A p).led t = some (l, L)) (hl' : (A p').led t = some (l', L'))
    {i : Nat} (hi : i ≤ m) {e : LogEntry} (he : L'[i]? = some e) : L[i]? = some e := by
  rcases List.prefix_or_prefix_of_prefix hp hp' with hpp | hpp
  · have hack' : (A p').acked q t m := (hA.grows p p' c' hpp hp' hc').acked _ _ _ hack
    have hlt : i < m + 1 := Nat.lt_succ_of_le hi
    rw [← List.getElem?_take_of_lt hlt, ← (hA.led_take hp hp' hc hc' hack hack' hl hl').2,
      List.getElem?_take_of_lt hlt, he]
  · -- seen earlier, its log may still be shorter than what was confirmed
    obtain ⟨L₁, hl₁, hpre⟩ := (hA.grows p' p c hpp hp hc).led _ _ _ hl'
    obtain ⟨-, rfl⟩ := Prod.mk.inj (Option.some.inj (hl.symm.trans hl₁))
    exact (prefix_getElem? hpre (List.getElem?_eq_some_iff.mp he).1).trans he

theorem Chronicle.node_take (hA : Chronicle D M config now as A) (hp : p <+: as)
    (hc : Cluster.exec config (M.start config now) p = some c) (hack : (A p).acked q t m) {n : RaftNode D}
    (hn : c.nodes q = some n) (ht : n.currentTerm = t) :
    ∃ l L, (A p).led t = some (l, L) ∧ m < n.log.length ∧ n.log.take (m + 1) = L.take (m + 1) := by
  obtain ⟨hok, hheld⟩ := hA.ok p c hp hc
  have hnode := hok.nodes q n hn
  have hterm : (A p).term q = t := hnode.sim.term_eq.trans ht
  obtain ⟨-, -, l, L, hl, hm⟩ := hok.inv.acked_ok q t m hack
  have hpre := hheld q m l L (hterm ▸ hack) (hterm ▸ hl)
  rw [show (A p).log q = n.log from hnode.sim.log_eq] at hpre
  have hlen := hpre.length_le
  rw [List.length_take_of_le hm] at hlen
  refine ⟨l, L, hl, hlen, ?_⟩
  exact take_prefix_take_eq hpre hm

end Confirmed

/-- Once a follower has answered with success, nothing that arrives in that term takes back what it has
confirmed: its log has it in every later state, always the same, and as the leader has it. No state of that
leader, before or after the answer, has another entry there. -/
theorem stale_entries_harmless (M : Membership) (config : Config) (now : Instant) {as : List Action}
    (has : ∀ x ∈ as, x.inMemory = true) {c c' : Cluster D} {q : NodeId} {t m : Nat} (hans : c.Answered q t m)
    (hc' : Cluster.VisitsInOrder config (M.start config now) as c c') {n : RaftNode D}
    (hn : c'.nodes q = some n) (ht : n.currentTerm = t) :
    m < n.log.length ∧
    (∀ (b : Cluster D) n₁, Cluster.VisitsInOrder config (M.start config now) as c b → b.nodes q = some n₁ →
      n₁.currentTerm = t → n.log.take (m + 1) = n₁.log.take (m + 1)) ∧
    (∀ (b : Cluster D) l k, Cluster.VisitsInOrder config (M.start config now) as c b → b.nodes l = some k →
      k.role = .leader → k.currentTerm = t → ∀ i ≤ m, n.log[i]? = k.log[i]?) ∧
    ∀ (b : Cluster D) l k, Cluster.Visits config (M.start config now) as b → b.nodes l = some k →
      k.role = .leader → k.currentTerm = t → ∀ i ≤ m, ∀ e, k.log[i]? = some e → n.log[i]? = some e := by
  obtain ⟨A, hA⟩ := exists_chronicle D M config now has
  obtain ⟨p, hp, hexec, hack⟩ := hA.acked hans hc'
  obtain ⟨l, L, hl, hlen, htake⟩ := hA.node_take hp hexec hack hn ht
  have hled : ∀ {p' : List Action} {b : Cluster D} {l' : NodeId} {k : RaftNode D}, p' <+: as →
      Cluster.exec config (M.start config now) p' = some b → b.nodes l' = some k → k.role = .leader →
      k.currentTerm = t → (A p').led t = some (l', k.log) := by
    intro p' b l' k hp' hexec' hk hr htk
    exact htk ▸ (((hA.ok p' b hp' hexec').1.nodes l' k hk).sim.leader hr).1
  refine ⟨hlen, fun b n₁ hb hn₁ ht₁ => ?_, fun b l' k hb hk hr htk i hi => ?_,
    fun b l' k hb hk hr htk i hi e he => ?_⟩
  · obtain ⟨p', hp', hexec', hack'⟩ := hA.acked hans hb
    obtain ⟨l', L', hl', -, htake'⟩ := hA.node_take hp' hexec' hack' hn₁ ht₁
    rw [htake, htake', (hA.led_take hp hp' hexec hexec' hack hack' hl hl').2]
  · obtain ⟨p', hp', hexec', hack'⟩ := hA.acked hans hb
    have hl' : (A p').led t = some (l', k.log) := hled hp' hexec' hk hr htk
    have heq : k.log.take (m + 1) = n.log.take (m + 1) :=
      (hA.led_take hp hp' hexec hexec' hack hack' hl hl').2.trans htake.symm
    have hlt : i < m + 1 := Nat.lt_succ_of_le hi
    rw [← List.getElem?_take_of_lt hlt, ← List.getElem?_take_of_lt (l := k.log) hlt, heq]
  · obtain ⟨p', after, rfl, hexec'⟩ := hb
    have hp' : p' <+: p' ++ after := List.prefix_append _ _
    have hlt : i < m + 1 := Nat.lt_succ_of_le hi
    have hL : L[i]? = some e := hA.led_getElem? hp hp' hexec hexec' hack hl (hled hp' hexec' hk hr htk) hi he
    rw [← List.getElem?_take_of_lt hlt, htake, List.getElem?_take_of_lt hlt, hL]

end General

section Concrete
open scoped Concrete

/-- The leader's first, empty AppendEntries arrives at node 2 after the one that brought an entry. -/
theorem stale_entries_harmless_heartbeat : ∃ (c c' : Cluster Database) (n k : RaftNode Database),
    Cluster.exec .default (Membership.three.start .default ⟨0, 0⟩) (firstCommit ⟨0, 0⟩) = some c ∧
    Cluster.exec .default c [.process 2 (.message (.appendEntries ⟨1, 1, 0, 0, [], 0⟩)) ⟨0, 0⟩] = some c' ∧
    c.Answered 2 1 1 ∧ c'.nodes 2 = some n ∧ c'.nodes 1 = some k ∧ 1 < n.log.length ∧ n.log[1]? = k.log[1]? := by
  have hrun : ((Cluster.exec .default (Membership.three.start .default ⟨0, 0⟩ : Cluster Database)
      (firstCommit ⟨0, 0⟩)).bind fun c =>
        (Cluster.exec .default c [.process 2 (.message (.appendEntries ⟨1, 1, 0, 0, [], 0⟩)) ⟨0, 0⟩]).bind fun c' =>
          (c'.nodes 2).bind fun n => (c'.nodes 1).map fun k =>
            (decide ((1, .appendEntriesResponse ⟨1, 2, true, 1⟩) ∈ c.network), n.currentTerm, k.role, k.currentTerm)) =
      some (true, 1, .leader, 1) := by
    decide +kernel
  obtain ⟨c, hc, hrun⟩ := Option.bind_eq_some_iff.mp hrun
  obtain ⟨c', hc', hrun⟩ := Option.bind_eq_some_iff.mp hrun
  obtain ⟨n, hn, hrun⟩ := Option.bind_eq_some_iff.mp hrun
  obtain ⟨k, hk, hrun⟩ := Option.map_eq_some_iff.mp hrun
  simp only [Prod.mk.injEq, decide_eq_true_eq] at hrun
  obtain ⟨hsent, hnt, hr, hkt⟩ := hrun
  have hans : c.Answered 2 1 1 := ⟨1, Or.inl hsent⟩
  have horder : Cluster.VisitsInOrder .default (Membership.three.start .default ⟨0, 0⟩) (firstCommit ⟨0, 0⟩ ++
      [.process 2 (.message (.appendEntries ⟨1, 1, 0, 0, [], 0⟩)) ⟨0, 0⟩]) c c' :=
    ⟨_, _, [], (List.append_nil _).symm, hc, hc'⟩
  obtain ⟨hlen, -, hlead, -⟩ := stale_entries_harmless Membership.three .default ⟨0, 0⟩ (by decide) hans horder hn hnt
  exact ⟨c, c', n, k, hc, hc', hans, hn, hk, hlen, hlead c' 1 k horder hk hr hkt 1 le_rfl⟩

end Concrete
end KvRaft
