import KvRaft.Raft.Panics
import KvRaft.Raft.StaleEntries

/-! A leader's `match_index` against the logs of its followers, whatever order the responses come in. -/

namespace KvRaft
open ReplicatedLog

section General
variable [FloatText] {D : Type} [Storage D] [Bincode]
variable {M : Membership} {config : Config} {a : State NodeId LogEntry} {c c' : Cluster D}

theorem ClusterOk.peerResponses (h : ClusterOk M config c a) {x : Action} (hx : x.inMemory = true)
    (hs : Cluster.step config c x = some c') : c.PeerResponses x := by
  rintro ⟨id, r⟩ hr n hn - -
  cases x with
  | process id' input now =>
    cases input with
    | message m =>
      cases m with
      | appendEntriesResponse r' =>
        obtain ⟨rfl, rfl⟩ := Prod.mk.inj (Option.some.inj hr)
        obtain ⟨n', hn', hav, -⟩ := Cluster.step_process.mp hs
        obtain ⟨hmem, hne, -⟩ := h.delivered hx hav rfl
        have hnode := h.nodes id' n hn
        rw [hnode.peers_eq, M.mem_peersOf id' hnode.mem]
        exact ⟨hmem, hne⟩
      | _ => cases hr
    | _ => cases hr
  | _ => cases hr

theorem sound_of_exec (hdb : Storage.NeverPanics D) (now : Instant) {as : List Action}
    (has : ∀ x ∈ as, x.inMemory = true) (hc : Cluster.exec config (M.start config now) as = some c) :
    c.Sound := by
  have hrunning : ∀ x : Action, x.inMemory = true → x.running = true := by
    intro x hx
    cases x with
    | crash => cases hx
    | _ => rfl
  suffices c.Sound ∧ ∃ a, ClusterOk M config c a from this.1
  apply Fold.foldlM_invariant hc ⟨.start M config now, _, .start M config now⟩
  rintro b x b' hx ⟨hsound, a, hok⟩ hstep
  obtain ⟨a', -, hok'⟩ := hok.step (has x hx) hstep
  exact ⟨hsound.step hdb (hrunning x (has x hx)) (hok.peerResponses (has x hx) hstep) hstep, a', hok'⟩

theorem Chronicle.matchIndex_take {now : Instant} {as p : List Action} {A : List Action → State NodeId LogEntry}
    (hA : Chronicle D M config now as A) (hp : p <+: as)
    (hc : Cluster.exec config (M.start config now) p = some c) {l q : NodeId} {n f : RaftNode D} {m : Nat}
    (hn : c.nodes l = some n) (hr : n.role = .leader) (hm : n.matchIndex.lookup q = some m)
    (hf : c.nodes q = some f) (ht : f.currentTerm = n.currentTerm) :
    f.log.take (m + 1) = n.log.take (m + 1) := by
  have hok := (hA.ok p c hp hc).1
  obtain ⟨hled, -, hmatch⟩ := (hok.nodes l n hn).sim.leader hr
  rcases hmatch q m hm with rfl | hack
  · -- nothing is known of the follower yet, and every log starts with the sentinel
    have hhead := (hok.nodes l n hn).logOk.head
    have hhead' := (hok.nodes q f hf).logOk.head
    rw [List.take_one, List.take_one, hhead, hhead']
  · obtain ⟨l', L, hled', -, htake⟩ := hA.node_take hp hc hack hf ht
    obtain ⟨-, rfl⟩ := Prod.mk.inj (Option.some.inj (hled.symm.trans hled'))
    exact htake

end General

section Database
variable [FloatText] [Xxh3] [BloomSizing] [Bincode]

/-- `match_index` is a sound lower bound: in every state of every run with fixed membership, what a leader
has recorded for a peer is within its log, the peer's `next_index` can be sent from, and a peer that is
still in the term has the leader's log up to the recorded index. -/
theorem match_index_sound (M : Membership) (config : Config) (now : Instant) {as : List Action}
    (has : ∀ x ∈ as, x.inMemory = true) {c : Cluster Database}
    (hc : Cluster.Visits config (M.start config now) as c) {l p : NodeId} {n : RaftNode Database} {m : Nat}
    (hn : c.nodes l = some n) (hr : n.role = .leader) (hm : n.matchIndex.lookup p = some m) :
    m < n.log.length ∧
    (∃ next, n.nextIndex.lookup p = some next ∧ 1 ≤ next ∧ next ≤ n.log.length) ∧
    ∀ f, c.nodes p = some f → f.currentTerm = n.currentTerm → ∀ i ≤ m, f.log[i]? = n.log[i]? := by
  obtain ⟨before, after, rfl, hexec⟩ := hc
  have hpre : before <+: before ++ after := List.prefix_append _ _
  have hbefore : ∀ x ∈ before, x.inMemory = true := fun x hx => has x (List.mem_append_left _ hx)
  obtain ⟨A, hA⟩ := exists_chronicle Database M config now has
  have hok := (hA.ok before c hpre hexec).1
  have hnode := hok.nodes l n hn
  refine ⟨?_, ?_, fun f hf ht i hi => ?_⟩
  · obtain ⟨hled, -, hmatch⟩ := hnode.sim.leader hr
    rcases hmatch p m hm with rfl | hack
    · exact hnode.logOk.length_pos
    · obtain ⟨-, -, l', L, hled', hlt⟩ := hok.inv.acked_ok p n.currentTerm m hack
      obtain ⟨-, rfl⟩ := Prod.mk.inj (Option.some.inj (hled.symm.trans hled'))
      exact hlt
  · have hsound := sound_of_exec database_never_panics now hbefore hexec
    have hkey : p ∈ n.matchIndex := AList.lookup_isSome.mp (by simp [hm])
    have hpeer : p ∈ n.peers := by
      rw [hnode.peers_eq]
      exact hnode.sim.tracked p hkey
    exact (hsound.nodes l n hn).2.1.tracked hr p hpeer
  · have htake := hA.matchIndex_take hpre hexec hn hr hm hf ht
    have hlt : i < m + 1 := Nat.lt_succ_of_le hi
    rw [← List.getElem?_take_of_lt hlt, ← List.getElem?_take_of_lt (l := n.log) hlt, htake]

end Database

section Concrete
open scoped Concrete

/-- Node 2 has confirmed the first entry of the leader. -/
theorem match_index_sound_first_commit : ∃ (c : Cluster Database) (n f : RaftNode Database),
    Cluster.exec .default (Membership.three.start .default ⟨0, 0⟩) (firstCommit ⟨0, 0⟩) = some c ∧
    c.nodes 1 = some n ∧ n.role = .leader ∧ n.matchIndex.lookup 2 = some 1 ∧ c.nodes 2 = some f ∧
    f.currentTerm = n.currentTerm ∧ 1 < n.log.length ∧
    (∃ next, n.nextIndex.lookup 2 = some next ∧ 1 ≤ next ∧ next ≤ n.log.length) ∧
    ∀ i ≤ 1, f.log[i]? = n.log[i]? := by
  have hrun : ((Cluster.exec .default (Membership.three.start .default ⟨0, 0⟩ : Cluster Database)
      (firstCommit ⟨0, 0⟩)).bind fun c => (c.nodes 1).bind fun n => (c.nodes 2).map fun f =>
        (n.role, n.matchIndex.lookup 2, decide (f.currentTerm = n.currentTerm))) =
      some (.leader, some 1, true) := by
    decide +kernel
  obtain ⟨c, hc, hrun⟩ := Option.bind_eq_some_iff.mp hrun
  obtain ⟨n, hn, hrun⟩ := Option.bind_eq_some_iff.mp hrun
  obtain ⟨f, hf, hrun⟩ := Option.map_eq_some_iff.mp hrun
  simp only [Prod.mk.injEq, decide_eq_true_eq] at hrun
  obtain ⟨hr, hm, ht⟩ := hrun
  have hfixed : ∀ x ∈ firstCommit ⟨0, 0⟩, x.inMemory = true := by decide
  obtain ⟨hlt, hnext, hlog⟩ := match_index_sound Membership.three .default ⟨0, 0⟩ hfixed
    ⟨_, [], (List.append_nil _).symm, hc⟩ hn hr hm
  exact ⟨c, n, f, hc, hn, hr, hm, hf, ht, hlt, hnext, hlog f hf ht⟩

end Concrete
end KvRaft
