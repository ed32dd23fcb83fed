import KvRaft.Raft.Tracking
import KvRaft.Raft.BincodeFormat
import KvRaft.Raft.MembershipElections
import KvRaft.Lsm.Faults

/-! Whole runs with membership changes: no handler panics as long as leaders hear from their current
peers only. -/

namespace KvRaft
open RaftNode hiding id

section General
variable {D : Type} [Storage D]

def Action.response : Action → Option (NodeId × AppendEntriesResponse)
  | .process id (.message (.appendEntriesResponse r)) _ => some (id, r)
  | _ => none

namespace Cluster

/-- A response of its own term that a leader is given comes from one of its peers. -/
def PeerResponses (c : Cluster D) (x : Action) : Prop :=
  ∀ p ∈ x.response, ∀ n ∈ c.nodes p.1, n.role = .leader → p.2.term = n.currentTerm → p.2.followerId ∈ n.peers

instance (c : Cluster D) (x : Action) : Decidable (c.PeerResponses x) :=
  inferInstanceAs (Decidable (∀ p ∈ x.response, _))

def Backed (c : Cluster D) : Envelope → Prop
  | (_, .appendEntries ae) =>
    ∃ n, c.nodes ae.leaderId = some n ∧ n.Backs ae.term (ae.prevLogIndex + ae.entries.length)
  | (dest, .appendEntriesResponse r) =>
    r.success = true → ∃ n, c.nodes dest = some n ∧ n.Backs r.term r.matchIndex
  | _ => True

structure Sound (c : Cluster D) : Prop where
  nodes : ∀ id n, c.nodes id = some n → n.id = id ∧ n.Steady ∧ ∀ e ∈ n.outbox, c.Backed e
  network : ∀ e ∈ c.network, c.Backed e

end Cluster

section Runs
variable {config : Config} {c c' : Cluster D} {id : NodeId} {n n' : RaftNode D} {input : Input}

theorem Cluster.Backed.mono {e : Envelope} (h : c.Backed e)
    (hc : ∀ i n t k, c.nodes i = some n → n.Backs t k → ∃ n', c'.nodes i = some n' ∧ n'.Backs t k) :
    c'.Backed e := by
  obtain ⟨dest, m⟩ := e
  cases m with
  | appendEntries ae =>
    obtain ⟨n, hn, hb⟩ := h
    exact hc _ n _ _ hn hb
  | appendEntriesResponse r =>
    intro hok
    obtain ⟨n, hn, hb⟩ := h hok
    exact hc _ n _ _ hn hb
  | _ => trivial

theorem Cluster.Backed.setNode {e : Envelope} (h : c.Backed e) (hn : c.nodes id = some n)
    (hb : ∀ t k, n.Backs t k → n'.Backs t k) : (c.setNode id n').Backed e := by
  refine h.mono fun i m t k hm hk => ?_
  by_cases hi : i = id
  · subst hi
    obtain rfl := Option.some.inj (hn.symm.trans hm)
    exact ⟨n', setNode_self .., hb t k hk⟩
  · exact ⟨m, (setNode_of_ne c n' hi).trans hm, hk⟩

theorem Cluster.backed_of_sends {e : Envelope} (hid : n'.id = id)
    (hin : ∀ m, input = .message m → (c.setNode id n').Backed (id, m)) (h : Sends input n' e) :
    (c.setNode id n').Backed e := by
  cases h with
  | appendEntries hl hb =>
    rw [hid] at hl
    exact ⟨n', hl ▸ setNode_self .., hb⟩
  | @accepted ae r hi ht hm =>
    intro hok
    obtain ⟨m, hm', hb⟩ := hin _ hi
    exact ⟨m, hm', by rw [ht, hm]; exact hb⟩
  | rejected hr => exact fun hok => absurd (hr.symm.trans hok) Bool.false_ne_true
  | @other dest m h =>
    cases m with
    | appendEntries => cases h
    | appendEntriesResponse => cases h
    | _ => trivial

namespace Cluster.Sound

theorem delivered (h : c.Sound) (hav : c.available id input = true) {m : Message} (hm : input = .message m) :
    c.Backed (id, m) := by
  subst hm
  rcases Bool.or_eq_true_iff.mp hav with hx | hmem
  · cases m with
    | appendEntries => cases hx
    | appendEntriesResponse => cases hx
    | _ => trivial
  · exact h.network _ (of_decide_eq_true hmem)

theorem goes [FloatText] [Bincode] (h : c.Sound) (hdb : Storage.NeverPanics D) (hn : c.nodes id = some n)
    (hav : c.available id input = true) {now : Instant} (hpeers : c.PeerResponses (.process id input now)) :
    Goes input n (n.process input now) := by
  refine process_goes now hdb (h.nodes id n hn).2.1 (fun r hr hrole hterm => ?_) fun r hr hok => ?_
  · subst hr
    exact hpeers (id, r) rfl n hn hrole hterm
  · obtain ⟨m, hm, hb⟩ := h.delivered hav hr hok
    obtain rfl := Option.some.inj (hn.symm.trans hm)
    exact hb

theorem setNode (h : c.Sound) (hn : c.nodes id = some n) (hsteady : n'.Steady) (ho : Onward input n n')
    (hav : c.available id input = true) : (c.setNode id n').Sound := by
  have hid : n'.id = id := ho.id_eq.trans (h.nodes id n hn).1
  refine ⟨fun i m hm => ?_, fun e he => (h.network e he).setNode hn ho.backs⟩
  rcases nodes_setNode hm with ⟨rfl, rfl⟩ | ⟨-, hm⟩
  · refine ⟨hid, hsteady, fun e he => ?_⟩
    rcases ho.sent e he with he | he
    · exact ((h.nodes i n hn).2.2 e he).setNode hn ho.backs
    · exact backed_of_sends hid (fun m hi => (h.delivered hav hi).setNode hn ho.backs) he
  · obtain ⟨hidm, hsm, hout⟩ := h.nodes i m hm
    exact ⟨hidm, hsm, fun e he => (hout e he).setNode hn ho.backs⟩

theorem newInDir_steady [FloatText] [Bincode] {peers : List NodeId} {now : Instant}
    (hr : RaftNode.newInDir Dir.empty id peers config now = some n) :
    n.id = id ∧ n.Steady ∧ n.outbox = [] := by
  obtain ⟨b, hb, hcore, hout⟩ := newInDir_empty (D := D) id peers config now
  obtain rfl := Option.some.inj (hb.symm.trans hr)
  have hlog : b.log = [sentinel] := congrArg Core.log hcore
  have hcommit : b.commitIndex = 0 := congrArg Core.commitIndex hcore
  have hrole : b.role = .follower := congrArg Core.role hcore
  have hnext : b.nextIndex = ∅ := by
    simp only [RaftNode.newInDir, Dir.empty, Storage.open_empty] at hb
    exact Option.some.inj hb ▸ rfl
  refine ⟨congrArg Core.id hcore, ⟨?_, fun hl => ?_, fun p hp => ?_⟩, hout⟩
  · rw [hcommit, hlog]
    exact Nat.one_pos
  · rw [hrole] at hl
    cases hl
  · rw [hnext] at hp
    exact absurd hp (AList.notMem_empty p)

theorem step [FloatText] [Bincode] (h : c.Sound) (hdb : Storage.NeverPanics D) {x : Action} (hx : x.running = true)
    (hpeers : c.PeerResponses x) (hs : Cluster.step config c x = some c') : c'.Sound := by
  cases x with
  | process id input now =>
    obtain ⟨n, hn, hav, n', hn', rfl⟩ := step_process.mp hs
    obtain ⟨b, hb, hsteady, ho⟩ := h.goes hdb hn hav hpeers
    obtain rfl := Option.some.inj (hb.symm.trans hn')
    exact h.setNode hn hsteady ho hav
  | restart id now =>
    obtain ⟨n, hn, rfl⟩ := step_restart.mp hs
    have ho : Onward .tick n (n.restart now) := .follower rfl le_rfl rfl fun e he => nomatch he
    have hsteady : (n.restart now).Steady :=
      ⟨(h.nodes id n hn).2.1.commit_lt, fun hr => (nomatch hr), fun p hp => absurd hp (AList.notMem_empty p)⟩
    exact h.setNode hn hsteady ho rfl
  | flush id =>
    obtain ⟨n, hn, rfl⟩ := step_flush.mp hs
    obtain ⟨-, hsteady, hout⟩ := h.nodes id n hn
    have ho : Onward .tick n { n with outbox := [] } := .same rfl rfl rfl le_rfl fun e he => nomatch he
    have hempty : ({ n with outbox := [] } : RaftNode D).Steady := hsteady.congr rfl rfl rfl rfl rfl fun hr => hr
    have hset := h.setNode hn hempty ho rfl
    refine ⟨hset.nodes, fun e he => ?_⟩
    rcases List.mem_append.mp he with he | he
    · exact hset.network e he
    · exact (hout e (List.mem_filter.mp he).1).setNode hn ho.backs
  | crash => cases hx
  | join id peers now =>
    obtain ⟨hnone, r, hr, rfl⟩ := step_join.mp hs
    obtain ⟨hid, hsteady, hout⟩ := newInDir_steady hr
    have hkeep : ∀ {e : Envelope}, c.Backed e →
        (({ c with boot := Function.update c.boot id peers } : Cluster D).setNode id r).Backed e := fun hb => by
      refine hb.mono fun i n t k hn hk => ⟨n, ?_, hk⟩
      have hne : i ≠ id := by
        rintro rfl
        rw [hnone] at hn
        cases hn
      rw [setNode_of_ne _ _ hne]
      exact hn
    refine ⟨fun i m hm => ?_, fun e he => hkeep (h.network e he)⟩
    rcases nodes_setNode hm with ⟨rfl, rfl⟩ | ⟨-, hm⟩
    · exact ⟨hid, hsteady, fun e he => by rw [hout] at he; cases he⟩
    · obtain ⟨hidm, hsm, houtm⟩ := h.nodes i m hm
      exact ⟨hidm, hsm, fun e he => hkeep (houtm e he)⟩

theorem start [FloatText] [Bincode] (M : Membership) (config : Config) (now : Instant) :
    (M.start config now : Cluster D).Sound := by
  refine ⟨fun id n hn => ?_, fun e he => nomatch he⟩
  change (if id ∈ M.members then _ else _) = _ at hn
  split_ifs at hn
  obtain ⟨hid, hsteady, hout⟩ := newInDir_steady hn
  exact ⟨hid, hsteady, fun e he => by rw [hout] at he; cases he⟩

theorem exec [FloatText] [Bincode] (h : c.Sound) (hdb : Storage.NeverPanics D) {as : List Action}
    (has : ∀ x ∈ as, x.running = true)
    (hpeers : Fold.Along (Cluster.step config) PeerResponses c as) (hs : Cluster.exec config c as = some c') :
    c'.Sound :=
  Fold.foldlM_along hs hpeers h fun _ x _ hx hQ hP hstep => hP.step hdb (has x hx) hQ hstep

end Cluster.Sound
end Runs
end General

section Database
variable [FloatText] [Xxh3] [BloomSizing] [Bincode]

/-- No panic: in every run in which the responses of its own term that a leader handles come from its
current peers, each leader has a usable `next_index` for each of its peers, and every handler of every
node ends normally on the next such input. -/
theorem no_node_panics (M : Membership) (config : Config) (now : Instant) {as : List Action}
    (has : ∀ x ∈ as, x.running = true)
    (hpeers : Fold.Along (Cluster.step config) Cluster.PeerResponses (M.start config now : Cluster Database) as)
    {c : Cluster Database} (hc : Cluster.exec config (M.start config now) as = some c) {id : NodeId}
    {n : RaftNode Database} (hn : c.nodes id = some n) :
    (n.role = .leader → ∀ p ∈ n.peers, ∃ k, n.nextIndex.lookup p = some k ∧ 1 ≤ k ∧ k ≤ n.log.length) ∧
    ∀ input now', c.available id input = true → c.PeerResponses (.process id input now') →
      ∃ n', n.process input now' = some n' := by
  have h := (Cluster.Sound.start M config now).exec database_never_panics has hpeers hc
  refine ⟨(h.nodes id n hn).2.1.tracked, fun input now' hav hnext => ?_⟩
  obtain ⟨n', hn', -⟩ := h.goes database_never_panics hn hav hnext
  exact ⟨n', hn'⟩

end Database

/-- Node 1 leads terms 1 and 2; an entry of term 1 has reached node 2 only, so node 3 refuses what the
leader of term 2 sends first. The refusal is still under way when node 3 is removed. -/
def removal [FloatText] (now : Instant) : List Action := [firstElection now,
  [.process 1 (.message (.clientCommand (.set "a" (.int 1)))) now, .flush 1,
    .process 2 (.message (.appendEntries
      ⟨1, 1, 0, 0, [⟨1, .command (LogRecord.new 0 (.set "a" (.int 1)))⟩], 0⟩)) now, .flush 2],
  [.process 1 (.message .timeout) now, .flush 1,
    .process 2 (.message (.requestVote ⟨2, 1, 1, 1⟩)) now, .flush 2,
    .process 1 (.message (.requestVoteResponse ⟨2, 2, true⟩)) now, .flush 1],
  [.process 3 (.message (.appendEntries ⟨2, 1, 1, 1, [], 0⟩)) now, .flush 3],
  [.process 1 (.message (.removeNode 3)) now, .flush 1,
    .process 2 (.message (.appendEntries ⟨2, 1, 1, 1, [⟨2, .removeNode 3⟩], 0⟩)) now, .flush 2,
    .process 1 (.message (.appendEntriesResponse ⟨2, 2, true, 2⟩)) now]].flatten

section Concrete
open scoped Concrete

theorem no_node_panics_removal : ∃ (c : Cluster Database) (n : RaftNode Database),
    Cluster.exec .default (Membership.three.start .default ⟨0, 0⟩) (removal ⟨0, 0⟩) = some c ∧
    c.nodes 1 = some n ∧ n.role = .leader ∧ n.peers = [2] ∧
    (∃ k, n.nextIndex.lookup 2 = some k ∧ 1 ≤ k ∧ k ≤ n.log.length) ∧
    ∃ n', n.process (.message (.appendEntriesResponse ⟨2, 2, true, 2⟩)) ⟨0, 0⟩ = some n' := by
  have hrun : ((Cluster.exec .default (Membership.three.start .default ⟨0, 0⟩ : Cluster Database)
      (removal ⟨0, 0⟩)).bind fun c => (c.nodes 1).map fun n => (n.role, n.peers,
        c.available 1 (.message (.appendEntriesResponse ⟨2, 2, true, 2⟩)))) = some (.leader, [2], true) := by
    decide +kernel
  obtain ⟨c, hc, hrun⟩ := Option.bind_eq_some_iff.mp hrun
  obtain ⟨n, hn, hrun⟩ := Option.map_eq_some_iff.mp hrun
  simp only [Prod.mk.injEq] at hrun
  obtain ⟨hrole, hpeers, hav⟩ := hrun
  have hpeer : c.PeerResponses (.process 1 (.message (.appendEntriesResponse ⟨2, 2, true, 2⟩)) ⟨0, 0⟩) := by
    intro p hp m hm _ _
    obtain rfl := Option.some.inj hp
    obtain rfl := Option.some.inj (hn.symm.trans hm)
    rw [hpeers]
    decide
  have hrunning : ∀ x ∈ removal ⟨0, 0⟩, x.running = true := by decide
  obtain ⟨htracked, hgoes⟩ := no_node_panics Membership.three .default ⟨0, 0⟩ hrunning (by decide +kernel) hc hn
  exact ⟨c, n, hc, hn, hrole, hpeers, htracked hrole 2 (by rw [hpeers]; decide), hgoes _ ⟨0, 0⟩ hav hpeer⟩

/-- The refusal of the removed node arrives. -/
theorem removed_peer_panics : ∃ (c : Cluster Database) (n : RaftNode Database),
    Cluster.exec .default (Membership.three.start .default ⟨0, 0⟩) (removal ⟨0, 0⟩) = some c ∧
    c.nodes 1 = some n ∧ c.available 1 (.message (.appendEntriesResponse ⟨2, 3, false, 0⟩)) = true ∧
    n.process (.message (.appendEntriesResponse ⟨2, 3, false, 0⟩)) ⟨0, 0⟩ = none := by
  have hrun : ((Cluster.exec .default (Membership.three.start .default ⟨0, 0⟩ : Cluster Database)
      (removal ⟨0, 0⟩)).bind fun c => (c.nodes 1).map fun n =>
        (c.available 1 (.message (.appendEntriesResponse ⟨2, 3, false, 0⟩)),
          (n.process (.message (.appendEntriesResponse ⟨2, 3, false, 0⟩)) ⟨0, 0⟩).isNone)) =
      some (true, true) := by
    decide +kernel
  obtain ⟨c, hc, hrun⟩ := Option.bind_eq_some_iff.mp hrun
  obtain ⟨n, hn, hrun⟩ := Option.map_eq_some_iff.mp hrun
  simp only [Prod.mk.injEq] at hrun
  exact ⟨c, n, hc, hn, hrun.1, Option.isNone_iff_eq_none.mp hrun.2⟩

end Concrete
end KvRaft
