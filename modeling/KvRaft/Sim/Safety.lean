import KvRaft.Sim.Steps
import KvRaft.Raft.Safety

/-! The simulator runs the abstract replicated log: whatever it does to the nodes and the messages, the check
of its invariants finds nothing. -/

namespace ReplicatedLog

theorem Committed.entry_eq {N E : Type} {S : Setting N E} {a : State N E} {b b' k : ℕ}
    {ℓ ℓ' : List E} (h : Committed S a b ℓ k) (hinv : Inv S a) (h' : Committed S a b' ℓ' k) (hok : LogOk S a ℓ)
    (hok' : LogOk S a ℓ') : ℓ[k]? = ℓ'[k]? := by
  rw [← List.getElem?_take_of_lt (Nat.lt_succ_self k), h.agree hinv h' hok hok' le_rfl,
    List.getElem?_take_of_lt (Nat.lt_succ_self k)]

end ReplicatedLog

namespace KvRaft.Simulator
open ReplicatedLog
open Relation (ReflTransGen)

section Safety
variable {D : Type} [Storage D]

structure SimOk [FloatText] (M : Membership) (config : Config) (m : Moment D) (a : State NodeId LogEntry) : Prop where
  inv : Inv M.setting a
  commands : CommandsOnly a
  nodes : ∀ id n, m.sim.nodes.lookup id = some n → NodeOk M config a id n
  inFlight : ∀ e ∈ m.inFlight, MsgOk M a e.envelope

namespace SimOk
variable [FloatText] {M : Membership} {config : Config} {a : State NodeId LogEntry} {m m' : Moment D}
  {s s' : Simulation D} {hand : Option Event} {id : NodeId} {event : Event}

/-- A step in which no node is called: outboxes may be emptied, and what is in flight was so before or comes
out of an outbox. -/
theorem silent (h : SimOk M config m a)
    (hnodes : ∀ j n', m'.sim.nodes.lookup j = some n' →
      ∃ n, m.sim.nodes.lookup j = some n ∧ n'.core = n.core ∧ ∀ e ∈ n'.outbox, e ∈ n.outbox)
    (hflight : ∀ e ∈ m'.inFlight, (∃ e₀ ∈ m.inFlight, e₀.envelope = e.envelope) ∨
      ∃ j n, m.sim.nodes.lookup j = some n ∧ e.envelope ∈ n.outbox) : SimOk M config m' a := by
  refine ⟨h.inv, h.commands, fun j n' hn' => ?_, fun e he => ?_⟩
  · obtain ⟨n, hn, hcore, hout⟩ := hnodes j n' hn'
    exact (h.nodes j n hn).silent hcore fun e he => .inl (hout e he)
  · rcases hflight e he with ⟨e₀, he₀, heq⟩ | ⟨j, n, hn, hout⟩
    · exact heq ▸ h.inFlight e₀ he₀
    · exact (h.nodes j n hn).outbox _ hout

theorem frame (h : SimOk M config m a) (hnodes : m'.sim.nodes = m.sim.nodes) (hflight : m'.inFlight ⊆ m.inFlight) :
    SimOk M config m' a := by
  apply h.silent
  · intro j n hn
    exact ⟨n, hnodes ▸ hn, rfl, fun e he => he⟩
  · exact fun e he => .inl ⟨e, hflight he, rfl⟩

theorem clearOutbox (h : SimOk M config ⟨s, hand⟩ a) (id : NodeId) : SimOk M config ⟨s.clearOutbox id, hand⟩ a := by
  apply h.silent
  · intro j n' hn'
    obtain ⟨n, hn, ⟨-, rfl⟩ | ⟨-, rfl⟩⟩ := Simulation.lookup_clearOutbox hn'
    · exact ⟨n, hn, rfl, fun e he => absurd he List.not_mem_nil⟩
    · exact ⟨_, hn, rfl, fun e he => he⟩
  · intro e he
    rw [Simulation.clearOutbox_frame_eq] at he
    exact .inl ⟨e, he, rfl⟩

theorem flushNodeOutbox [Platform] (h : SimOk M config ⟨s, hand⟩ a) (id : NodeId) :
    SimOk M config ⟨s.flushNodeOutbox id, hand⟩ a := by
  rcases s.flushNodeOutbox_cases id with ⟨-, heq⟩ | ⟨-, heq⟩ | ⟨n, hn, -, -, hsends⟩
  · exact heq ▸ h.clearOutbox id
  · exact heq.symm ▸ h
  · have hcleared := h.clearOutbox id
    obtain ⟨sent, hsent, -, hnew⟩ := hsends.events
    refine ⟨h.inv, h.commands, fun j n' hn' => ?_, fun e he => ?_⟩
    · rw [hsends.frame] at hn'
      exact hcleared.nodes j n' hn'
    · -- what is new comes out of the outbox of the node
      rw [hsends.frame] at he
      simp only [Moment.inFlight, Simulation.deferred, hsent, List.append_assoc] at he
      rcases List.mem_append.mp he with he | he
      · exact (h.nodes id n hn).outbox _ (hnew e he).2.1
      · refine hcleared.inFlight e ?_
        simpa only [Moment.inFlight, Simulation.deferred, List.append_assoc] using he

theorem setNode (h : SimOk M config ⟨s, hand⟩ a) {n : RaftNode D} (hn : Reaches M config a id n)
    (draws : Nat → Nat) :
    ∃ a', Run M.setting a a' ∧ SimOk M config ⟨{ s with nodes := s.nodes.insert id n, draws := draws }, hand⟩ a' := by
  obtain ⟨a', he, hok⟩ := hn
  refine ⟨a', he.run, hok.inv, hok.commands, fun j m hm => ?_, fun e hm => (h.inFlight e hm).mono he.hist⟩
  rcases Simulation.lookup_insert_cases hm with ⟨rfl, rfl⟩ | ⟨hj, hm⟩
  · exact hok
  · have hold := h.nodes j m hm
    exact ⟨hok.inv, hok.commands, hold.mem, hold.sim.frame he hj, fun e he' => (hold.outbox e he').mono he.hist⟩

theorem callNode [Platform] (h : SimOk M config ⟨s, hand⟩ a) {call : RaftNode D → Instant → Option (RaftNode D)}
    (hcall : ∀ n n' now, NodeOk M config a id n → call n now = some n' → Reaches M config a id n')
    (hs : s.callNode id call = some s') : ∃ a', Run M.setting a a' ∧ SimOk M config ⟨s', hand⟩ a' := by
  rcases Simulation.callNode_cases hs with ⟨-, rfl⟩ | ⟨n, n', hn, hn', rfl⟩
  · exact ⟨a, .refl, h⟩
  · obtain ⟨a', hrun, hok⟩ := h.setNode (hcall n n' _ (h.nodes id n hn) hn') fun k => s.draws (k + 1)
    exact ⟨a', hrun, hok.frame rfl fun e he => he⟩

theorem turn [Platform] (h : SimOk M config ⟨s, hand⟩ a) {call : RaftNode D → Instant → Option (RaftNode D)}
    (hcall : ∀ n n' now, NodeOk M config a id n → call n now = some n' → Reaches M config a id n')
    (hs : s.turn id call = some s') : ∃ a', Run M.setting a a' ∧ SimOk M config ⟨s', hand⟩ a' := by
  obtain ⟨s₁, hs₁, rfl⟩ := Option.map_eq_some_iff.mp hs
  obtain ⟨a', hrun, hok⟩ := h.callNode hcall hs₁
  exact ⟨a', hrun, hok.flushNodeOutbox id⟩

theorem resumeNode [Platform] (h : SimOk M config ⟨s, hand⟩ a) (id : NodeId) :
    SimOk M config ⟨s.resumeNode id, hand⟩ a := by
  rw [Simulation.resumeNode_eq]
  apply flushNodeOutbox
  apply h.silent
  · exact fun j n hn => ⟨n, hn, rfl, fun e he => he⟩
  · intro e he
    have hparcel := (inFlight_requeue s hand id).subset (List.mem_map_of_mem he)
    obtain ⟨e₀, he₀, heq⟩ := List.mem_map.mp hparcel
    exact .inl ⟨e₀, he₀, envelope_of_parcel heq⟩

theorem step [Bincode] [Platform] (h : SimOk M config m a) (hs : Step m m') :
    ∃ a', Run M.setting a a' ∧ SimOk M config m' a' := by
  have hrefl : ∀ {m' : Moment D}, SimOk M config m' a → ∃ a', Run M.setting a a' ∧ SimOk M config m' a' :=
    fun h' => ⟨a, .refl, h'⟩
  cases hs with
  | mark s hand mark => exact hrefl (h.frame rfl fun e he => he)
  | disable s hand id =>
    have hset : SimOk M config ⟨{ s with disabledNodes := insert id s.disabledNodes }, hand⟩ a :=
      h.frame rfl fun e he => he
    exact hrefl (hset.clearOutbox id)
  | enable s hand id => exact hrefl (h.frame rfl fun e he => he)
  | pause s hand id => exact hrefl (h.frame rfl fun e he => he)
  | resume s hand id => exact hrefl (h.resumeNode id)
  | @restart s s' hand id hs =>
    have hforget : SimOk M config ⟨{ s with
        pausedNodes := s.pausedNodes.erase id, pausedEvents := s.pausedEvents.erase id }, hand⟩ a :=
      h.frame rfl (inFlight_forget s hand id _).subset
    refine hforget.callNode (fun n n' now hn hn' => ?_) hs
    exact Option.some.inj hn' ▸ (hn.restart now).reaches
  | links s hand blocked => exact hrefl (h.frame rfl fun e he => he)
  | policy s hand link policy => exact hrefl (h.frame rfl fun e he => he)
  | schedule s hand triggerAt fault => exact hrefl (h.frame rfl fun e he => he)
  | unschedule hand hpop => exact hrefl (h.frame rfl fun e he => he)
  | elapse hand hlater => exact hrefl (h.frame rfl fun e he => he)
  | overflow s hand also => exact hrefl (h.frame rfl fun e he => he)
  | flush s hand id => exact hrefl (h.flushNodeOutbox id)
  | call hand call hs =>
    refine h.turn (fun n n' now hn hn' => ?_) hs
    cases call with
    | startElection => exact hn.startElection now hn'
    | tick =>
      have hprocess : n.process .tick now = some n' := hn'
      exact hn.process (fun m hm => by cases hm) now hprocess
    | submit command =>
      have hprocess : n.process (.message (.clientCommand command)) now = some n' := hn'
      refine hn.process (fun m hm => ?_) now hprocess
      cases hm
      trivial
  | take hpop => exact hrefl (h.frame rfl (inFlight_take hpop _).subset)
  | lose hlost => exact hrefl (h.frame rfl (inFlight_lose ..).subset)
  | defer hlost hpaused => exact hrefl (h.frame rfl (inFlight_defer ..).subset)
  | @receive s s' event hlost hpaused hs =>
    have hmsg : MsgOk M a event.envelope := h.inFlight event (by simp [Moment.inFlight])
    have hrest : SimOk M config ⟨s, none⟩ a := h.frame rfl (inFlight_lose ..).subset
    refine hrest.turn (fun n n' now hn hn' => hn.process (fun m hm => ?_) now hn') hs
    cases hm
    exact hmsg

theorem steps [Bincode] [Platform] (h : SimOk M config m a) (hs : ReflTransGen Step m m') :
    ∃ a', Run M.setting a a' ∧ SimOk M config m' a' := by
  induction hs with
  | refl => exact ⟨a, .refl, h⟩
  | tail _ hstep ih =>
    obtain ⟨a₁, hrun, hok⟩ := ih
    obtain ⟨a₂, hrun', hok'⟩ := hok.step hstep
    exact ⟨a₂, hrun.trans hrun', hok'⟩

end SimOk

/-! The start. -/

def membership (ids : List NodeId) (hids : ids.Nodup) : Membership where
  members := ids.toFinset
  peersOf id := ids.filter (· ≠ id)
  nodup _ := hids.filter _
  mem_peersOf _ _ _ := by simp

theorem nodeOk_fresh [FloatText] [Bincode] {M : Membership} {config : Config} {id : NodeId} {n : RaftNode D}
    {now : Instant} (hid : id ∈ M.members) (hn : RaftNode.newInDir Dir.empty id (M.peersOf id) config now = some n) :
    NodeOk M config (State.init M.setting) id n :=
  (ClusterOk.start M config now).nodes id n ((if_pos hid).trans hn)

theorem newCluster_eq_some [FloatText] [Bincode] [Platform] {ids : List NodeId} {draws : Nat → Nat} {s : Simulation D}
    (hs : Simulation.newCluster ids draws = some s) :
    ∃ nodes, ids.foldlM (Simulation.addFresh ids ⟨0, draws 0⟩) ∅ = some nodes ∧ s = Simulation.new nodes draws ∧
      ∀ id ∈ ids, Simulation.TimeoutFits id := by
  obtain ⟨nodes, hnodes, hs⟩ := Option.bind_eq_some_iff.mp hs
  split_ifs at hs with hfits
  exact ⟨nodes, hnodes, (Option.some.inj hs).symm, hfits⟩

theorem nodeOk_setElectionTimeout [FloatText] {M : Membership} {config : Config} {a : State NodeId LogEntry}
    {id : NodeId} {n : RaftNode D} (h : NodeOk M config a id n) (timeout : Nat) (now : Instant) :
    NodeOk M config a id (Simulation.setElectionTimeout n timeout now) := h.silent rfl fun _ he => .inl he

theorem simOk_newCluster [FloatText] [Bincode] [Platform] {ids : List NodeId} (hids : ids.Nodup) {draws : Nat → Nat}
    {s : Simulation D} (hs : Simulation.newCluster ids draws = some s) :
    SimOk (membership ids hids) .default ⟨s, none⟩ (State.init (membership ids hids).setting) := by
  obtain ⟨nodes, hnodes, rfl, -⟩ := newCluster_eq_some hs
  refine ⟨Inv.init, fun _ _ _ h => (nomatch h), ?_, fun e he => (nomatch he)⟩
  apply Fold.foldlM_invariant (P := fun nodes : AList fun _ : NodeId => RaftNode D => ∀ id n, nodes.lookup id = some n →
    NodeOk (membership ids hids) .default (State.init _) id n) hnodes
  · intro id n hn
    cases hn
  · intro nodes id nodes' hid hold hnew
    obtain ⟨n, hn, hnew⟩ := Option.bind_eq_some_iff.mp hnew
    obtain rfl := Option.some.inj hnew
    intro j m hm
    rcases Simulation.lookup_insert_cases hm with ⟨rfl, rfl⟩ | ⟨-, hm⟩
    · exact nodeOk_setElectionTimeout (nodeOk_fresh (M := membership ids hids) (List.mem_toFinset.mpr hid) hn) _ _
    · exact hold j m hm

/-! The checks of the simulator. -/

namespace Simulation
variable {s : Simulation D} {M : Membership} {config : Config} {a : State NodeId LogEntry} {i j : NodeId}
  {p : (NodeId × RaftNode D) × (NodeId × RaftNode D)}

theorem mem_nodeList {p : NodeId × RaftNode D} (h : p ∈ s.nodeList) : s.nodes.lookup p.1 = some p.2 := by
  obtain ⟨id, -, h⟩ := List.mem_filterMap.mp h
  obtain ⟨n, hn, rfl⟩ := Option.map_eq_some_iff.mp h
  exact hn

theorem nodeList_distinct (s : Simulation D) : s.nodeList.Pairwise fun p q => p.1 ≠ q.1 := by
  have hids : s.nodeIds.Nodup := (List.perm_insertionSort _ _).nodup_iff.mpr s.nodes.keys_nodup
  refine List.Pairwise.filterMap _ (fun i j hij p hp q hq => ?_) hids
  obtain ⟨n, -, rfl⟩ := Option.map_eq_some_iff.mp hp
  obtain ⟨m, -, rfl⟩ := Option.map_eq_some_iff.mp hq
  exact hij

theorem mem_of_mem_pairs {α : Type} {l : List α} {p : α × α} (h : p ∈ pairs l) : p.1 ∈ l ∧ p.2 ∈ l := by
  induction l with
  | nil => cases h
  | cons x l ih =>
    rcases List.mem_append.mp h with h | h
    · obtain ⟨y, hy, rfl⟩ := List.mem_map.mp h
      exact ⟨List.mem_cons_self .., List.mem_cons_of_mem x hy⟩
    · exact ⟨List.mem_cons_of_mem x (ih h).1, List.mem_cons_of_mem x (ih h).2⟩

theorem electionViolation_eq_none [FloatText] (h : SimOk M config ⟨s, none⟩ a) : s.electionViolation = none := by
  unfold electionViolation
  rw [List.findSome?_eq_none_iff]
  intro term _
  rw [if_neg]
  intro hmany
  rw [List.length_map] at hmany
  have hdistinct := (s.nodeList_distinct.filter (fun p => p.2.role = .leader)).filter
    (fun p => p.2.currentTerm = term)
  generalize hl : (s.nodeList.filter fun p => p.2.role = .leader).filter (fun p => p.2.currentTerm = term) = l
    at hmany hdistinct
  have hled : ∀ p ∈ l, ∃ L, a.led term = some (p.1, L) := by
    intro p hp
    rw [← hl, List.mem_filter, List.mem_filter] at hp
    obtain ⟨⟨hmem, hrole⟩, hterm⟩ := hp
    have hleader := (h.nodes p.1 p.2 (mem_nodeList hmem)).sim.leader (of_decide_eq_true hrole)
    obtain rfl : p.2.currentTerm = term := of_decide_eq_true hterm
    exact ⟨_, hleader.1⟩
  rcases l with _ | ⟨p, _ | ⟨q, rest⟩⟩
  · simp at hmany
  · simp at hmany
  obtain ⟨L, hp⟩ := hled p (by simp)
  obtain ⟨L', hq⟩ := hled q (by simp)
  have hne : p.1 ≠ q.1 := (List.pairwise_cons.mp hdistinct).1 q (by simp)
  exact hne (Prod.mk.inj (Option.some.inj (hp.symm.trans hq))).1

theorem logViolation_eq_none [FloatText] (h : SimOk M config ⟨s, none⟩ a) {p q : NodeId × RaftNode D}
    (hp : p ∈ s.nodeList) (hq : q ∈ s.nodeList) : logViolation p q = none := by
  have hP := h.nodes p.1 p.2 (mem_nodeList hp)
  have hQ := h.nodes q.1 q.2 (mem_nodeList hq)
  unfold logViolation
  rw [List.findSome?_eq_none_iff]
  intro idx hidx
  rw [List.mem_range'_1] at hidx
  split_ifs with hterm
  · rw [List.findSome?_eq_none_iff]
    intro k hk
    rw [List.mem_range'_1] at hk
    rw [if_neg]
    rw [not_not]
    have hlt : idx < p.2.log.length := by omega
    have hlt' : idx < q.2.log.length := by omega
    have heq : p.2.log[k]? = q.2.log[k]? := by
      refine getElem?_eq_of_agree hP.logOk hQ.logOk (List.getElem?_eq_getElem hlt) (List.getElem?_eq_getElem hlt') ?_
        (by omega)
      simpa [List.getElem?_eq_getElem hlt, List.getElem?_eq_getElem hlt'] using hterm
    simp only [heq]
  · rfl

/-- Two nodes have committed the same entry, and it sets a key to a NaN. -/
def FalseAlarm (s : Simulation D) (index : Nat) (i j : NodeId) (payload : EntryPayload) : Prop :=
  i ≠ j ∧ 1 ≤ index ∧ payload.setsNan = true ∧
    ∃ n m e, s.nodes.lookup i = some n ∧ s.nodes.lookup j = some m ∧ index ≤ n.commitIndex ∧ index ≤ m.commitIndex ∧
      n.log[index]? = some e ∧ m.log[index]? = some e ∧ e.payload = payload

theorem mem_pairs {α : Type} {l : List α} {x y : α} (hx : x ∈ l) (hy : y ∈ l) (hne : x ≠ y) :
    (x, y) ∈ pairs l ∨ (y, x) ∈ pairs l := by
  induction l with
  | nil => cases hx
  | cons z l ih =>
    rcases List.mem_cons.mp hx with rfl | hx'
    · exact .inl (List.mem_append_left _ (List.mem_map_of_mem ((List.mem_cons.mp hy).resolve_left hne.symm)))
    · rcases List.mem_cons.mp hy with rfl | hy'
      · exact .inr (List.mem_append_left _ (List.mem_map_of_mem hx'))
      · exact (ih hx' hy').imp (List.mem_append_right _) (List.mem_append_right _)

theorem distinct_of_mem_pairs (h : p ∈ pairs s.nodeList) : p.1.1 ≠ p.2.1 := by
  have key : ∀ {l : List (NodeId × RaftNode D)}, l.Pairwise (fun p q => p.1 ≠ q.1) → p ∈ pairs l → p.1.1 ≠ p.2.1 := by
    intro l hl hp
    induction l with
    | nil => cases hp
    | cons x l ih =>
      obtain ⟨hx, hl⟩ := List.pairwise_cons.mp hl
      rcases List.mem_append.mp hp with hp | hp
      · obtain ⟨y, hy, rfl⟩ := List.mem_map.mp hp
        exact hx y hy
      · exact ih hl hp
  exact key s.nodeList_distinct h

theorem mem_nodeList_of_lookup {n : RaftNode D} (h : s.nodes.lookup i = some n) : (i, n) ∈ s.nodeList := by
  have hmem : i ∈ s.nodeIds := by
    rw [nodeIds, List.mem_insertionSort, ← AList.mem_keys, ← AList.lookup_isSome, h]
    rfl
  exact List.mem_filterMap.mpr ⟨i, hmem, by rw [h]; rfl⟩

theorem committed_eq [FloatText] (h : SimOk M config ⟨s, none⟩ a) {n m : RaftNode D} (hn : s.nodes.lookup i = some n)
    (hm : s.nodes.lookup j = some m) {k : Nat} (hk : k ≤ n.commitIndex) (hk' : k ≤ m.commitIndex) :
    ∃ e, n.log[k]? = some e ∧ m.log[k]? = some e := by
  have hN := h.nodes i n hn
  have hM := h.nodes j m hm
  have heq := (hN.sim.commit.of_le hk).entry_eq h.inv (hM.sim.commit.of_le hk') hN.logOk hM.logOk
  have hlt : k < n.log.length := lt_of_le_of_lt hk hN.commit_lt
  exact ⟨n.log[k], List.getElem?_eq_getElem hlt, heq ▸ List.getElem?_eq_getElem hlt⟩

/-- All that is left is an entry that is not equal to itself. -/
theorem falseAlarm_of_stateViolation [FloatText] (h : SimOk M config ⟨s, none⟩ a) (hp : p ∈ pairs s.nodeList)
    {v : InvariantViolation} (hv : stateViolation p.1 p.2 = some v) :
    ∃ index payload, v = .stateSafety index p.1.1 p.2.1 payload payload ∧
      s.FalseAlarm index p.1.1 p.2.1 payload := by
  obtain ⟨hp₁, hp₂⟩ := mem_of_mem_pairs hp
  unfold stateViolation at hv
  obtain ⟨idx, hidx, hv⟩ := List.exists_of_findSome?_eq_some hv
  rw [List.mem_range'_1] at hidx
  obtain ⟨e, he, he'⟩ := committed_eq h (mem_nodeList hp₁) (mem_nodeList hp₂) (k := idx) (by omega) (by omega)
  rw [he, he'] at hv
  dsimp only at hv
  split_ifs at hv with hne
  rw [e.payload.partialEq_self, Bool.not_not] at hne
  exact ⟨idx, e.payload, (Option.some.inj hv).symm, distinct_of_mem_pairs hp, hidx.1, hne, _, _, e,
    mem_nodeList hp₁, mem_nodeList hp₂, by omega, by omega, he, he', rfl⟩

theorem FalseAlarm.stateViolation {payload : EntryPayload} {index : Nat} (h : s.FalseAlarm index i j payload) :
    ∃ p ∈ pairs s.nodeList, Simulation.stateViolation p.1 p.2 ≠ none := by
  obtain ⟨hne, hpos, hnan, n, m, e, hn, hm, hin, him, he, he', rfl⟩ := h
  have hfound : ∀ {n m : RaftNode D} {i j : NodeId}, index ≤ n.commitIndex → index ≤ m.commitIndex →
      n.log[index]? = some e → m.log[index]? = some e → Simulation.stateViolation (i, n) (j, m) ≠ none := by
    intro n m i j hin him he he' hnone
    unfold Simulation.stateViolation at hnone
    have hindex := List.findSome?_eq_none_iff.mp hnone index (by rw [List.mem_range'_1]; dsimp only; omega)
    dsimp only at hindex
    rw [he, he'] at hindex
    dsimp only at hindex
    rw [e.payload.partialEq_self, hnan] at hindex
    cases hindex
  have hdistinct : (i, n) ≠ (j, m) := fun heq => hne (Prod.mk.inj heq).1
  rcases mem_pairs (mem_nodeList_of_lookup hn) (mem_nodeList_of_lookup hm) hdistinct with hmem | hmem
  · exact ⟨_, hmem, hfound hin him he he'⟩
  · exact ⟨_, hmem, hfound him hin he' he⟩

theorem checkInvariants_of_simOk [FloatText] (h : SimOk M config ⟨s, none⟩ a) :
    (s.checkInvariants = .ok () ↔ ∀ index i j payload, ¬s.FalseAlarm index i j payload) ∧
    ∀ v, s.checkInvariants = .error v →
      ∃ index i j payload, v = .stateSafety index i j payload payload ∧ s.FalseAlarm index i j payload := by
  have hlog : (pairs s.nodeList).findSome? (fun p => logViolation p.1 p.2) = none := by
    rw [List.findSome?_eq_none_iff]
    intro p hp
    exact logViolation_eq_none h (mem_of_mem_pairs hp).1 (mem_of_mem_pairs hp).2
  have hcheck : s.checkInvariants =
      ((pairs s.nodeList).findSome? fun p => stateViolation p.1 p.2).elim (.ok ()) .error := by
    unfold checkInvariants
    rw [electionViolation_eq_none h, hlog, Option.none_or, Option.none_or]
    cases (pairs s.nodeList).findSome? fun p => stateViolation p.1 p.2 <;> rfl
  have herror : ∀ v, s.checkInvariants = .error v →
      ∃ index i j payload, v = .stateSafety index i j payload payload ∧ s.FalseAlarm index i j payload := by
    intro v hv
    rw [hcheck] at hv
    cases hfound : (pairs s.nodeList).findSome? fun p => stateViolation p.1 p.2 with
    | none => rw [hfound] at hv; cases hv
    | some v' =>
      rw [hfound] at hv
      cases hv
      obtain ⟨p, hp, hv⟩ := List.exists_of_findSome?_eq_some hfound
      obtain ⟨index, payload, heq, halarm⟩ := falseAlarm_of_stateViolation h hp hv
      exact ⟨index, _, _, payload, heq, halarm⟩
  refine ⟨⟨fun hok index i j payload halarm => ?_, fun hno => ?_⟩, herror⟩
  · obtain ⟨p, hp, hviolation⟩ := halarm.stateViolation
    rw [hcheck] at hok
    cases hfound : (pairs s.nodeList).findSome? fun p => stateViolation p.1 p.2 with
    | none => exact hviolation (List.findSome?_eq_none_iff.mp hfound p hp)
    | some v => rw [hfound] at hok; cases hok
  · cases hs : s.checkInvariants with
    | ok u => rfl
    | error v =>
      obtain ⟨index, i, j, payload, -, halarm⟩ := herror v hs
      exact absurd halarm (hno index i j payload)

/-! Runs. -/

theorem exec_simOk [FloatText] [Bincode] [Platform] {ids : List NodeId} (hids : ids.Nodup) {draws : Nat → Nat}
    {s₀ : Simulation D} (hs₀ : newCluster ids draws = some s₀) {ops : List Operation} (hexec : s₀.exec ops = some s) :
    ∃ a, SimOk (membership ids hids) .default ⟨s, none⟩ a := by
  obtain ⟨a, -, hok⟩ := (simOk_newCluster hids hs₀).steps (exec_steps hexec)
  exact ⟨a, hok⟩

/-- Whatever is done to a new cluster, the check of its invariants finds nothing, unless two nodes have committed a
NaN; it then reports that they differ, and shows the same entry twice. -/
theorem checkInvariants_ok [FloatText] [Bincode] [Platform] {ids : List NodeId} (hids : ids.Nodup) {draws : Nat → Nat}
    {s₀ : Simulation D} (hs₀ : newCluster ids draws = some s₀) {ops : List Operation} (hexec : s₀.exec ops = some s) :
    (s.checkInvariants = .ok () ↔ ∀ index i j payload, ¬s.FalseAlarm index i j payload) ∧
    ∀ v, s.checkInvariants = .error v →
      ∃ index i j payload, v = .stateSafety index i j payload payload ∧ s.FalseAlarm index i j payload := by
  obtain ⟨a, hok⟩ := exec_simOk hids hs₀ hexec
  exact checkInvariants_of_simOk hok

end Simulation
end Safety

section Concrete
open scoped Concrete
open Simulation

/-- Node 1 is elected and commits a command while the link to node 3 delivers everything twice. -/
def duplicatedCommit : List Operation := [.duplicatePackets 1 3 2 1000000, .startElection 1, .runUntilIdle,
  .applyFault (.submitCommand 1 (.set "a" (.int 1))), .runUntilIdle]

/-- Node 2 takes over and lets node 3 know what is committed. -/
def takeover : List Operation := [.startElection 2, .runUntilIdle,
  .applyFault (.submitCommand 2 (.set "b" (.int 2))), .runUntilIdle, .advanceTime 100, .runUntilIdle]

theorem run_of_map {α : Type} {f : Simulation Database → α} {ops : List Operation} {x : α}
    (h : ((newCluster [1, 2, 3] (fun _ => 150) : Option (Simulation Database)).bind fun s₀ =>
      (s₀.exec ops).map f) = some x) :
    ∃ s₀ s : Simulation Database, newCluster [1, 2, 3] (fun _ => 150) = some s₀ ∧ s₀.exec ops = some s ∧ f s = x := by
  obtain ⟨s₀, hs₀, h⟩ := Option.bind_eq_some_iff.mp h
  obtain ⟨s, hs, hx⟩ := Option.map_eq_some_iff.mp h
  exact ⟨s₀, s, hs₀, hs, hx⟩

theorem checkInvariants_ok_takeover : ∃ s₀ s : Simulation Database, newCluster [1, 2, 3] (fun _ => 150) = some s₀ ∧
    s₀.exec (duplicatedCommit ++ takeover) = some s ∧
    s.nodeList.map (fun p => (p.2.currentTerm, p.2.commitIndex)) = [(2, 2), (2, 2), (2, 2)] ∧
    s.checkInvariants = .ok () := by
  have hrun : ((newCluster [1, 2, 3] (fun _ => 150) : Option (Simulation Database)).bind fun s₀ =>
      (s₀.exec (duplicatedCommit ++ takeover)).map fun s =>
        (s.nodeList.map fun p => (p.2.currentTerm, p.2.commitIndex),
          decide (∀ p ∈ s.nodeList, ∀ e ∈ p.2.log, e.payload.setsNan = false))) =
      some ([(2, 2), (2, 2), (2, 2)], true) := by
    decide +kernel
  obtain ⟨s₀, s, hs₀, hs, hstate⟩ := run_of_map hrun
  obtain ⟨hnodes, hnan⟩ := Prod.mk.inj hstate
  refine ⟨s₀, s, hs₀, hs, hnodes, (checkInvariants_ok (by decide) hs₀ hs).1.mpr ?_⟩
  rintro index i j payload ⟨-, -, hsets, n, m, e, hn, -, -, -, he, -, rfl⟩
  rw [of_decide_eq_true hnan _ (mem_nodeList_of_lookup hn) e (List.mem_of_getElem? he)] at hsets
  cases hsets

end Concrete

section Safety
variable {D : Type} [Storage D] [Bincode] [FloatText] [Platform]

namespace Simulation
variable {s : Simulation D} {M : Membership} {config : Config} {a : State NodeId LogEntry}

theorem chaosLoop_error {nodeIds : List NodeId} {chaos : ChaosConfig}
    {remaining step ops : Nat} {rng : DeterministicRng} {v : InvariantViolation} {s' : Simulation D}
    (hs : chaosLoop nodeIds chaos remaining step ops rng s = some (.error v, s')) : s'.checkInvariants = .error v := by
  induction remaining generalizing s step ops rng with
  | zero => cases hs
  | succ remaining ih =>
    obtain ⟨⟨ops₁, rng₁, s₁⟩, hstep, hs⟩ := Option.bind_eq_some_iff.mp hs
    dsimp only at hs
    split at hs
    · next hcheck =>
      cases hs
      exact hcheck
    · exact ih hs

/-- What the chaos test reports is a false alarm too: for any seed, length and configuration, and after
anything that was done to the cluster before. -/
theorem runChaosTest_ok {ids : List NodeId} (hids : ids.Nodup) {draws : Nat → Nat} {s₀ : Simulation D}
    (hs₀ : newCluster ids draws = some s₀) {ops : List Operation} (hexec : s₀.exec ops = some s) (seed : UInt64)
    (steps : Nat) (chaos : ChaosConfig) (violation : InvariantViolation) (s' : Simulation D)
    (hs : s.runChaosTest seed steps chaos = some (.error violation, s')) :
    ∃ index i j payload, violation = .stateSafety index i j payload payload ∧ s'.FalseAlarm index i j payload := by
  obtain ⟨a, hok⟩ := exec_simOk hids hs₀ hexec
  obtain ⟨a', -, hok'⟩ := hok.steps (runChaosTest_steps hs)
  refine (checkInvariants_of_simOk hok').2 violation ?_
  obtain ⟨⟨result, s₁⟩, hloop, hs⟩ := Option.bind_eq_some_iff.mp hs
  cases result with
  | error v =>
    cases hs
    exact chaosLoop_error hloop
  | ok ops =>
    obtain ⟨s₂, hconverge, hs⟩ := Option.bind_eq_some_iff.mp hs
    obtain ⟨s₃, hidle, hs⟩ := Option.bind_eq_some_iff.mp hs
    split at hs
    · next hcheck =>
      cases hs
      exact hcheck
    · cases hs

end Simulation
end Safety

section Concrete
open scoped Concrete
open Simulation

def nanCommit : List Operation := [.startElection 1, .runUntilIdle,
  .applyFault (.submitCommand 1 (.set "a" (.float (F64.ofBits F64.nanBits)))), .runUntilIdle,
  .applyFault (.submitCommand 1 (.set "b" (.int 2))), .runUntilIdle]

/-- A chaos test of no steps, after a NaN has been committed. -/
theorem runChaosTest_ok_nan : ∃ (s₀ s s' : Simulation Database) (v : InvariantViolation),
    newCluster [1, 2, 3] (fun _ => 150) = some s₀ ∧ s₀.exec nanCommit = some s ∧
    s.runChaosTest 7 0 ⟨0, 0, 0, 0, 0, 0, 0⟩ = some (.error v, s') ∧
    ∃ index i j payload, v = .stateSafety index i j payload payload ∧ s'.FalseAlarm index i j payload := by
  have hrun : ((newCluster [1, 2, 3] (fun _ => 150) : Option (Simulation Database)).bind fun s₀ =>
      (s₀.exec nanCommit).map fun s => (s.runChaosTest 7 0 ⟨0, 0, 0, 0, 0, 0, 0⟩).map fun r => r.1.toOption.isNone) =
      some (some true) := by
    decide +kernel
  obtain ⟨s₀, s, hs₀, hs, hrun⟩ := run_of_map hrun
  obtain ⟨⟨result, s'⟩, hchaos, hresult⟩ := Option.map_eq_some_iff.mp hrun
  cases result with
  | ok ops => cases hresult
  | error v => exact ⟨s₀, s, s', v, hs₀, hs, hchaos, runChaosTest_ok (by decide) hs₀ hs 7 0 _ v s' hchaos⟩

end Concrete

section Safety
variable {D : Type} [Storage D] [Bincode] [FloatText] [Platform]

namespace Simulation
variable {s : Simulation D}

/-- What one node has committed at some moment of a run and another then or later is the same, and when both
have applied as much, so are their databases. -/
theorem committed_agree {ids : List NodeId} (hids : ids.Nodup) {draws : Nat → Nat} {s₀ s' : Simulation D}
    (hs₀ : newCluster ids draws = some s₀) {ops later : List Operation} (hexec : s₀.exec ops = some s)
    (hlater : s.exec later = some s') {i j : NodeId} {n m : RaftNode D} (hn : s.nodes.lookup i = some n)
    (hm : s'.nodes.lookup j = some m) :
    (∀ k ≤ n.commitIndex, k ≤ m.commitIndex → ∃ e, n.log[k]? = some e ∧ m.log[k]? = some e) ∧
    (n.lastApplied = m.lastApplied → n.db = m.db) := by
  obtain ⟨a, hok⟩ := exec_simOk hids hs₀ hexec
  obtain ⟨a', hrun, hok'⟩ := hok.steps (exec_steps hlater)
  have hx : Extends a a' := (Run.inv hrun hok.inv).2
  have hN := hok.nodes i n hn
  have hM := hok'.nodes j m hm
  refine ⟨fun k hk hk' => ?_, fun heq => ?_⟩
  · have hcommit := (hN.sim.commit.of_le hk).mono hx le_rfl List.prefix_rfl
    have heq := hcommit.entry_eq hok'.inv (hM.sim.commit.of_le hk') (hN.logOk.mono hx) hM.logOk
    have hlt : k < n.log.length := lt_of_le_of_lt hk hN.commit_lt
    exact ⟨n.log[k], List.getElem?_eq_getElem hlt, heq ▸ List.getElem?_eq_getElem hlt⟩
  · have happlied := hN.sim.applied.mono hx le_rfl List.prefix_rfl
    have htake := happlied.agree hok'.inv hM.sim.applied (hN.logOk.mono hx) hM.logOk heq.le
    rw [hN.db_eq, hM.db_eq, ← heq]
    exact congrArg _ (commandsUpTo_of_take htake)

end Simulation
end Safety

section Concrete
open scoped Concrete
open Simulation

/-- What node 1 committed before the takeover, node 3 has committed after it. -/
theorem committed_agree_takeover : ∃ (s₀ s s' : Simulation Database) (n m : RaftNode Database),
    newCluster [1, 2, 3] (fun _ => 150) = some s₀ ∧ s₀.exec duplicatedCommit = some s ∧
    s.exec takeover = some s' ∧ s.nodes.lookup 1 = some n ∧ s'.nodes.lookup 3 = some m ∧ n.commitIndex = 1 ∧
    m.commitIndex = 2 ∧ ∃ e, n.log[1]? = some e ∧ m.log[1]? = some e := by
  have hrun : ((newCluster [1, 2, 3] (fun _ => 150) : Option (Simulation Database)).bind fun s₀ =>
      (s₀.exec duplicatedCommit).bind fun s => (s.exec takeover).bind fun s' =>
        (s.nodes.lookup 1).bind fun n => (s'.nodes.lookup 3).map fun m => (n.commitIndex, m.commitIndex)) =
      some (1, 2) := by
    decide +kernel
  obtain ⟨s₀, hs₀, hrun⟩ := Option.bind_eq_some_iff.mp hrun
  obtain ⟨s, hs, hrun⟩ := Option.bind_eq_some_iff.mp hrun
  obtain ⟨s', hs', hrun⟩ := Option.bind_eq_some_iff.mp hrun
  obtain ⟨n, hn, hrun⟩ := Option.bind_eq_some_iff.mp hrun
  obtain ⟨m, hm, hrun⟩ := Option.map_eq_some_iff.mp hrun
  obtain ⟨hni, hmi⟩ := Prod.mk.inj hrun
  refine ⟨s₀, s, s', n, m, hs₀, hs, hs', hn, hm, hni, hmi, ?_⟩
  exact (committed_agree (by decide) hs₀ hs hs' hn hm).1 1 hni.ge (by omega)

end Concrete

end KvRaft.Simulator
