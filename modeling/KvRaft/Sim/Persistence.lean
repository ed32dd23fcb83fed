import KvRaft.Raft.Panics
import KvRaft.Sim.Safety

/-! The simulator as a cluster with a network. A property of clusters that stays when outboxes are emptied and
messages are lost, and when a node is asked for something, holds in every state of every run. -/

namespace KvRaft
open RaftNode hiding id

def Message.unattended : Message → Bool
  | .clientRequest .. | .clientQuery .. | .statusQuery .. => false
  | _ => true

structure RaftNode.Unattended {D : Type} [Storage D] (n : RaftNode D) : Prop where
  pending : n.pendingRequests = ∅
  outbox : ∀ e ∈ n.outbox, e.2.unattended = true

section Unattended
variable {D : Type} [Storage D] {n n' : RaftNode D} {input : RaftNode.Input} {now : Instant}

theorem Envelope.isResponse.unattended {e : Envelope} (h : e.isResponse) : e.2.unattended = true := by
  obtain ⟨r, hr⟩ := h
  rw [hr]
  rfl

theorem RaftNode.Queued.unattended {e : Envelope} (hm : ∀ m, input = .message m → m.unattended = true)
    (h : Queued input n e) : e.2.unattended = true := by
  cases h with
  | forward hi => exact hm _ hi
  | response h => exact h.unattended
  | _ => rfl

variable [FloatText] [Bincode]

theorem RaftNode.Move.unattended (hm : ∀ m, input = .message m → m.unattended = true) (h : Move input now n n')
    (hout : ∀ e ∈ n.outbox, e.2.unattended = true) : ∀ e ∈ n'.outbox, e.2.unattended = true := by
  cases h with
  | aside h =>
    have heq : n'.outbox = n.outbox := congrArg Kernel.outbox h
    rwa [heq]
  | enqueue h =>
    intro e he
    rcases List.mem_append.mp he with he | he
    · exact hout e he
    · exact List.mem_singleton.mp he ▸ h.unattended hm
  | stepDown =>
    intro e he
    rcases stepDown_outbox _ _ _ e he with he | he
    · exact hout e he
    · exact he.unattended
  | settle _ _ _ hs =>
    refine (applyCommittedEntries_induct (I := fun b => ∀ e ∈ b.outbox, e.2.unattended = true) hs hout ?_).1
    intro b b' hb _ _ happ e he
    obtain ⟨-, -, -, -, -, hadds⟩ := applyNext_kernel happ
    exact (hadds e he).elim (hb e) Envelope.isResponse.unattended
  | _ => exact hout

theorem RaftNode.Moves.unattended (hm : ∀ m, input = .message m → m.unattended = true) (h : Moves input now n n')
    (hout : ∀ e ∈ n.outbox, e.2.unattended = true) : ∀ e ∈ n'.outbox, e.2.unattended = true := by
  induction h with
  | refl => exact hout
  | tail _ hlast ih => exact hlast.unattended hm ih

omit [FloatText] in
theorem composes_pending (input : RaftNode.Input) :
    Composes input fun n n' : RaftNode D => n.pendingRequests = ∅ → n'.pendingRequests = ∅ where
  still hstill h := hstill.pending.trans h
  after_still hstill hR h := hR (hstill.pending.trans h)
  then_still hR hstill h := hstill.pending.trans (hR h)
  stepDown hR _ := hR rfl
  push _ hR h := hR h
  appendLoop _ hR h := hR ((calm_appendLoop _ _ _).pending.trans h)
  apply hs h := by
    refine (applyCommittedEntries_induct (I := fun b => b.pendingRequests = ∅) hs h ?_).1
    intro b b' hb _ _ happ
    obtain ⟨e, -, rfl⟩ := applyNext_eq_some happ
    have hpayload : (b.applyPayload e.payload).2.pendingRequests = ∅ := by
      cases e.payload with
      | command | addNode | removeNode => exact hb
    unfold RaftNode.resolvePending
    dsimp only
    rw [hpayload, AList.lookup_empty]

theorem RaftNode.Unattended.process (h : n.Unattended) (hi : input.write = none) (hr : input.isRead = false)
    (hm : ∀ m, input = .message m → m.unattended = true) (hs : n.process input now = some n') : n'.Unattended := by
  refine ⟨(composes_pending input).process hi hr hs h.pending, ?_⟩
  apply (process_moves input now hs).unattended hm
  unfold RaftNode.opening
  dsimp only
  split_ifs
  · exact h.outbox
  · exact h.outbox

end Unattended
end KvRaft

namespace KvRaft.Simulator
open Relation (ReflTransGen)

variable {D : Type} [Storage D] [Bincode] [FloatText]

/-- The nodes, with all messages in flight as the network. -/
def Moment.cluster (m : Moment D) : Cluster D where
  nodes id := m.sim.nodes.lookup id
  boot _ := []
  network := m.inFlight.map Event.envelope

inductive Asks (c : Cluster D) (id : NodeId) : (RaftNode D → Instant → Option (RaftNode D)) → Prop
  | call (call : Call) : Asks c id call.run
  | restart : Asks c id fun node now => some (node.restart now)
  | deliver {m : Message} (h : (id, m) ∈ c.network) : Asks c id (RaftNode.process · (.message m))

/-- `c'` is `c` with other outboxes, and messages of `c'` were in the network of `c` or in an outbox. -/
structure Silent (c c' : Cluster D) (out : NodeId → RaftNode D → List Envelope) : Prop where
  nodes : ∀ j, c'.nodes j = (c.nodes j).map fun n => { n with outbox := out j n }
  outbox : ∀ j n, out j n ⊆ n.outbox
  network : ∀ e ∈ c'.network, e ∈ c.network ∨ ∃ j n, c.nodes j = some n ∧ e ∈ n.outbox

structure Persists (P : Cluster D → Prop) : Prop where
  silent : ∀ {c c' out}, P c → Silent c c' out → P c'
  ask : ∀ {c id call n n' now}, P c → Asks c id call → c.nodes id = some n → call n now = some n' →
    P (c.setNode id n')

section Silent
variable {s s' : Simulation D} {hand hand' : Option Event} {id : NodeId}

omit [FloatText] [Bincode] in
theorem Silent.frame {m m' : Moment D} (hnodes : m'.sim.nodes = m.sim.nodes) (hflight : m'.inFlight ⊆ m.inFlight) :
    Silent m.cluster m'.cluster fun _ n => n.outbox := by
  refine ⟨fun j => ?_, fun j n => List.Subset.refl _, fun e he => .inl ?_⟩
  · rw [Moment.cluster, hnodes]
    exact Option.map_id'.symm
  · obtain ⟨event, hevent, rfl⟩ := List.mem_map.mp he
    exact List.mem_map_of_mem (hflight hevent)

omit [FloatText] [Bincode] in
theorem Simulation.lookup_clearOutbox_eq (s : Simulation D) (id j : NodeId) : (s.clearOutbox id).nodes.lookup j =
    (s.nodes.lookup j).map fun n => { n with outbox := if j = id then [] else n.outbox } := by
  unfold Simulation.clearOutbox
  split
  · next hnone =>
    by_cases hj : j = id
    · rw [hj, hnone, Option.map_none]
    · simp only [if_neg hj]
      exact Option.map_id'.symm
  · next n hn =>
    by_cases hj : j = id
    · rw [hj, AList.lookup_insert, hn, Option.map_some, if_pos rfl]
    · simp only [if_neg hj, AList.lookup_insert_ne hj]
      exact Option.map_id'.symm

omit [FloatText] [Bincode] in
theorem Silent.clearOutbox (s : Simulation D) (hand : Option Event) (id : NodeId) :
    Silent (Moment.mk s hand).cluster (Moment.mk (s.clearOutbox id) hand).cluster
      fun j n => if j = id then [] else n.outbox := by
  refine ⟨fun j => s.lookup_clearOutbox_eq id j, fun j n => ?_, fun e he => .inl ?_⟩
  · split_ifs
    · exact List.nil_subset _
    · exact List.Subset.refl _
  · rw [Moment.cluster, Simulation.clearOutbox_frame_eq] at he
    exact he

end Silent

variable [Platform]

namespace Persists
variable {P : Cluster D → Prop} {m m' : Moment D} {s s' : Simulation D} {hand : Option Event} {id : NodeId}
  {event : Event}

omit [Platform] in
theorem frame (hP : Persists P) (h : P m.cluster) (hnodes : m'.sim.nodes = m.sim.nodes)
    (hflight : m'.inFlight ⊆ m.inFlight) : P m'.cluster := hP.silent h (.frame hnodes hflight)

omit [Platform] in
theorem clearOutbox (hP : Persists P) (h : P (Moment.mk s hand).cluster) (id : NodeId) :
    P (Moment.mk (s.clearOutbox id) hand).cluster := hP.silent h (.clearOutbox s hand id)

theorem flushNodeOutbox (hP : Persists P) (h : P (Moment.mk s hand).cluster) (id : NodeId) :
    P (Moment.mk (s.flushNodeOutbox id) hand).cluster := by
  rcases s.flushNodeOutbox_cases id with ⟨-, heq⟩ | ⟨-, heq⟩ | ⟨n, hn, -, -, hsends⟩
  · exact heq ▸ hP.clearOutbox h id
  · exact heq.symm ▸ h
  · have hclear := Silent.clearOutbox s hand id
    obtain ⟨sent, hsent, -, hnew⟩ := hsends.events
    refine hP.silent h ⟨fun j => ?_, hclear.outbox, fun e he => ?_⟩
    · rw [Moment.cluster, hsends.frame]
      exact hclear.nodes j
    · -- what is new comes out of the outbox of the node
      rw [Moment.cluster, hsends.frame] at he
      obtain ⟨event, hevent, rfl⟩ := List.mem_map.mp he
      simp only [Moment.inFlight, Simulation.deferred, hsent, List.append_assoc] at hevent
      rcases List.mem_append.mp hevent with hevent | hevent
      · exact .inr ⟨id, n, hn, (hnew event hevent).2.1⟩
      · refine hclear.network _ (List.mem_map_of_mem ?_)
        simpa only [Moment.inFlight, Simulation.deferred, List.append_assoc] using hevent

theorem callNode (hP : Persists P) (h : P (Moment.mk s hand).cluster)
    {call : RaftNode D → Instant → Option (RaftNode D)} (hcall : Asks (Moment.mk s hand).cluster id call)
    (hs : s.callNode id call = some s') : P (Moment.mk s' hand).cluster := by
  rcases Simulation.callNode_cases hs with ⟨-, rfl⟩ | ⟨n, n', hn, hn', rfl⟩
  · exact h
  · have hset := hP.ask h hcall hn hn'
    refine hP.silent hset ⟨fun j => ?_, fun j n => List.Subset.refl n.outbox, fun e he => .inl he⟩
    -- the map and the function agree on the node that was called
    change (s.nodes.insert id n').lookup j = _
    by_cases hj : j = id
    · rw [hj, Cluster.setNode_self, AList.lookup_insert, Option.map_some]
    · rw [Cluster.setNode_of_ne _ _ hj, AList.lookup_insert_ne hj]
      exact Option.map_id'.symm

theorem turn (hP : Persists P) (h : P (Moment.mk s hand).cluster)
    {call : RaftNode D → Instant → Option (RaftNode D)} (hcall : Asks (Moment.mk s hand).cluster id call)
    (hs : s.turn id call = some s') : P (Moment.mk s' hand).cluster := by
  obtain ⟨s₁, hs₁, rfl⟩ := Option.map_eq_some_iff.mp hs
  exact hP.flushNodeOutbox (hP.callNode h hcall hs₁) id

theorem resumeNode (hP : Persists P) (h : P (Moment.mk s hand).cluster) (id : NodeId) :
    P (Moment.mk (s.resumeNode id) hand).cluster := by
  rw [Simulation.resumeNode_eq]
  apply hP.flushNodeOutbox
  refine hP.silent h ⟨fun j => Option.map_id'.symm, fun j n => List.Subset.refl n.outbox, fun e he => .inl ?_⟩
  obtain ⟨event, hevent, rfl⟩ := List.mem_map.mp he
  have hparcel := (inFlight_requeue s hand id).subset (List.mem_map_of_mem hevent)
  obtain ⟨event₀, hevent₀, heq⟩ := List.mem_map.mp hparcel
  exact envelope_of_parcel heq ▸ List.mem_map_of_mem hevent₀

/-- A step of the simulator asks nodes for something and is silent otherwise. -/
theorem step (hP : Persists P) (h : P m.cluster) (hs : Step m m') : P m'.cluster := by
  cases hs with
  | mark | enable | pause | links | policy | schedule | unschedule | elapse | overflow =>
    exact hP.frame h rfl (List.Subset.refl _)
  | disable s hand id =>
    have hset : P (Moment.mk { s with disabledNodes := insert id s.disabledNodes } hand).cluster :=
      hP.frame h rfl (List.Subset.refl _)
    exact hP.clearOutbox hset id
  | resume s hand id => exact hP.resumeNode h id
  | @restart s s' hand id hs =>
    have hforget : P (Moment.mk { s with
        pausedNodes := s.pausedNodes.erase id, pausedEvents := s.pausedEvents.erase id } hand).cluster :=
      hP.frame h rfl (inFlight_forget s hand id _).subset
    exact hP.callNode hforget .restart hs
  | flush s hand id => exact hP.flushNodeOutbox h id
  | call hand call hs => exact hP.turn h (.call call) hs
  | take hpop => exact hP.frame h rfl (inFlight_take hpop _).subset
  | lose hlost => exact hP.frame h rfl (inFlight_lose ..).subset
  | defer hlost hpaused => exact hP.frame h rfl (inFlight_defer ..).subset
  | @receive s s' event hlost hpaused hs =>
    have hmem : (event.dest, event.message) ∈ (Moment.mk s (some event)).cluster.network :=
      List.mem_map.mpr ⟨event, by simp [Moment.inFlight], rfl⟩
    exact hP.frame (hP.turn h (.deliver hmem) hs) rfl (inFlight_lose ..).subset

theorem steps (hP : Persists P) (h : P m.cluster) (hs : ReflTransGen Step m m') : P m'.cluster := by
  induction hs with
  | refl => exact h
  | tail _ hstep ih => exact hP.step ih hstep

end Persists

/-! What stays. -/

section Invariants
open ReplicatedLog
variable {M : Membership} {config : Config} {c c' : Cluster D} {id : NodeId} {n n' : RaftNode D} {now : Instant}
  {call : RaftNode D → Instant → Option (RaftNode D)}

omit [Platform] in
theorem persists_clusterOk (M : Membership) (config : Config) :
    Persists (fun c : Cluster D => ∃ a, ClusterOk M config c a) := by
  refine ⟨fun {c c' out} ⟨a, h⟩ hsilent => ⟨a, h.inv, h.commands, fun j n' hn' => ?_, fun e he => ?_⟩, ?_⟩
  · rw [hsilent.nodes] at hn'
    obtain ⟨n, hn, rfl⟩ := Option.map_eq_some_iff.mp hn'
    exact (h.nodes j n hn).silent rfl fun e he => .inl (hsilent.outbox j n he)
  · rcases hsilent.network e he with he | ⟨j, n, hn, he⟩
    · exact h.network e he
    · exact (h.nodes j n hn).outbox e he
  · rintro c id call n n' now ⟨a, h⟩ hcall hn hn'
    have hreach : Reaches M config a id n' := by
      cases hcall with
      | call call =>
        cases call with
        | startElection => exact (h.nodes id n hn).startElection now hn'
        | tick =>
          have hprocess : n.process .tick now = some n' := hn'
          exact (h.nodes id n hn).process (fun m hm => by cases hm) now hprocess
        | submit command =>
          have hprocess : n.process (.message (.clientCommand command)) now = some n' := hn'
          refine (h.nodes id n hn).process (fun m hm => ?_) now hprocess
          cases hm
          trivial
      | restart => exact Option.some.inj hn' ▸ ((h.nodes id n hn).restart now).reaches
      | @deliver m hm =>
        refine (h.nodes id n hn).process (fun m' hm' => ?_) now hn'
        cases hm'
        exact h.network _ hm
    obtain ⟨a', -, hok⟩ := h.setNode hreach
    exact ⟨a', hok⟩

omit [Bincode] [Platform] in
theorem clusterOk_peerResponses {a : State NodeId LogEntry} (h : ClusterOk M config c a) {m : Message}
    (hm : (id, m) ∈ c.network) : c.PeerResponses (.process id (.message m) now) := by
  intro p hp n hn _ _
  cases m with
  | appendEntriesResponse r =>
    obtain rfl := Option.some.inj hp
    obtain ⟨hmem, hne, -⟩ := h.network _ hm
    have hok := h.nodes id n hn
    rw [hok.peers_eq]
    exact (M.mem_peersOf id hok.mem _).mpr ⟨hmem, hne⟩
  | _ => cases hp

structure Orderly (M : Membership) (config : Config) (c : Cluster D) : Prop where
  safe : ∃ a, ClusterOk M config c a
  sound : c.Sound

omit [Platform] in
theorem Orderly.asked (h : Orderly M config c) (hdb : Storage.NeverPanics D) (hcall : Asks c id call)
    (hn : c.nodes id = some n) (now : Instant) :
    ∃ n' x, call n now = some n' ∧ n'.Steady ∧ RaftNode.Onward x n n' ∧ c.available id x = true := by
  obtain ⟨a, hok⟩ := h.safe
  obtain ⟨-, hsteady, -⟩ := h.sound.nodes id n hn
  cases hcall with
  | call call =>
    cases call with
    | startElection =>
      obtain ⟨n', hn', hs, ho⟩ := KvRaft.startElection_goes (x := .tick) now hsteady
      exact ⟨n', .tick, hn', hs, ho, rfl⟩
    | tick =>
      have hpeer : c.PeerResponses (.process id .tick now) := fun p hp => by cases hp
      obtain ⟨n', hn', hs, ho⟩ := h.sound.goes hdb hn rfl hpeer
      exact ⟨n', .tick, hn', hs, ho, rfl⟩
    | submit command =>
      have hpeer : c.PeerResponses (.process id (.message (.clientCommand command)) now) := fun p hp => by cases hp
      obtain ⟨n', hn', hs, ho⟩ := h.sound.goes hdb hn rfl hpeer
      exact ⟨n', _, hn', hs, ho, rfl⟩
  | restart =>
    have ho : RaftNode.Onward .tick n (n.restart now) := .follower rfl le_rfl rfl fun e he => (by cases he)
    exact ⟨_, .tick, rfl, ⟨hsteady.commit_lt, fun hr => (by cases hr), fun p hp => absurd hp (AList.notMem_empty p)⟩,
      ho, rfl⟩
  | @deliver m hm =>
    have hav : c.available id (.message m) = true := by
      rw [Cluster.available, Bool.or_eq_true]
      exact .inr (decide_eq_true hm)
    obtain ⟨n', hn', hs, ho⟩ := h.sound.goes hdb hn hav (clusterOk_peerResponses hok hm)
    exact ⟨n', _, hn', hs, ho, hav⟩

omit [Platform] in
theorem persists_orderly (M : Membership) (config : Config) (hdb : Storage.NeverPanics D) :
    Persists (Orderly (D := D) M config) := by
  refine ⟨fun {c c' out} h hsilent => ⟨(persists_clusterOk M config).silent h.safe hsilent, ?_⟩, ?_⟩
  · have hkeep : ∀ {e : Envelope}, c.Backed e → c'.Backed e := fun he => he.mono fun i n t k hn hb =>
      ⟨{ n with outbox := out i n }, by rw [hsilent.nodes, hn]; rfl, hb⟩
    refine ⟨fun j n' hn' => ?_, fun e he => ?_⟩
    · rw [hsilent.nodes] at hn'
      obtain ⟨n, hn, rfl⟩ := Option.map_eq_some_iff.mp hn'
      obtain ⟨hid, hsteady, hbacked⟩ := h.sound.nodes j n hn
      exact ⟨hid, hsteady.congr rfl rfl rfl rfl rfl fun hr => hr,
        fun e he => hkeep (hbacked e (hsilent.outbox j n he))⟩
    · rcases hsilent.network e he with he | ⟨j, n, hn, he⟩
      · exact hkeep (h.sound.network e he)
      · exact hkeep ((h.sound.nodes j n hn).2.2 e he)
  · intro c id call n n' now h hcall hn hn'
    obtain ⟨b, x, hb, hsteady, ho, hav⟩ := h.asked hdb hcall hn now
    obtain rfl := Option.some.inj (hb.symm.trans hn')
    exact ⟨(persists_clusterOk M config).ask h.safe hcall hn hn', h.sound.setNode hn hsteady ho hav⟩

/-- No client is there: the commands that are submitted come without a request for an answer. -/
structure Clientless (c : Cluster D) : Prop where
  nodes : ∀ id n, c.nodes id = some n → n.Unattended
  network : ∀ e ∈ c.network, e.2.unattended = true

omit [Platform] in
theorem persists_clientless : Persists (Clientless (D := D)) := by
  refine ⟨fun {c c' out} h hsilent => ⟨fun j n' hn' => ?_, fun e he => ?_⟩, ?_⟩
  · rw [hsilent.nodes] at hn'
    obtain ⟨n, hn, rfl⟩ := Option.map_eq_some_iff.mp hn'
    have hold := h.nodes j n hn
    exact ⟨hold.pending, fun e he => hold.outbox e (hsilent.outbox j n he)⟩
  · rcases hsilent.network e he with he | ⟨j, n, hn, he⟩
    · exact h.network e he
    · exact (h.nodes j n hn).outbox e he
  · intro c id call n n' now h hcall hn hn'
    have hold := h.nodes id n hn
    have hnew : n'.Unattended := by
      cases hcall with
      | call call =>
        cases call with
        | startElection =>
          have hstart : n.startElection now = some n' := hn'
          refine ⟨(still_startElection hstart).pending.trans hold.pending, ?_⟩
          have hacts := startElection_acts .tick now rfl hstart
          have hmoves : RaftNode.Moves .tick now n.stand n' := ReflTransGen.mono (fun _ _ ha => ha.move) _ _ hacts
          exact hmoves.unattended (fun m hm => by cases hm) hold.outbox
        | tick =>
          have hprocess : n.process .tick now = some n' := hn'
          exact hold.process rfl rfl (fun m hm => by cases hm) hprocess
        | submit command =>
          have hprocess : n.process (.message (.clientCommand command)) now = some n' := hn'
          refine hold.process rfl rfl (fun m hm => ?_) hprocess
          cases hm
          rfl
      | restart =>
        obtain rfl := Option.some.inj hn'
        exact ⟨rfl, fun e he => absurd he List.not_mem_nil⟩
      | @deliver m hm =>
        have hunattended := h.network _ hm
        have hprocess : n.process (.message m) now = some n' := hn'
        cases m with
        | clientRequest | clientQuery | statusQuery => cases hunattended
        | _ => exact hold.process rfl rfl (fun m' hm' => by cases hm'; rfl) hprocess
    refine ⟨fun j b hb => ?_, h.network⟩
    rcases Cluster.nodes_setNode hb with ⟨rfl, rfl⟩ | ⟨-, hb⟩
    · exact hnew
    · exact h.nodes j b hb

omit [Platform] in
theorem persists_present (ids : List NodeId) :
    Persists (fun c : Cluster D => ∀ id, (c.nodes id).isSome = true ↔ id ∈ ids) := by
  refine ⟨fun {c c' out} h hsilent id => ?_, fun {c id call n n' now} h _ hn _ j => ?_⟩
  · rw [hsilent.nodes, Option.isSome_map]
    exact h id
  · rw [← h j]
    by_cases hj : j = id
    · subst hj
      rw [Cluster.setNode_self, hn]
      rfl
    · rw [Cluster.setNode_of_ne _ _ hj]

end Invariants

/-! A new cluster. -/

section Start
variable {ids : List NodeId} {draws : Nat → Nat} {s : Simulation D}

theorem newCluster_nodes (hs : Simulation.newCluster ids draws = some s) : s.events = [] ∧ s.pausedEvents = ∅ ∧
    ∀ id n, s.nodes.lookup id = some n → ∃ b : RaftNode D,
      RaftNode.newInDir Dir.empty id (ids.filter (· ≠ id)) .default ⟨0, draws 0⟩ = some b ∧
      n = Simulation.setElectionTimeout b (Simulation.electionTimeoutOf id) ⟨0, draws 0⟩ := by
  obtain ⟨nodes, hnodes, rfl, -⟩ := newCluster_eq_some hs
  refine ⟨rfl, rfl, ?_⟩
  apply Fold.foldlM_invariant (P := fun nodes : AList fun _ : NodeId => RaftNode D => ∀ id n, nodes.lookup id = some n →
    ∃ b : RaftNode D, RaftNode.newInDir Dir.empty id (ids.filter (· ≠ id)) .default ⟨0, draws 0⟩ = some b ∧
      n = Simulation.setElectionTimeout b (Simulation.electionTimeoutOf id) ⟨0, draws 0⟩) hnodes
  · intro id n hn
    cases hn
  · intro nodes id nodes' _ hold hnew
    obtain ⟨b, hb, hnew⟩ := Option.bind_eq_some_iff.mp hnew
    obtain rfl := Option.some.inj hnew
    intro j n hn
    rcases Simulation.lookup_insert_cases hn with ⟨rfl, rfl⟩ | ⟨-, hn⟩
    · exact ⟨b, hb, rfl⟩
    · exact hold j n hn

omit [FloatText] [Bincode] [Platform] in
theorem steady_setElectionTimeout {n : RaftNode D} (h : n.Steady) (timeout : Nat) (now : Instant) :
    (Simulation.setElectionTimeout n timeout now).Steady := h.congr rfl rfl rfl rfl rfl fun hr => hr

theorem orderly_newCluster (hids : ids.Nodup) (hs : Simulation.newCluster ids draws = some s) :
    Orderly (membership ids hids) .default (Moment.mk s none).cluster := by
  obtain ⟨hevents, hpaused, hnodes⟩ := newCluster_nodes hs
  have hok := simOk_newCluster hids hs
  have hflight : (Moment.mk s none).inFlight = [] := by
    simp [Moment.inFlight, Simulation.deferred, hevents, hpaused]
  refine ⟨⟨_, hok.inv, hok.commands, hok.nodes, fun e he => ?_⟩, fun id n hn => ?_, fun e he => ?_⟩
  · rw [Moment.cluster, hflight] at he
    cases he
  · obtain ⟨b, hb, rfl⟩ := hnodes id n hn
    obtain ⟨hid, hsteady, hout⟩ := Cluster.Sound.newInDir_steady hb
    refine ⟨(Simulation.setElectionTimeout_id ..).trans hid, steady_setElectionTimeout hsteady _ _, fun e he => ?_⟩
    rw [Simulation.setElectionTimeout_outbox, hout] at he
    cases he
  · rw [Moment.cluster, hflight] at he
    cases he

theorem clientless_newCluster (hs : Simulation.newCluster ids draws = some s) :
    Clientless (Moment.mk s none).cluster := by
  obtain ⟨hevents, hpaused, hnodes⟩ := newCluster_nodes hs
  refine ⟨fun id n hn => ?_, fun e he => ?_⟩
  · obtain ⟨b, hb, rfl⟩ := hnodes id n hn
    obtain ⟨-, -, hout⟩ := Cluster.Sound.newInDir_steady hb
    have hpending : b.pendingRequests = ∅ := by
      simp only [RaftNode.newInDir, Dir.empty, Storage.open_empty] at hb
      exact Option.some.inj hb ▸ rfl
    refine ⟨(Simulation.setElectionTimeout_pendingRequests ..).trans hpending, fun e he => ?_⟩
    rw [Simulation.setElectionTimeout_outbox, hout] at he
    cases he
  · rw [Moment.cluster, Moment.inFlight, Simulation.deferred, hevents, hpaused] at he
    cases he

theorem present_newCluster (hs : Simulation.newCluster ids draws = some s) (id : NodeId) :
    (s.nodes.lookup id).isSome = true ↔ id ∈ ids := by
  obtain ⟨nodes, hnodes, rfl, -⟩ := newCluster_eq_some hs
  rw [AList.lookup_isSome]
  have key : ∀ (l : List NodeId) (b b' : AList fun _ : NodeId => RaftNode D),
      l.foldlM (Simulation.addFresh ids ⟨0, draws 0⟩) b = some b' → (id ∈ b' ↔ id ∈ l ∨ id ∈ b) := by
    intro l
    induction l with
    | nil =>
      intro b b' hb
      obtain rfl := Option.some.inj hb
      simp
    | cons x l ih =>
      intro b b' hb
      rw [List.foldlM_cons] at hb
      obtain ⟨b₁, hb₁, hb⟩ := Option.bind_eq_some_iff.mp hb
      obtain ⟨node, -, hnode⟩ := Option.bind_eq_some_iff.mp hb₁
      obtain rfl := Option.some.inj hnode
      rw [ih _ _ hb, AList.mem_insert, List.mem_cons]
      tauto
  exact (key ids ∅ nodes hnodes).trans (or_iff_left (AList.notMem_empty id))

variable {s' : Simulation D} {ops : List Operation}

theorem exec_present (hs : Simulation.newCluster ids draws = some s) (hexec : s.exec ops = some s') (id : NodeId) :
    (s'.nodes.lookup id).isSome = true ↔ id ∈ ids :=
  (persists_present (D := D) ids).steps (present_newCluster hs) (Simulation.exec_steps hexec) id

theorem exec_orderly (hdb : Storage.NeverPanics D) (hids : ids.Nodup) (hs : Simulation.newCluster ids draws = some s)
    (hexec : s.exec ops = some s') : Orderly (membership ids hids) .default (Moment.mk s' none).cluster :=
  (persists_orderly _ _ hdb).steps (orderly_newCluster hids hs) (Simulation.exec_steps hexec)

theorem exec_clientless (hs : Simulation.newCluster ids draws = some s) (hexec : s.exec ops = some s') :
    Clientless (Moment.mk s' none).cluster :=
  persists_clientless.steps (clientless_newCluster hs) (Simulation.exec_steps hexec)

end Start
end KvRaft.Simulator
