import KvRaft.Raft.ReplicationSim

/-! Whole runs of a cluster of fixed membership, with in-memory restarts, are runs of the abstract
replicated log. -/

namespace KvRaft
open ReplicatedLog

/-- What can happen in a run without membership changes and without crashes. -/
def Action.inMemory : Action → Bool
  | .process _ (.message (.addNode ..)) _ | .process _ (.message (.removeNode _)) _ => false
  | .process .. | .restart .. | .flush _ => true
  | .crash .. | .join .. => false

variable [FloatText] {M : Membership} {D : Type} [Storage D] {config : Config}
  {id : NodeId} {a : State NodeId LogEntry} {n n' : RaftNode D}

section Process

theorem NodeOk.submitStoreWrite [Bincode] (h : NodeOk M config a id n) {command : Command} {r : Responder}
    (hs : n.submitStoreWrite command r = some n') : Reaches M config a id n' := by
  simp only [RaftNode.submitStoreWrite] at hs
  split_ifs at hs with hr
  · obtain rfl := Option.some.inj hs
    exact (h.respond _ _ _ _ _ _).reaches
  · obtain ⟨⟨b, index⟩, hb, hs⟩ := Option.bind_eq_some_iff.mp hs
    obtain ⟨entry, -, hs⟩ := Option.bind_eq_some_iff.mp hs
    refine (h.appendCommand hb).bind fun a' h' => ?_
    split_ifs at hs with hi
    · obtain rfl := Option.some.inj hs
      exact (h'.respond _ _ _ _ _ _).reaches
    · obtain rfl := Option.some.inj hs
      exact NodeOk.reaches (h'.silent rfl fun e he => Or.inl he)

theorem NodeOk.handleStoreRequest [Bincode] (h : NodeOk M config a id n) (request : StoreRequest)
    (hs : n.handleStoreRequest request = some n') : Reaches M config a id n' := by
  unfold RaftNode.handleStoreRequest at hs
  split at hs
  · exact h.submitStoreWrite hs
  · exact h.submitStoreWrite hs
  · obtain rfl := Option.some.inj hs
    exact (h.respond _ _ _ _ _ _).reaches
  · obtain rfl := Option.some.inj hs
    exact (h.respond _ _ _ _ _ _).reaches

theorem NodeOk.forward (h : NodeOk M config a id n) (cmd : Command) :
    NodeOk M config a id (n.forward (.clientCommand cmd)) := by
  unfold RaftNode.forward
  split
  · refine h.enqueue _ rfl rfl fun e he => ?_
    rw [List.mem_singleton.mp he]
    trivial
  · exact h

theorem NodeOk.handleMessage [Bincode] (h : NodeOk M config a id n) {m : Message} (hm : MsgOk M a (id, m))
    (now : Instant) (hs : n.handleMessage m now = some n') : Reaches M config a id n' := by
  cases m with
  | requestVote request =>
    obtain ⟨⟨b, response⟩, hb, rfl⟩ := Option.map_eq_some_iff.mp hs
    exact h.handleRequestVote hm now hb
  | requestVoteResponse response => exact h.handleVoteResponse hm now hs
  | appendEntries entries =>
    obtain ⟨⟨b, response⟩, hb, rfl⟩ := Option.map_eq_some_iff.mp hs
    exact h.handleAppendEntries hm now hb
  | appendEntriesResponse response => exact h.handleAppendEntriesResponse hm now hs
  | clientCommand cmd =>
    simp only [RaftNode.handleMessage] at hs
    split_ifs at hs
    · obtain ⟨⟨b, index⟩, hb, rfl⟩ := Option.map_eq_some_iff.mp hs
      exact h.appendCommand hb
    · obtain rfl := Option.some.inj hs
      exact (h.forward cmd).reaches
  | clientRequest => exact h.handleStoreRequest _ hs
  | clientQuery requestId clientId key =>
    exact h.handleStoreRequest ⟨.get key, .raftClient clientId requestId⟩ hs
  | statusQuery requestId clientId =>
    exact h.handleStoreRequest ⟨.status, .raftClient clientId requestId⟩ hs
  | addNode => exact hm.elim
  | removeNode => exact hm.elim
  | clientResponse =>
    obtain rfl := Option.some.inj hs
    exact h.reaches
  | timeout => exact h.startElection now hs

theorem NodeOk.tick (h : NodeOk M config a id n) (now : Instant) (hs : n.tick now = some n') :
    Reaches M config a id n' := by
  unfold RaftNode.tick at hs
  split at hs
  · next hr =>
    split_ifs at hs
    · obtain ⟨b, hb, rfl⟩ := Option.map_eq_some_iff.mp hs
      exact NodeOk.reaches ((h.sendHeartbeats hr hb).1.silent rfl fun e he => Or.inl he)
    · exact Option.some.inj hs ▸ h.reaches
  · split_ifs at hs
    · exact h.startElection now hs
    · exact Option.some.inj hs ▸ h.reaches

theorem NodeOk.process [Bincode] (h : NodeOk M config a id n) {input : RaftNode.Input}
    (hm : ∀ m, input = .message m → MsgOk M a (id, m)) (now : Instant)
    (hs : n.process input now = some n') : Reaches M config a id n' := by
  have hok : NodeOk M config a id { n with crashPoints := [] } := h.silent rfl fun e he => Or.inl he
  cases input with
  | message m => exact hok.handleMessage (hm m rfl) now hs
  | tick => exact hok.tick now hs
  | request r => exact hok.handleStoreRequest r hs

theorem NodeOk.restart (h : NodeOk M config a id n) (now : Instant) :
    NodeOk M config a id (n.restart now) :=
  ⟨h.inv, h.commands, h.mem,
    { h.sim with
      candidate := fun hr => nomatch hr
      leader := fun hr => nomatch hr
      tracked := fun p hp => absurd hp (AList.notMem_empty p) },
    fun _ he => nomatch he⟩

end Process

structure ClusterOk (M : Membership) (config : Config) (c : Cluster D) (a : State NodeId LogEntry) :
    Prop where
  inv : Inv M.setting a
  commands : CommandsOnly a
  nodes : ∀ id n, c.nodes id = some n → NodeOk M config a id n
  network : ∀ e ∈ c.network, MsgOk M a e

namespace ClusterOk
variable {c c' : Cluster D}

theorem setNode (h : ClusterOk M config c a) (hn : Reaches M config a id n) :
    ∃ a', Evolves M id a a' ∧ ClusterOk M config (c.setNode id n) a' := by
  obtain ⟨a', he, hok⟩ := hn
  refine ⟨a', he, hok.inv, hok.commands, fun j m hm => ?_, fun e hm => (h.network e hm).mono he.hist⟩
  by_cases hj : j = id
  · subst hj
    obtain rfl := Option.some.inj ((c.setNode_self j n).symm.trans hm)
    exact hok
  · have hm' := h.nodes j m ((c.setNode_of_ne n hj).symm.trans hm)
    exact ⟨hok.inv, hok.commands, hm'.mem, hm'.sim.frame he hj, fun e he' => (hm'.outbox e he').mono he.hist⟩

theorem delivered (h : ClusterOk M config c a) {input : RaftNode.Input} {now : Instant}
    (hact : (Action.process id input now).inMemory = true) (hav : c.available id input = true)
    {m : Message} (hm : input = .message m) : MsgOk M a (id, m) := by
  subst hm
  rcases Bool.or_eq_true_iff.mp hav with hx | hmem
  · cases m with
    | addNode => cases hact
    | removeNode => cases hact
    | requestVote => cases hx
    | requestVoteResponse => cases hx
    | appendEntries => cases hx
    | appendEntriesResponse => cases hx
    | _ => trivial
  · exact h.network _ (of_decide_eq_true hmem)

variable [Bincode]

theorem step_run (h : ClusterOk M config c a) {x : Action} (hx : x.inMemory = true)
    (hs : Cluster.step config c x = some c') : ∃ a', Run M.setting a a' ∧ ClusterOk M config c' a' := by
  cases x with
  | process id input now =>
    obtain ⟨n, hn, hav, n', hn', rfl⟩ := Cluster.step_process.mp hs
    obtain ⟨a', he, hok⟩ := h.setNode ((h.nodes id n hn).process (fun m hm => h.delivered hx hav hm) now hn')
    exact ⟨a', he.run, hok⟩
  | restart id now =>
    obtain ⟨n, hn, rfl⟩ := Cluster.step_restart.mp hs
    obtain ⟨a', he, hok⟩ := h.setNode ((h.nodes id n hn).restart now).reaches
    exact ⟨a', he.run, hok⟩
  | flush id =>
    obtain ⟨n, hn, rfl⟩ := Cluster.step_flush.mp hs
    have hok := h.nodes id n hn
    have hempty : NodeOk M config a id { n with outbox := [] } :=
      hok.silent rfl fun e he => absurd he List.not_mem_nil
    obtain ⟨a', he, hok'⟩ := h.setNode hempty.reaches
    refine ⟨a', he.run, hok'.inv, hok'.commands, hok'.nodes, fun e hm => ?_⟩
    rcases List.mem_append.mp hm with hm | hm
    · exact hok'.network e hm
    · exact (hok.outbox e (List.mem_filter.mp hm).1).mono he.hist
  | crash => cases hx
  | join => cases hx

theorem step (h : ClusterOk M config c a) {x : Action} (hx : x.inMemory = true)
    (hs : Cluster.step config c x = some c') : ∃ a', Extends a a' ∧ ClusterOk M config c' a' := by
  obtain ⟨a', hrun, hok⟩ := h.step_run hx hs
  exact ⟨a', (Run.inv hrun h.inv).2, hok⟩

theorem exec (h : ClusterOk M config c a) {as : List Action} (has : ∀ x ∈ as, x.inMemory = true)
    (hs : Cluster.exec config c as = some c') : ∃ a', Extends a a' ∧ ClusterOk M config c' a' := by
  refine Fold.foldlM_invariant (P := fun b => ∃ a', Extends a a' ∧ ClusterOk M config b a') hs
    ⟨a, Extends.refl a, h⟩ ?_
  rintro b x b' hx ⟨a₁, he, hb⟩ hstep
  obtain ⟨a₂, he', hb'⟩ := hb.step (has x hx) hstep
  exact ⟨a₂, he.trans he', hb'⟩

end ClusterOk

theorem newInDir_empty [Bincode] (id : NodeId) (peers : List NodeId) (config : Config) (now : Instant) :
    ∃ n : RaftNode D, RaftNode.newInDir Dir.empty id peers config now = some n ∧
      n.core = ⟨id, peers, 0, none, [sentinel], 0, 0, ∅, .follower, ∅, Storage.fresh config⟩ ∧
      n.outbox = [] := by
  simp only [RaftNode.newInDir, Dir.empty, Storage.open_empty]
  exact ⟨_, rfl, rfl, rfl⟩

theorem ClusterOk.start [Bincode] (M : Membership) (config : Config) (now : Instant) :
    ClusterOk M config (M.start config now : Cluster D) (State.init M.setting) := by
  refine ⟨Inv.init, fun _ _ _ h => (nomatch h), fun id n hn => ?_, fun e he => (nomatch he)⟩
  change (if id ∈ M.members then _ else _) = _ at hn
  split_ifs at hn with hid
  obtain ⟨b, hb, hcore, hout⟩ := newInDir_empty (D := D) id (M.peersOf id) config now
  obtain rfl : b = n := Option.some.inj (hb.symm.trans hn)
  refine ⟨Inv.init, fun _ _ _ h => (nomatch h), hid, ?_, fun e he => ?_⟩
  · rw [hcore]
    exact {
      id_eq := rfl
      peers_eq := rfl
      term_eq := rfl
      log_eq := rfl
      vote_eq := rfl
      candidate := fun hr => nomatch hr
      leader := fun hr => nomatch hr
      tracked := fun p hp => absurd hp (AList.notMem_empty p)
      commit := Or.inl rfl
      applied := Or.inl rfl
      db_eq := rfl }
  · rw [hout] at he
    cases he

end KvRaft
