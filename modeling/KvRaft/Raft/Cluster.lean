import KvRaft.Raft.Handle
import KvRaft.Lib.Fold

/-! Clusters of nodes over a network that loses, duplicates and reorders messages. The network
keeps every envelope that was ever sent; delivering one does not use it up. -/

namespace KvRaft

structure Cluster (D : Type) [Storage D] where
  /-- The running processes. -/
  nodes : NodeId → Option (RaftNode D)
  /-- The peer list each process is started with. -/
  boot : NodeId → List NodeId
  network : List Envelope

inductive Action where
  /-- A node processes a message, a clock tick or a store request. -/
  | process (node : NodeId) (input : RaftNode.Input) (now : Instant)
  /-- The in-memory restart `RaftNode::restart`. -/
  | restart (node : NodeId) (now : Instant)
  /-- The runtime hands a node's outbox to the transport. -/
  | flush (node : NodeId)
  /-- The process dies and is started again on its directory: between two handlers, or inside one
  after some number of its file operations. -/
  | crash (node : NodeId) (inside : Option (RaftNode.Input × Nat)) (now : Instant)
  /-- A new node starts on an empty directory. -/
  | join (node : NodeId) (peers : List NodeId) (now : Instant)
  deriving DecidableEq, Repr

/-- Messages that come from outside the cluster, and timeouts. -/
def Message.external : Message → Bool
  | .clientCommand _ | .clientRequest .. | .clientQuery .. | .statusQuery .. | .clientResponse _
  | .addNode .. | .removeNode _ | .timeout => true
  | _ => false

namespace Cluster
variable {D : Type} [Storage D]

def setNode (c : Cluster D) (id : NodeId) (n : RaftNode D) : Cluster D :=
  { c with nodes := Function.update c.nodes id (some n) }

@[simp] theorem setNode_self (c : Cluster D) (id : NodeId) (n : RaftNode D) :
    (c.setNode id n).nodes id = some n := Function.update_self ..

theorem setNode_of_ne (c : Cluster D) {id j : NodeId} (n : RaftNode D) (h : j ≠ id) :
    (c.setNode id n).nodes j = c.nodes j := Function.update_of_ne h ..

theorem nodes_setNode {c : Cluster D} {id j : NodeId} {n m : RaftNode D}
    (h : (c.setNode id n).nodes j = some m) : (j = id ∧ n = m) ∨ (j ≠ id ∧ c.nodes j = some m) := by
  by_cases hj : j = id
  · subst hj
    rw [setNode_self] at h
    exact Or.inl ⟨rfl, Option.some.inj h⟩
  · rw [setNode_of_ne _ _ hj] at h
    exact Or.inr ⟨hj, h⟩

/-- An input a node can be given now. -/
def available (c : Cluster D) (id : NodeId) : RaftNode.Input → Bool
  | .message m => m.external || (id, m) ∈ c.network
  | _ => true

variable (config : Config)

/-- The node a crash at this moment leaves behind, restarted from its directory. -/
def recover [FloatText] [Bincode] (c : Cluster D) (id : NodeId) (dir : Dir D) (now : Instant) : Option (Cluster D) :=
  (RaftNode.newInDir dir id (c.boot id) config now).map (c.setNode id)

def step [FloatText] [Bincode] (c : Cluster D) : Action → Option (Cluster D)
  | .process id input now => do
    let n ← c.nodes id
    guard (c.available id input)
    let n ← n.process input now
    return c.setNode id n
  | .restart id now => do
    let n ← c.nodes id
    return c.setNode id (n.restart now)
  | .flush id => do
    let n ← c.nodes id
    return { c.setNode id { n with outbox := [] } with
      network := c.network ++ n.outbox.filter (fun e => e.2 ≠ .timeout) }
  | .crash id none now => do
    let n ← c.nodes id
    c.recover config id n.dir now
  | .crash id (some (input, k)) now => do
    let n ← c.nodes id
    guard (c.available id input)
    let n ← n.process input now
    let point ← n.crashPoints[k]?
    c.recover config id point.dir now
  | .join id peers now =>
    if (c.nodes id).isSome then none
    else ({ c with boot := Function.update c.boot id peers }).recover config id Dir.empty now

section Inversion
variable [FloatText] [Bincode] {config} {c c' : Cluster D} {id : NodeId} {now : Instant}

theorem step_process {input : RaftNode.Input} : step config c (.process id input now) = some c' ↔
    ∃ n, c.nodes id = some n ∧ c.available id input = true ∧
      ∃ n', n.process input now = some n' ∧ c.setNode id n' = c' := by
  simp [step, Option.bind_eq_some_iff]

theorem step_restart : step config c (.restart id now) = some c' ↔
    ∃ n, c.nodes id = some n ∧ c.setNode id (n.restart now) = c' := by
  simp [step, Option.bind_eq_some_iff]

theorem step_flush : step config c (.flush id) = some c' ↔
    ∃ n, c.nodes id = some n ∧ { c.setNode id { n with outbox := [] } with
      network := c.network ++ n.outbox.filter (fun e => e.2 ≠ .timeout) } = c' := by
  simp [step, Option.bind_eq_some_iff]

theorem step_crash {inside : Option (RaftNode.Input × Nat)}
    (hs : step config c (.crash id inside now) = some c') :
    ∃ n dir r, c.nodes id = some n ∧ RaftNode.newInDir dir id (c.boot id) config now = some r ∧
      c.setNode id r = c' := by
  cases inside with
  | none =>
    obtain ⟨n, hn, hs⟩ := Option.bind_eq_some_iff.mp hs
    obtain ⟨r, hr, hc⟩ := Option.map_eq_some_iff.mp hs
    exact ⟨n, _, r, hn, hr, hc⟩
  | some p =>
    simp only [step, Option.bind_eq_bind, Option.bind_eq_some_iff] at hs
    obtain ⟨n, hn, -, -, n', -, point, -, hs⟩ := hs
    obtain ⟨r, hr, hc⟩ := Option.map_eq_some_iff.mp hs
    exact ⟨n, _, r, hn, hr, hc⟩

theorem step_join {peers : List NodeId} : step config c (.join id peers now) = some c' ↔
    c.nodes id = none ∧ ∃ r, RaftNode.newInDir Dir.empty id peers config now = some r ∧
      ({ c with boot := Function.update c.boot id peers } : Cluster D).setNode id r = c' := by
  simp only [step, recover, Function.update_self]
  split_ifs with h
  · simp [Option.isSome_iff_ne_none.mp h]
  · simp [Option.not_isSome_iff_eq_none.mp h]

end Inversion

def exec [FloatText] [Bincode] (c : Cluster D) (actions : List Action) : Option (Cluster D) :=
  actions.foldlM (step config) c

theorem exec_append [FloatText] [Bincode] (c : Cluster D) (as bs : List Action) :
    exec config c (as ++ bs) = (exec config c as).bind (fun c' => exec config c' bs) := by
  simp [exec, List.foldlM_append]

theorem exec_concat [FloatText] [Bincode] {c c' : Cluster D} {as : List Action} {a : Action} :
    exec config c (as ++ [a]) = some c' ↔
      ∃ c₁, exec config c as = some c₁ ∧ step config c₁ a = some c' := by
  simp [exec, Option.bind_eq_some_iff]

/-- The run `as` from `c₀` goes through `c`. -/
def Visits [FloatText] [Bincode] (c₀ : Cluster D) (as : List Action) (c : Cluster D) : Prop :=
  ∃ before after, as = before ++ after ∧ exec config c₀ before = some c

/-- A run goes through `c` and then, after the actions `between`, through `c'`. -/
def VisitsInOrder [FloatText] [Bincode] (c₀ : Cluster D) (as : List Action) (c c' : Cluster D) : Prop :=
  ∃ before between after, as = before ++ between ++ after ∧ exec config c₀ before = some c ∧
    exec config c between = some c'

variable {config} in
theorem Visits.order [FloatText] [Bincode] {c₀ c c' : Cluster D} {as : List Action} (h : Visits config c₀ as c)
    (h' : Visits config c₀ as c') :
    VisitsInOrder config c₀ as c c' ∨ VisitsInOrder config c₀ as c' c := by
  have key : ∀ {p q r : List Action} {b b' : Cluster D}, p <+: q → as = q ++ r →
      exec config c₀ p = some b → exec config c₀ q = some b' → VisitsInOrder config c₀ as b b' := by
    rintro p q r b b' ⟨s, rfl⟩ has hb hb'
    rw [exec_append, hb, Option.bind_some] at hb'
    exact ⟨p, s, r, has, hb, hb'⟩
  obtain ⟨p, r, has, hp⟩ := h
  obtain ⟨q, r', has', hq⟩ := h'
  rcases List.prefix_or_prefix_of_prefix (has ▸ List.prefix_append p r)
    (has' ▸ List.prefix_append q r') with hpq | hqp
  · exact Or.inl (key hpq has' hp hq)
  · exact Or.inr (key hqp has hq hp)

end Cluster

/-- A fixed cluster: distinct ids, and the peers of each node are all the others. -/
structure Membership where
  members : Finset NodeId
  peersOf : NodeId → List NodeId
  nodup : ∀ n, (peersOf n).Nodup
  mem_peersOf : ∀ n ∈ members, ∀ p, p ∈ peersOf n ↔ p ∈ members ∧ p ≠ n

namespace Membership

/-- Every member freshly started on an empty directory. -/
def start {D : Type} [Storage D] [Bincode] [FloatText] (M : Membership) (config : Config) (now : Instant) :
    Cluster D where
  nodes n := if n ∈ M.members then RaftNode.newInDir Dir.empty n (M.peersOf n) config now else none
  boot := M.peersOf
  network := []

theorem length_peersOf (M : Membership) {n : NodeId} (hn : n ∈ M.members) :
    (M.peersOf n).length + 1 = M.members.card := by
  have h : (M.peersOf n).toFinset = M.members.erase n := by
    ext p
    rw [List.mem_toFinset, M.mem_peersOf n hn, Finset.mem_erase, and_comm]
  rw [← List.toFinset_card_of_nodup (M.nodup n), h, Finset.card_erase_of_mem hn]
  have := Finset.card_pos.mpr ⟨n, hn⟩
  omega

def one : Membership where
  members := {1}
  peersOf _ := []
  nodup _ := List.nodup_nil
  mem_peersOf n hn p := by
    obtain rfl := Finset.mem_singleton.mp hn
    simp

def three : Membership where
  members := {1, 2, 3}
  peersOf n := [1, 2, 3].filter (· ≠ n)
  nodup _ := (by decide : [1, 2, 3].Nodup).filter _
  mem_peersOf _ _ _ := by simp

end Membership

/-- Node 1 of three is elected in term 1 with the vote of node 2. -/
def firstElection (now : Instant) : List Action := [
  .process 1 (.message .timeout) now, .flush 1,
  .process 2 (.message (.requestVote ⟨1, 1, 0, 0⟩)) now, .flush 2,
  .process 1 (.message (.requestVoteResponse ⟨1, 2, true⟩)) now]

/-- The leader of term 1 commits a command with node 2. -/
def firstCommit [FloatText] (now : Instant) : List Action := firstElection now ++
  [.process 1 (.message (.clientCommand (.set "a" (.int 1)))) now, .flush 1,
    .process 2 (.message (.appendEntries
      ⟨1, 1, 0, 0, [⟨1, .command (LogRecord.new 0 (.set "a" (.int 1)))⟩], 0⟩)) now, .flush 2,
    .process 1 (.message (.appendEntriesResponse ⟨1, 2, true, 1⟩)) now]

/-- Node 2 is then elected in term 2 with the vote of node 3. -/
def secondElection (now : Instant) : List Action := [
  .process 2 (.message .timeout) now, .flush 2,
  .process 3 (.message (.requestVote ⟨2, 2, 1, 1⟩)) now, .flush 3,
  .process 2 (.message (.requestVoteResponse ⟨2, 3, true⟩)) now]

end KvRaft
