import KvRaft.Lsm.NodeStorage
import KvRaft.Raft.BincodeFormat
import KvRaft.Raft.Clients

/-! Service requests as the runtime hands them to its node (`runtime/runtime.rs`), and what the answer to
a membership change stands for. -/

namespace KvRaft

inductive ServiceOperation where
  | set (key : String) (value : Value)
  | delete (key : String)
  | get (key : String)
  | status
  | addNode (id : NodeId) (addr : String)
  | removeNode (id : NodeId)
  deriving DecidableEq, Repr

/-- A request with the channel its answer goes to. -/
structure ServiceRequest where
  operation : ServiceOperation
  responseTx : Nat
  deriving DecidableEq, Repr

namespace RaftNode
variable {D : Type} [Storage D] [Bincode] [FloatText]

def acknowledge (n : RaftNode D) (tx : Nat) (message : String) : RaftNode D :=
  { n with replies := n.replies ++ [(tx, ⟨true, none, message, none, 0⟩)] }

/-- A membership change is acknowledged whatever the node has made of it. -/
def handleServiceRequest (n : RaftNode D) (request : ServiceRequest) (now : Instant) : Option (RaftNode D) :=
  match request.operation with
  | .addNode id addr => (n.handleMessage (.addNode id addr) now).map fun n =>
      n.acknowledge request.responseTx "Add-node request submitted to Raft"
  | .removeNode id => (n.handleMessage (.removeNode id) now).map fun n =>
      n.acknowledge request.responseTx "Remove-node request submitted to Raft"
  | .set key value => n.handleStoreRequest ⟨.set key value, .oneshot request.responseTx⟩
  | .delete key => n.handleStoreRequest ⟨.delete key, .oneshot request.responseTx⟩
  | .get key => n.handleStoreRequest ⟨.get key, .oneshot request.responseTx⟩
  | .status => n.handleStoreRequest ⟨.status, .oneshot request.responseTx⟩

end RaftNode

inductive MembershipChange where
  | addNode (id : NodeId) (addr : String)
  | removeNode (id : NodeId)
  deriving DecidableEq, Repr

namespace MembershipChange

def operation : MembershipChange → ServiceOperation
  | addNode id addr => .addNode id addr
  | removeNode id => .removeNode id

def message : MembershipChange → Message
  | addNode id addr => .addNode id addr
  | removeNode id => .removeNode id

def payload : MembershipChange → EntryPayload
  | addNode id addr => .addNode id addr
  | removeNode id => .removeNode id

variable {D : Type} [Storage D] [Bincode] [FloatText]

/-- The last answer sent is one of success, on the channel of the request. -/
def Acknowledged (tx : Nat) (n' : RaftNode D) : Prop :=
  ∃ r : ServiceResponse, n'.replies.getLast? = some (tx, r) ∧ r.success = true

/-- The change is in the node's log, or on its way to the leader that the node knows of. -/
def Went (change : MembershipChange) (n n' : RaftNode D) : Prop :=
  (∃ e, e.payload = change.payload ∧ n'.log = n.log ++ [e]) ∨
    ∃ leader, n.leaderId = some leader ∧ n'.outbox = n.outbox ++ [(leader, change.message)]

def Honest (change : MembershipChange) (n : RaftNode D) (tx : Nat) (now : Instant) : Prop :=
  ∀ n', n.handleServiceRequest ⟨change.operation, tx⟩ now = some n' → Acknowledged tx n' → change.Went n n'

section Handling
variable (change : MembershipChange) (n : RaftNode D)

theorem handleMessage_eq (now : Instant) : n.handleMessage change.message now =
    if n.role ≠ .leader then some (n.forward change.message)
    else n.appendMembershipChange change.payload := by
  cases change <;> rfl

theorem handleServiceRequest_eq_some {tx : Nat} {now : Instant} {n' : RaftNode D}
    (h : n.handleServiceRequest ⟨change.operation, tx⟩ now = some n') :
    ∃ m text, n.handleMessage change.message now = some m ∧ n' = m.acknowledge tx text := by
  cases change with
  | addNode id addr =>
    obtain ⟨m, hm, rfl⟩ := Option.map_eq_some_iff.mp h
    exact ⟨m, _, hm, rfl⟩
  | removeNode id =>
    obtain ⟨m, hm, rfl⟩ := Option.map_eq_some_iff.mp h
    exact ⟨m, _, hm, rfl⟩

theorem handleServiceRequest_of_handled {now : Instant} {m : RaftNode D}
    (hm : n.handleMessage change.message now = some m) (tx : Nat) :
    ∃ text, n.handleServiceRequest ⟨change.operation, tx⟩ now = some (m.acknowledge tx text) := by
  cases change with
  | addNode id addr => exact ⟨_, congrArg (Option.map _) hm⟩
  | removeNode id => exact ⟨_, congrArg (Option.map _) hm⟩

omit [FloatText] [Bincode] in
theorem acknowledged_acknowledge (m : RaftNode D) (tx : Nat) (text : String) :
    Acknowledged tx (m.acknowledge tx text) := by
  simp [Acknowledged, RaftNode.acknowledge]

theorem not_honest_of_dropped {change : MembershipChange} {n : RaftNode D} (hrole : n.role ≠ .leader)
    (hleader : n.leaderId = none) (tx : Nat) (now : Instant) : ¬ change.Honest n tx now := by
  intro hhonest
  have hdropped : n.handleMessage change.message now = some n := by
    rw [handleMessage_eq, if_pos hrole, RaftNode.forward, hleader]
  obtain ⟨text, hs⟩ := handleServiceRequest_of_handled change n hdropped tx
  rcases hhonest _ hs (acknowledged_acknowledge n tx text) with ⟨e, -, hlog⟩ | ⟨leader, hknown, -⟩
  · have hlen := congrArg List.length hlog
    simp [RaftNode.acknowledge] at hlen
  · rw [hleader] at hknown
    cases hknown

end Handling

/-- The acknowledgement is honest exactly at a leader and at a node that knows of one. -/
theorem honest_iff (change : MembershipChange) (n : RaftNode D) (tx : Nat) (now : Instant) :
    change.Honest n tx now ↔ n.role = .leader ∨ n.leaderId ≠ none := by
  constructor
  · intro hhonest
    by_contra hneither
    obtain ⟨hrole, hleader⟩ := not_or.mp hneither
    exact not_honest_of_dropped hrole (not_not.mp hleader) tx now hhonest
  · intro hsome n' hs _
    obtain ⟨m, text, hm, rfl⟩ := handleServiceRequest_eq_some change n hs
    rw [handleMessage_eq] at hm
    split_ifs at hm with hrole
    · obtain ⟨leader, hleader⟩ := Option.ne_none_iff_exists'.mp (hsome.resolve_left hrole)
      rw [RaftNode.forward, hleader] at hm
      cases hm
      exact Or.inr ⟨leader, hleader, rfl⟩
    · rw [RaftNode.appendMembershipChange, if_neg hrole] at hm
      refine Or.inl ⟨⟨n.currentTerm, change.payload⟩, rfl, ?_⟩
      exact replicate_log hm

end MembershipChange

section Concrete
open scoped Concrete

/-- A node that has just been started knows of no leader, and acknowledges a request that it drops. -/
theorem fresh_node_dishonest : ∃ n : RaftNode Database,
    RaftNode.newInDir Dir.empty 2 [1, 3] .default ⟨0, 0⟩ = some n ∧
    ¬ (MembershipChange.addNode 4 "node4:6004").Honest n 0 ⟨0, 0⟩ := by
  have hrun : ((RaftNode.newInDir Dir.empty 2 [1, 3] .default ⟨0, 0⟩ : Option (RaftNode Database)).map
      fun n => (n.role, n.leaderId)) = some (.follower, none) := by
    decide +kernel
  obtain ⟨n, hn, hstate⟩ := Option.map_eq_some_iff.mp hrun
  obtain ⟨hrole, hleader⟩ := Prod.mk.inj hstate
  refine ⟨n, hn, MembershipChange.not_honest_of_dropped ?_ hleader 0 ⟨0, 0⟩⟩
  rw [hrole]
  decide

end Concrete
end KvRaft
