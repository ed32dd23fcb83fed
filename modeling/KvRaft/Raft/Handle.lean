import KvRaft.Raft.Election

/-! Dispatch: messages, store requests and clock ticks (`raft/message.rs`, `raft/node.rs`). -/

namespace KvRaft.RaftNode
variable {D : Type} [Storage D] [Bincode] [FloatText]

def respond (n : RaftNode D) (responder : Responder) (success : Bool) (value : Option Value)
    (message : String) (leaderId : Option NodeId) (term : Nat) : RaftNode D :=
  n.answer (responder.send success value message leaderId term n.id n.role n.peers n.answers)

def submitStoreWrite (n : RaftNode D) (command : Command) (responder : Responder) :
    Option (RaftNode D) :=
  if n.role ≠ .leader then
    let msg := match n.leaderId with
      | some leader => s!"Not leader; current leader is Node {leader}"
      | none => s!"Node {n.id} is not leader and no leader is currently known"
    some (n.respond responder false none msg n.leaderId n.currentTerm)
  else do
    let (n, index) ← n.appendCommand command
    let entry ← n.log[index]?
    if index ≤ n.lastApplied then
      return n.respond responder true none s!"Write committed and applied at log index {index}"
        (n.leaderId.or (some n.id)) entry.term
    else
      return { n with pendingRequests := n.pendingRequests.insert (index, entry.term) responder }

def handleStoreRequest (n : RaftNode D) (request : StoreRequest) : Option (RaftNode D) :=
  match request.operation with
  | .set key value => n.submitStoreWrite (.set key value) request.responder
  | .delete key => n.submitStoreWrite (.delete key) request.responder
  | .get key =>
    let (success, value, message) := match Storage.get n.db key with
      | .ok val => (true, val, s!"Read from Node {n.id}")
      | .error err => (false, none, err.message)
    some (n.respond request.responder success value message n.leaderId n.currentTerm)
  | .status =>
    some (n.respond request.responder true none s!"Node status OK (role: {n.role.debug})"
      n.leaderId n.currentTerm)

def forward (n : RaftNode D) (message : Message) : RaftNode D :=
  match n.leaderId with
  | some leader => { n with outbox := n.outbox ++ [(leader, message)] }
  | none => n

def handleMessage (n : RaftNode D) (message : Message) (now : Instant) : Option (RaftNode D) :=
  match message with
  | .requestVote request => (n.handleRequestVote request now).map fun (n, response) =>
      { n with outbox := n.outbox ++ [(request.candidateId, .requestVoteResponse response)] }
  | .requestVoteResponse response => n.handleVoteResponse response now
  | .appendEntries entries => (n.handleAppendEntries entries now).map fun (n, response) =>
      { n with outbox := n.outbox ++ [(entries.leaderId, .appendEntriesResponse response)] }
  | .appendEntriesResponse response => n.handleAppendEntriesResponse response now
  | .clientCommand cmd =>
    if n.role = .leader then (n.appendCommand cmd).map Prod.fst
    else some (n.forward (.clientCommand cmd))
  | .clientRequest requestId clientId command =>
    let operation := match command with
      | .set key value => StoreOperation.set key value
      | .delete key => StoreOperation.delete key
    n.handleStoreRequest ⟨operation, .raftClient clientId requestId⟩
  | .clientQuery requestId clientId key =>
    n.handleStoreRequest ⟨.get key, .raftClient clientId requestId⟩
  | .statusQuery requestId clientId => n.handleStoreRequest ⟨.status, .raftClient clientId requestId⟩
  | .addNode id addr =>
    if n.role ≠ .leader then some (n.forward (.addNode id addr))
    else n.appendMembershipChange (.addNode id addr)
  | .removeNode id =>
    if n.role ≠ .leader then some (n.forward (.removeNode id))
    else n.appendMembershipChange (.removeNode id)
  | .clientResponse _ => some n
  | .timeout => n.startElection now

def tick (n : RaftNode D) (now : Instant) : Option (RaftNode D) :=
  match n.role with
  | .leader =>
    if n.heartbeatDeadline ≤ now.ns then
      n.sendHeartbeats.map fun n => { n with heartbeatDeadline := now.ns + 100000000 }
    else some n
  | _ => if n.electionDeadline ≤ now.ns then n.startElection now else some n

inductive Input where
  | message (message : Message)
  | tick
  | request (request : StoreRequest)
  deriving DecidableEq, Repr

/-- One call of a handler, with the crash points of that call alone. -/
def process (n : RaftNode D) (input : Input) (now : Instant) : Option (RaftNode D) :=
  let n := { n with crashPoints := [] }
  match input with
  | .message m => n.handleMessage m now
  | .tick => n.tick now
  | .request r => n.handleStoreRequest r

end KvRaft.RaftNode
