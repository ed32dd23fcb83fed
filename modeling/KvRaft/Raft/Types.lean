import KvRaft.Lsm.Storage
import Mathlib.Data.List.AList

/-! Log entries, messages and client requests of the Raft node (`raft/node.rs`,
`raft/message.rs`, `raft/request.rs`). -/

namespace KvRaft

/-- `NodeId { id: u64 }`. -/
abbrev NodeId := Nat

inductive Role where
  | follower
  | candidate
  | leader
  deriving DecidableEq, Repr

/-- The `Debug` form of a role. -/
def Role.debug : Role → String
  | follower => "Follower"
  | candidate => "Candidate"
  | leader => "Leader"

inductive EntryPayload where
  | command (record : LogRecord)
  | addNode (id : NodeId) (addr : String)
  | removeNode (id : NodeId)
  deriving DecidableEq, Repr

structure LogEntry where
  term : Nat
  payload : EntryPayload
  deriving DecidableEq, Repr

def LogEntry.command? (e : LogEntry) : Option Command :=
  match e.payload with
  | .command r => some r.command
  | _ => none

/-- The dummy entry that `new_in_dir` puts at index 0 of a fresh log. -/
def sentinel [FloatText] : LogEntry := ⟨0, .command (LogRecord.new 0 (.set "" (.string "")))⟩

structure AppendEntries where
  term : Nat
  leaderId : NodeId
  prevLogIndex : Nat
  prevLogTerm : Nat
  entries : List LogEntry
  leaderCommit : Nat
  deriving DecidableEq, Repr

structure AppendEntriesResponse where
  term : Nat
  followerId : NodeId
  success : Bool
  matchIndex : Nat
  deriving DecidableEq, Repr

structure RequestVote where
  term : Nat
  candidateId : NodeId
  lastLogIndex : Nat
  lastLogTerm : Nat
  deriving DecidableEq, Repr

structure RequestVoteResponse where
  term : Nat
  voterId : NodeId
  voteGranted : Bool
  deriving DecidableEq, Repr

structure ClientResponse where
  requestId : Nat
  success : Bool
  value : Option Value
  message : String
  leaderId : Option NodeId
  nodeId : NodeId
  role : String
  term : Nat
  peers : List NodeId
  deriving DecidableEq, Repr

inductive Message where
  | requestVote (request : RequestVote)
  | requestVoteResponse (response : RequestVoteResponse)
  | appendEntries (entries : AppendEntries)
  | appendEntriesResponse (response : AppendEntriesResponse)
  | clientCommand (cmd : Command)
  | clientRequest (requestId : Nat) (clientId : NodeId) (command : Command)
  | clientQuery (requestId : Nat) (clientId : NodeId) (key : String)
  | statusQuery (requestId : Nat) (clientId : NodeId)
  | clientResponse (response : ClientResponse)
  | addNode (id : NodeId) (addr : String)
  | removeNode (id : NodeId)
  | timeout
  deriving DecidableEq, Repr

abbrev Envelope := NodeId × Message

inductive PeerChange where
  | addPeer (id : NodeId) (addr : String)
  | removePeer (id : NodeId)
  deriving DecidableEq, Repr

structure ServiceResponse where
  success : Bool
  value : Option Value
  message : String
  leaderId : Option Nat
  term : Nat
  deriving DecidableEq, Repr

inductive StoreOperation where
  | set (key : String) (value : Value)
  | delete (key : String)
  | get (key : String)
  | status
  deriving DecidableEq, Repr

/-- Who waits for an answer: the holder of a oneshot channel, named by a number, or a Raft client. -/
inductive Responder where
  | oneshot (channel : Nat)
  | raftClient (clientId : NodeId) (requestId : Nat)
  deriving DecidableEq, Repr

structure StoreRequest where
  operation : StoreOperation
  responder : Responder
  deriving DecidableEq, Repr

/-- What a node has answered: envelopes for the network and values sent on oneshot channels. -/
structure Answers where
  outbox : List Envelope
  replies : List (Nat × ServiceResponse)

def Responder.send (r : Responder) (success : Bool) (value : Option Value) (message : String)
    (leaderId : Option NodeId) (term : Nat) (nodeId : NodeId) (role : Role) (peers : List NodeId)
    (out : Answers) : Answers :=
  match r with
  | .oneshot tx => { out with replies := out.replies ++ [(tx, ⟨success, value, message, leaderId, term⟩)] }
  | .raftClient clientId requestId =>
    { out with outbox := out.outbox ++ [(clientId, .clientResponse
        ⟨requestId, success, value, message, leaderId, nodeId, role.debug, term, peers⟩)] }

end KvRaft
