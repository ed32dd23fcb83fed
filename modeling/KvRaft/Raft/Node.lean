import KvRaft.Raft.LogStore
import Mathlib.Data.Finset.Card

/-! The state of one Raft node, its durable writes and its construction from a directory
(`raft/node.rs`). A function that can panic returns an `Option`, `none` being the panic. -/

namespace KvRaft

/-- A clock reading in nanoseconds, with the draw of `random_range(150..=300)` taken at that moment. -/
structure Instant where
  ns : Nat
  jitter : Nat
  deriving DecidableEq, Repr

/-- The files in a node's directory: `raft_log.bin`, `raft_meta.bin` and those of the database. -/
structure Dir (D : Type) [Storage D] where
  raftLog : Bytes
  raftMeta : List Nat
  db : Storage.Disk D

/-- What a crash at some moment leaves: the directory, and the log the process held in memory. -/
structure CrashPoint (D : Type) [Storage D] where
  dir : Dir D
  log : List LogEntry

structure RaftNode (D : Type) [Storage D] where
  db : D
  id : NodeId
  peers : List NodeId
  currentTerm : Nat
  votedFor : Option NodeId
  log : List LogEntry
  commitIndex : Nat
  lastApplied : Nat
  nextIndex : AList (fun _ : NodeId => Nat)
  matchIndex : AList (fun _ : NodeId => Nat)
  role : Role
  votesReceived : Finset NodeId
  leaderId : Option NodeId
  outbox : List Envelope
  electionDeadline : Nat
  heartbeatDeadline : Nat
  electionTimeout : Option Nat
  pendingRequests : AList (fun _ : Nat × Nat => Responder)
  /-- The changes sent on `peer_changes_tx`, when the channel is there. -/
  peerChanges : Option (List PeerChange)
  logStore : RaftLogStore
  metaStore : RaftMeta
  /-- The answers sent on oneshot channels. -/
  replies : List (Nat × ServiceResponse)
  /-- What a crash after each file operation of the running handler would have left. -/
  crashPoints : List (CrashPoint D)

namespace Dir
variable {D : Type} [Storage D]

def empty : Dir D := ⟨[], [], Storage.emptyDisk⟩

end Dir

namespace RaftNode
variable {D : Type} [Storage D]

def dir (n : RaftNode D) : Dir D := ⟨n.logStore.file, n.metaStore.file, Storage.disk n.db⟩

def mark (n : RaftNode D) : RaftNode D := { n with crashPoints := n.crashPoints ++ [⟨n.dir, n.log⟩] }

def resetElectionTimeout (n : RaftNode D) (now : Instant) : RaftNode D :=
  { n with electionDeadline := now.ns + n.electionTimeout.getD (now.jitter * 1000000) }

def persistMeta (n : RaftNode D) : RaftNode D :=
  ({ n with metaStore := n.metaStore.save n.commitIndex n.currentTerm n.votedFor }).mark

def answer (n : RaftNode D) (out : Answers) : RaftNode D :=
  { n with outbox := out.outbox, replies := out.replies }

def answers (n : RaftNode D) : Answers := ⟨n.outbox, n.replies⟩

def stepDown (n : RaftNode D) (newTerm : Nat) (now : Instant) : RaftNode D :=
  let n := ({ n with
    currentTerm := newTerm
    role := .follower
    votedFor := none
    leaderId := none }.resetElectionTimeout now).persistMeta
  let out := n.pendingRequests.entries.foldl (fun out p => p.2.send false none
    "Leadership changed before confirmation; write outcome may be uncertain"
    none newTerm n.id n.role n.peers out) n.answers
  { n.answer out with pendingRequests := ∅ }

def restart (n : RaftNode D) (now : Instant) : RaftNode D :=
  { n with
    role := .follower
    leaderId := none
    votesReceived := ∅
    outbox := []
    nextIndex := ∅
    matchIndex := ∅
    pendingRequests := ∅ }.resetElectionTimeout now

/-- One committed entry of the membership replay in `new_in_dir`. -/
def replayPeer (self : NodeId) (peers : List NodeId) (e : LogEntry) : List NodeId :=
  match e.payload with
  | .addNode id _ => if id ≠ self ∧ id ∉ peers then peers ++ [id] else peers
  | .removeNode id => peers.filter (· ≠ id)
  | .command _ => peers

variable [Bincode]

/-- The append reaches the file in two writes, the length prefix and the payload. -/
def pushLogEntry (n : RaftNode D) (e : LogEntry) : RaftNode D :=
  let torn := ({ n with logStore :=
    { n.logStore with file := n.logStore.file ++ RaftLogStore.frameLen e } }).mark
  let n := ({ torn with logStore := n.logStore.append e }).mark
  { n with log := n.log ++ [e] }

def truncateLog (n : RaftNode D) (start : Nat) : RaftNode D :=
  let n := ({ n with logStore := n.logStore.truncateFrom start }).mark
  { n with log := n.log.take start }

variable [FloatText]

/-- `RaftNode::new_in_dir`. The panic is the `unwrap` of `Database::open_in_dir`. -/
def newInDir (dir : Dir D) (id : NodeId) (peers : List NodeId) (config : Config) (now : Instant) :
    Option (RaftNode D) :=
  let (logStore, persistedLog) := RaftLogStore.openFile dir.raftLog
  let persisted := RaftMeta.load dir.raftMeta
  let log := if persistedLog.isEmpty then [sentinel] else persistedLog
  let safeCommit := min persisted.commitIndex (log.length - 1)
  let recoveredPeers := ((log.drop 1).take safeCommit).foldl (replayPeer id) peers
  match Storage.openInDir dir.db config with
  | .error _ => none
  | .ok db => some
    { db := db
      id := id
      peers := recoveredPeers
      currentTerm := persisted.currentTerm
      votedFor := persisted.votedFor
      log := log
      commitIndex := safeCommit
      lastApplied := safeCommit
      nextIndex := ∅
      matchIndex := ∅
      role := .follower
      votesReceived := ∅
      leaderId := none
      outbox := []
      electionDeadline := now.ns + now.jitter * 1000000
      heartbeatDeadline := now.ns
      electionTimeout := none
      pendingRequests := ∅
      peerChanges := none
      logStore := logStore
      metaStore := ⟨dir.raftMeta⟩
      replies := []
      crashPoints := [] }

end RaftNode
end KvRaft
