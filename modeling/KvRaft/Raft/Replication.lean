import KvRaft.Raft.Node

/-! Log replication, commitment and application (`raft/replication.rs`). -/

namespace KvRaft.RaftNode
variable {D : Type} [Storage D] [Bincode]

/-- The missing `next_index` and the two assertions are the panics. -/
def makeAppendEntries (n : RaftNode D) (peer : NodeId) : Option AppendEntries := do
  let nextIndex ← n.nextIndex.lookup peer
  guard (1 ≤ nextIndex)
  guard (nextIndex ≤ n.log.length)
  let prev ← n.log[nextIndex - 1]?
  return {
    term := n.currentTerm
    leaderId := n.id
    prevLogIndex := nextIndex - 1
    prevLogTerm := prev.term
    entries := n.log.drop nextIndex
    leaderCommit := n.commitIndex }

def sendAppendEntries (n : RaftNode D) (peer : NodeId) : Option (RaftNode D) := do
  let entries ← n.makeAppendEntries peer
  return { n with outbox := n.outbox ++ [(peer, .appendEntries entries)] }

def sendHeartbeats (n : RaftNode D) : Option (RaftNode D) :=
  n.peers.foldlM sendAppendEntries n

/-- The effect of one committed payload on the database and the membership, and its result. -/
def applyPayload (n : RaftNode D) : EntryPayload → Except Fault Unit × RaftNode D
  | .command r =>
    let (result, db) := Storage.run n.db r.command
    (result, ({ n with db := db }).mark)
  | .addNode id addr =>
    let peers := if id ≠ n.id ∧ id ∉ n.peers then n.peers ++ [id] else n.peers
    -- only a leader tracks replication progress, and never overwrites what it has
    let nextIndex := if n.role = .leader ∧ id ∉ n.nextIndex
      then n.nextIndex.insert id n.log.length else n.nextIndex
    let matchIndex := if n.role = .leader ∧ id ∉ n.matchIndex
      then n.matchIndex.insert id 0 else n.matchIndex
    (.ok (), { n with
      peers := peers
      nextIndex := nextIndex
      matchIndex := matchIndex
      peerChanges := n.peerChanges.map (· ++ [.addPeer id addr]) })
  | .removeNode id => (.ok (), { n with
      peers := n.peers.filter (· ≠ id)
      nextIndex := n.nextIndex.erase id
      matchIndex := n.matchIndex.erase id
      peerChanges := n.peerChanges.map (· ++ [.removePeer id]) })

/-- Answers the request that waits for the entry at `index`, if there is one. -/
def resolvePending (n : RaftNode D) (index term : Nat) (result : Except Fault Unit) : RaftNode D :=
  match n.pendingRequests.lookup (index, term) with
  | none => n
  | some responder =>
    let (success, message) := match result with
      | .ok () => (true, s!"Write committed and applied at log index {index}")
      | .error err => (false,
          s!"Log entry committed, but database application failed: {err.message}")
    { n.answer (responder.send success none message (n.leaderId.or (some n.id)) term n.id n.role
        n.peers n.answers) with
      pendingRequests := n.pendingRequests.erase (index, term) }

/-- One round of the apply loop. The panics are an index past the end of the log and a panic
inside the database. -/
def applyNext (n : RaftNode D) : Option (RaftNode D) := do
  let index := n.lastApplied + 1
  let entry ← n.log[index]?
  let (result, n) := n.applyPayload entry.payload
  match result with
  | .error (.panic _) => none
  | _ => return ({ n with lastApplied := index }).resolvePending index entry.term result

/-- `while last_applied < commit_index`, the bound being fixed while the loop runs. -/
def applyLoop : Nat → RaftNode D → Option (RaftNode D)
  | 0, n => some n
  | k + 1, n => n.applyNext.bind (applyLoop k)

def applyCommittedEntries (n : RaftNode D) : Option (RaftNode D) :=
  applyLoop (n.commitIndex - n.lastApplied) n

/-- The majority of a cluster in which this node has `peers` others. -/
def majority (n : RaftNode D) : Nat := (n.peers.length + 1) / 2 + 1

/-- How many nodes, this one included, are known to store the entry at `index`. -/
def replicated (n : RaftNode D) (index : Nat) : Nat :=
  (n.matchIndex.entries.filter (fun p => index ≤ p.2)).length + 1

/-- The commit index after looking at one more index of the log. -/
def commitAt (n : RaftNode D) (commit index : Nat) : Nat :=
  match n.log[index]? with
  | none => commit
  | some e => if e.term ≠ n.currentTerm then commit
    else if n.majority ≤ n.replicated index then index else commit

def updateCommitIndex (n : RaftNode D) : Option (RaftNode D) :=
  let start := n.commitIndex + 1
  let commit := (List.range' start (n.log.length - start)).foldl n.commitAt n.commitIndex
  ({ n with commitIndex := commit }).persistMeta.applyCommittedEntries

/-- Queues the new entry for every peer, or commits it at once when there is none. -/
def replicate (n : RaftNode D) : Option (RaftNode D) :=
  if n.peers.isEmpty then n.updateCommitIndex else n.sendHeartbeats

/-- `append_command`, with the index of the new entry; it asserts that the node is leader. -/
def appendCommand [FloatText] (n : RaftNode D) (command : Command) : Option (RaftNode D × Nat) := do
  guard (n.role = .leader)
  let index := n.log.length
  let n ← (n.pushLogEntry ⟨n.currentTerm, .command (LogRecord.new 0 command)⟩).replicate
  return (n, index)

def appendMembershipChange (n : RaftNode D) (payload : EntryPayload) : Option (RaftNode D) :=
  if n.role ≠ .leader then some n
  else (n.pushLogEntry ⟨n.currentTerm, payload⟩).replicate

/-- The append loop of `handle_append_entries`, at log position `index`. -/
def appendLoop : RaftNode D → Nat → List LogEntry → RaftNode D
  | n, _, [] => n
  | n, index, e :: es => match n.log[index]? with
    | some old =>
      if old.term ≠ e.term then appendLoop ((n.truncateLog index).pushLogEntry e) (index + 1) es
      -- the entry already exists
      else appendLoop n (index + 1) es
    | none => appendLoop (n.pushLogEntry e) (index + 1) es

def rejectAppend (n : RaftNode D) : AppendEntriesResponse :=
  ⟨n.currentTerm, n.id, false, n.log.length - 1⟩

/-- Adopts a newer term before a request of that term is looked at. -/
def observeTerm (n : RaftNode D) (term : Nat) (now : Instant) : RaftNode D :=
  if n.currentTerm < term then n.stepDown term now else n

def followLeader (n : RaftNode D) (leader : NodeId) (now : Instant) : RaftNode D :=
  { n with role := .follower, leaderId := some leader }.resetElectionTimeout now

/-- What `handle_append_entries` does once the consistency check has passed. The index it reports
is that of the last entry of the request, not of the log. -/
def acceptAppend (n : RaftNode D) (ae : AppendEntries) : Option (RaftNode D × AppendEntriesResponse) :=
  let n := n.appendLoop (ae.prevLogIndex + 1) ae.entries
  let n := { n with commitIndex := min ae.leaderCommit (n.log.length - 1) }
  n.persistMeta.applyCommittedEntries.map fun n =>
    (n, ⟨n.currentTerm, n.id, true, ae.prevLogIndex + ae.entries.length⟩)

def handleAppendEntries (n : RaftNode D) (ae : AppendEntries) (now : Instant) :
    Option (RaftNode D × AppendEntriesResponse) :=
  if ae.term < n.currentTerm then some (n, n.rejectAppend)
  else
    let n := (n.observeTerm ae.term now).followLeader ae.leaderId now
    match n.log[ae.prevLogIndex]? with
    | none => some (n, n.rejectAppend)
    | some prev =>
      if prev.term ≠ ae.prevLogTerm then some (n, n.rejectAppend) else n.acceptAppend ae

def handleAppendEntriesResponse (n : RaftNode D) (response : AppendEntriesResponse)
    (now : Instant) : Option (RaftNode D) :=
  if n.currentTerm < response.term then some (n.stepDown response.term now)
  else if n.role ≠ .leader then some n
  else if response.term < n.currentTerm then some n
  else
    let peer := response.followerId
    if response.success then
      ({ n with
        matchIndex := n.matchIndex.insert peer response.matchIndex
        nextIndex := n.nextIndex.insert peer (response.matchIndex + 1) }).updateCommitIndex
    else do
      let nextIndex ← n.nextIndex.lookup peer
      let n := if 1 < nextIndex
        then { n with nextIndex := n.nextIndex.insert peer (nextIndex - 1) } else n
      n.sendAppendEntries peer

end KvRaft.RaftNode
