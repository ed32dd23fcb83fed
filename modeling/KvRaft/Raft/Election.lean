import KvRaft.Raft.Replication

/-! Leader election (`raft/election.rs`). -/

namespace KvRaft.RaftNode
variable {D : Type} [Storage D] [Bincode]

/-- One round of the loop over the peers in `become_leader`. -/
def welcomePeer (n : RaftNode D) (peer : NodeId) : Option (RaftNode D) :=
  ({ n with
    nextIndex := n.nextIndex.insert peer n.log.length
    matchIndex := n.matchIndex.insert peer 0 }).sendAppendEntries peer

def becomeLeader (n : RaftNode D) (now : Instant) : Option (RaftNode D) := do
  let n := { n with role := .leader, leaderId := some n.id }
  let n ← n.peers.foldlM welcomePeer n
  return { n with heartbeatDeadline := now.ns + 100000000 }

def voteRequest (n : RaftNode D) : Option RequestVote := do
  let lastLogIndex := n.log.length - 1
  let last ← n.log[lastLogIndex]?
  return ⟨n.currentTerm, n.id, lastLogIndex, last.term⟩

/-- The first half of `start_election`: the new term and the vote for itself, both on disk. -/
def stand (n : RaftNode D) : RaftNode D :=
  { ({ n with
    role := .candidate
    leaderId := none
    currentTerm := n.currentTerm + 1
    votedFor := some n.id } : RaftNode D).persistMeta with votesReceived := {n.id} }

/-- The second half of `start_election`, when the own vote is not enough. -/
def requestVotes (n : RaftNode D) (now : Instant) : Option (RaftNode D) := do
  let n := n.resetElectionTimeout now
  let request ← n.voteRequest
  return { n with outbox := n.outbox ++ n.peers.map (fun peer => (peer, .requestVote request)) }

def startElection (n : RaftNode D) (now : Instant) : Option (RaftNode D) :=
  let n := n.stand
  if n.majority ≤ n.votesReceived.card then n.becomeLeader now else n.requestVotes now

def handleVoteResponse (n : RaftNode D) (response : RequestVoteResponse) (now : Instant) :
    Option (RaftNode D) :=
  if n.currentTerm < response.term then some (n.stepDown response.term now)
  else if response.term < n.currentTerm then some n
  else if n.role ≠ .candidate then some n
  else
    let n := if response.voteGranted
      then { n with votesReceived := insert response.voterId n.votesReceived } else n
    if n.majority ≤ n.votesReceived.card then n.becomeLeader now else some n

def voteResponse (n : RaftNode D) (granted : Bool) : RequestVoteResponse :=
  ⟨n.currentTerm, n.id, granted⟩

/-- The candidate's log is at least as up to date as one ending at `lastIndex` in `lastTerm`. -/
def logIsUpToDate (request : RequestVote) (lastIndex lastTerm : Nat) : Bool :=
  lastTerm < request.lastLogTerm ||
    (request.lastLogTerm = lastTerm && lastIndex ≤ request.lastLogIndex)

def grantVote (n : RaftNode D) (candidate : NodeId) (now : Instant) : RaftNode D :=
  ({ n with votedFor := some candidate }).persistMeta.resetElectionTimeout now

def handleRequestVote (n : RaftNode D) (request : RequestVote) (now : Instant) :
    Option (RaftNode D × RequestVoteResponse) :=
  if request.term < n.currentTerm then some (n, n.voteResponse false)
  else
    let n := n.observeTerm request.term now
    let canVote := match n.votedFor with
      | none => true
      | some id => id = request.candidateId
    if !canVote then some (n, n.voteResponse false)
    else do
      let lastLogIndex := n.log.length - 1
      let last ← n.log[lastLogIndex]?
      if !logIsUpToDate request lastLogIndex last.term then return (n, n.voteResponse false)
      else
        let n := n.grantVote request.candidateId now
        return (n, n.voteResponse true)

end KvRaft.RaftNode
