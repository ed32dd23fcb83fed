import KvRaft.Raft.Acts

/-! What one call of a handler can do to a node, as a sequence of moves. A move says of the acts what the
invariants about terms, votes, logs and files need, and leaves the rest aside. -/

namespace KvRaft
variable [FloatText] {D : Type} [Storage D] [Bincode]

namespace RaftNode

inductive Queued (input : Input) (n : RaftNode D) : Envelope → Prop
  | appendEntries {dest : NodeId} {ae : AppendEntries} (hr : n.role = .leader)
      (h : n.makeAppendEntries dest = some ae) : Queued input n (dest, .appendEntries ae)
  | requestVote {dest : NodeId} {request : RequestVote} (hr : n.role = .candidate)
      (hp : dest ∈ n.peers) (h : n.voteRequest = some request) :
      Queued input n (dest, .requestVote request)
  | voteResponse {request : RequestVote} {granted : Bool}
      (hi : input = .message (.requestVote request)) (hg : granted = true →
        n.currentTerm = request.term ∧ n.votedFor = some request.candidateId) :
      Queued input n (request.candidateId, .requestVoteResponse (n.voteResponse granted))
  | appendResponse {ae : AppendEntries} {response : AppendEntriesResponse}
      (hi : input = .message (.appendEntries ae)) :
      Queued input n (ae.leaderId, .appendEntriesResponse response)
  | forward {dest : NodeId} {m : Message} (hi : input = .message m)
      (hm : (∃ cmd, m = .clientCommand cmd) ∨ (∃ id addr, m = .addNode id addr) ∨
        ∃ id, m = .removeNode id) : Queued input n (dest, m)
  | response {e : Envelope} (h : e.isResponse) : Queued input n e

inductive Move (input : Input) (now : Instant) : RaftNode D → RaftNode D → Prop
  | aside {n n' : RaftNode D} (h : n'.kernel = n.kernel) : Move input now n n'
  | enqueue {n : RaftNode D} {e : Envelope} (h : Queued input n e) :
      Move input now n { n with outbox := n.outbox ++ [e] }
  | stepDown {n : RaftNode D} {t : Nat} (ht : n.currentTerm < t) :
      Move input now n (n.stepDown t now)
  | follow {n : RaftNode D} {ae : AppendEntries} (hi : input = .message (.appendEntries ae))
      (ht : n.currentTerm = ae.term) : Move input now n (n.followLeader ae.leaderId now)
  | count {n : RaftNode D} {r : RequestVoteResponse} (hi : input = .message (.requestVoteResponse r))
      (hr : n.role = .candidate) (ht : r.term = n.currentTerm) (hg : r.voteGranted = true) :
      Move input now n { n with votesReceived := insert r.voterId n.votesReceived }
  | lead {n : RaftNode D} (hr : n.role = .candidate) (hq : n.majority ≤ n.votesReceived.card) :
      Move input now n { n with role := .leader, leaderId := some n.id }
  | grant {n : RaftNode D} {request : RequestVote} (hi : input = .message (.requestVote request))
      (ht : n.currentTerm = request.term)
      (hv : n.votedFor = none ∨ n.votedFor = some request.candidateId) :
      Move input now n (n.grantVote request.candidateId now)
  | push {n : RaftNode D} {e : LogEntry} (h : Pushed input n e) : Move input now n (n.pushLogEntry e)
  | replace {n : RaftNode D} {e old : LogEntry} {i : Nat} (h : Pushed input n e) (hi : 0 < i)
      (hold : n.log[i]? = some old) (hne : old.term ≠ e.term)
      (ha : ∃ ae, input = .message (.appendEntries ae)) :
      Move input now n ((n.truncateLog i).pushLogEntry e)
  | settle {n n' : RaftNode D} {k : Nat} (hr : n.role ≠ .candidate)
      (hk : k = n.commitIndex ∨ k ≤ n.log.length - 1) (hc : Settles input n k)
      (hs : ({ n with commitIndex := k }).persistMeta.applyCommittedEntries = some n') :
      Move input now n n'

abbrev Moves (input : Input) (now : Instant) : RaftNode D → RaftNode D → Prop :=
  Relation.ReflTransGen (Move input now)

end RaftNode

open RaftNode

section Process
variable {input : Input} {now : Instant} {n n' : RaftNode D}

omit [FloatText] [Bincode] in
theorem RaftNode.Posted.queued {e : Envelope} (h : Posted input n e) : Queued input n e := by
  cases h with
  | appendEntries _ hr hae => exact .appendEntries hr hae
  | requestVote hr hp hreq => exact .requestVote hr hp hreq
  | voteResponse hi hg => exact .voteResponse hi hg
  | appendResponse hi => exact .appendResponse hi
  | forward hi hm => exact .forward hi hm

theorem respond_move (responder : Responder) (success : Bool) (value : Option Value) (message : String)
    (leader : Option NodeId) (term : Nat) :
    Move input now n (n.respond responder success value message leader term) := by
  cases responder with
  | oneshot tx => exact .aside rfl
  | raftClient clientId requestId =>
    change Move input now n { n with outbox := n.outbox ++ [(clientId, .clientResponse _)] }
    exact .enqueue (.response ⟨_, rfl⟩)

theorem RaftNode.Act.move (ha : Act input now n n') : Move input now n n' := by
  cases ha with
  | timers => exact .aside rfl
  | track => exact .aside rfl
  | wait => exact .aside rfl
  | post h => exact .enqueue h.queued
  | respond => exact respond_move ..
  | follow hi ht => exact .follow hi ht
  | count hi hr ht hg => exact .count hi hr ht hg
  | lead hr hq => exact .lead hr hq
  | grant hi ht hv => exact .grant hi ht hv
  | push h => exact .push h
  | replace h hi hold hne ha => exact .replace h hi hold hne ha
  | settle hr hk hc hs => exact .settle hr hk hc hs

variable (input now)

theorem process_moves (hs : n.process input now = some n') :
    Moves input now (n.opening input now) n' := by
  obtain ⟨b, hb, hacts⟩ := process_acts input now hs
  have hmoves : Moves input now b n' :=
    Relation.ReflTransGen.mono (fun _ _ (ha : Act input now _ _) => ha.move) b n' hacts
  rcases hb with rfl | ⟨t, -, ht, rfl⟩
  · exact hmoves
  · exact .head (.stepDown ht) hmoves

end Process
end KvRaft
