import KvRaft.Raft.CatchUp

/-! What a node makes of the messages of an election and of replication when nobody waits for it and it has nothing
to send: the message with which it answers, and what it is afterwards. -/

namespace KvRaft
open RaftNode hiding id

variable {D : Type} [Storage D] {n : RaftNode D} {f : NodeId} {k : Nat} {now : Instant}

/-- What a leader sends from index `k` of its log on. -/
def appendFrom (term : Nat) (leader : NodeId) (log : List LogEntry) (k commit : Nat) : AppendEntries :=
  ⟨term, leader, k - 1, (log[k - 1]?.map LogEntry.term).getD 0, log.drop k, commit⟩

structure RaftNode.Idle (n : RaftNode D) : Prop where
  pending : n.pendingRequests = ∅
  outbox : n.outbox = []

section Apply

/-- Nothing but the database changes while commands are applied for which nobody waits. -/
theorem applyCommittedEntries_commands (hdb : Storage.NeverPanics D) (hp : n.pendingRequests = ∅)
    (hc : ∀ e ∈ n.log, ∃ r, e.payload = .command r) (hlt : n.commitIndex < n.log.length) :
    ∃ db points, n.applyCommittedEntries = some { n with
      db := db, lastApplied := max n.lastApplied n.commitIndex, crashPoints := points } := by
  have hloop : ∀ k (b : RaftNode D), b.pendingRequests = ∅ → b.log = n.log → b.lastApplied + k < n.log.length →
      ∃ db points, b.applyLoop k = some { b with
        db := db, lastApplied := b.lastApplied + k, crashPoints := points } := by
    intro k
    induction k with
    | zero => exact fun b _ _ _ => ⟨b.db, b.crashPoints, rfl⟩
    | succ k ih =>
      intro b hpb hlog hb
      have hnext : b.lastApplied + 1 < b.log.length := by
        rw [hlog]
        omega
      obtain ⟨b', hb'⟩ := exists_applyNext hdb (List.getElem?_eq_getElem hnext)
      obtain ⟨e, he', heq⟩ := applyNext_eq_some hb'
      obtain ⟨r, hr⟩ := hc e (hlog ▸ List.mem_of_getElem? he')
      have hone : ∃ db points, b' = { b with
          db := db, lastApplied := b.lastApplied + 1, crashPoints := points } := by
        refine ⟨(b.applyPayload e.payload).2.db, (b.applyPayload e.payload).2.crashPoints, ?_⟩
        rw [heq, hr]
        unfold RaftNode.resolvePending
        dsimp only [RaftNode.applyPayload, RaftNode.mark]
        rw [hpb, AList.lookup_empty]
      obtain ⟨db₁, points₁, rfl⟩ := hone
      obtain ⟨db, points, hn'⟩ := ih { b with
        db := db₁, lastApplied := b.lastApplied + 1, crashPoints := points₁ } hpb hlog (by
          change b.lastApplied + 1 + k < n.log.length
          omega)
      refine ⟨db, points, ?_⟩
      rw [RaftNode.applyLoop, hb', Option.bind_some, hn', Nat.add_assoc, Nat.add_comm 1 k]
  rw [RaftNode.applyCommittedEntries]
  by_cases hle : n.commitIndex ≤ n.lastApplied
  · rw [Nat.sub_eq_zero_of_le hle, max_eq_left hle]
    exact ⟨n.db, n.crashPoints, rfl⟩
  · obtain ⟨db, points, hn'⟩ := hloop (n.commitIndex - n.lastApplied) n hp rfl (by omega)
    rw [hn', max_eq_right (by omega), Nat.add_sub_cancel' (by omega)]
    exact ⟨db, points, rfl⟩

end Apply

section Term

theorem observeTerm_idle (hi : n.Idle) {t : Nat} (ht : n.currentTerm ≤ t) (now : Instant) :
    (n.observeTerm t now).Idle ∧ (n.observeTerm t now).core = { n.core with
      currentTerm := t, votedFor := (n.observeTerm t now).votedFor, role := (n.observeTerm t now).role } ∧
    (n.currentTerm < t ∧ (n.observeTerm t now).votedFor = none ∨ n.currentTerm = t ∧ n.observeTerm t now = n) := by
  unfold RaftNode.observeTerm
  rcases ht.lt_or_eq with hlt | rfl
  · rw [if_pos hlt]
    refine ⟨⟨rfl, ?_⟩, rfl, Or.inl ⟨hlt, rfl⟩⟩
    -- there is nobody to be told that the write may be lost
    unfold RaftNode.stepDown
    dsimp only [RaftNode.persistMeta, RaftNode.mark, RaftNode.resetElectionTimeout]
    rw [hi.pending]
    exact hi.outbox
  · rw [if_neg (lt_irrefl _)]
    exact ⟨hi, rfl, Or.inr ⟨rfl, rfl⟩⟩

end Term

section Voter

theorem votes_for [FloatText] [Bincode] (request : RequestVote) (hi : n.Idle) (ht : n.currentTerm ≤ request.term)
    (hvote : n.currentTerm = request.term → n.votedFor = none ∨ n.votedFor = some request.candidateId)
    {last : LogEntry} (hlast : n.log[n.log.length - 1]? = some last)
    (hup : logIsUpToDate request (n.log.length - 1) last.term = true) (now : Instant) :
    ∃ n', n.handleMessage (.requestVote request) now = some n' ∧
      n'.outbox = [(request.candidateId, .requestVoteResponse ⟨request.term, n.id, true⟩)] ∧
      n'.log = n.log ∧ n'.currentTerm = request.term ∧ n'.lastApplied = n.lastApplied ∧
      (n.currentTerm = request.term → n'.role = n.role ∧ n'.leaderId = n.leaderId) := by
  obtain ⟨hib, hcore, hterm⟩ := observeTerm_idle hi ht now
  rw [RaftNode.handleMessage, RaftNode.handleRequestVote, if_neg (not_lt.mpr ht)]
  dsimp only
  generalize n.observeTerm request.term now = b at hib hcore hterm
  have hlog : b.log = n.log := congrArg Core.log hcore
  have hid : b.id = n.id := congrArg Core.id hcore
  have hbterm : b.currentTerm = request.term := congrArg Core.currentTerm hcore
  have hanswer : (b.grantVote request.candidateId now).voteResponse true = ⟨request.term, n.id, true⟩ := by
    rw [← hbterm, ← hid]
    rfl
  have hsent : (b.grantVote request.candidateId now).outbox = [] := hib.outbox
  have hfree : b.votedFor = none ∨ b.votedFor = some request.candidateId := by
    rcases hterm with ⟨-, hnone⟩ | ⟨heq, rfl⟩
    · exact Or.inl hnone
    · exact hvote heq
  refine ⟨{ b.grantVote request.candidateId now with outbox :=
    [(request.candidateId, .requestVoteResponse ⟨request.term, n.id, true⟩)] }, ?_, rfl, hlog, hbterm,
    congrArg Core.lastApplied hcore, fun heq => ?_⟩
  · rw [hlog, hlast]
    rcases hfree with h | h
    · simp [h, hup, hanswer, hsent]
    · simp [h, hup, hanswer, hsent]
  · rcases hterm with ⟨hlt, -⟩ | ⟨-, rfl⟩
    · exact absurd heq hlt.ne
    · exact ⟨rfl, rfl⟩

end Voter

section Follower
variable {ae : AppendEntries}

theorem appendLoop_leaderId [Bincode] (n : RaftNode D) (i : Nat) (es : List LogEntry) :
    (n.appendLoop i es).leaderId = n.leaderId := by
  induction es generalizing n i with
  | nil => rfl
  | cons e es ih =>
    rw [RaftNode.appendLoop]
    split
    · split_ifs
      · exact ih _ (i + 1)
      · exact ih n (i + 1)
    · exact ih _ (i + 1)

/-- The node has taken the sender of `ae` for its leader: what that makes of it, apart from its log. -/
structure Followed (ae : AppendEntries) (n n' : RaftNode D) (success : Bool) (m : Nat) : Prop where
  outbox : n'.outbox = [(ae.leaderId, .appendEntriesResponse ⟨ae.term, n.id, success, m⟩)]
  id : n'.id = n.id
  term : n'.currentTerm = ae.term
  role : n'.role = .follower
  leader : n'.leaderId = some ae.leaderId
  vote : n'.votedFor = none ∨ n.currentTerm = ae.term ∧ n'.votedFor = n.votedFor

theorem followLeader_idle (hi : n.Idle) (ht : n.currentTerm ≤ ae.term) (now : Instant) :
    let b := (n.observeTerm ae.term now).followLeader ae.leaderId now
    b.Idle ∧ b.core = { n.core with currentTerm := ae.term, votedFor := b.votedFor, role := .follower } ∧
      b.leaderId = some ae.leaderId ∧ (b.votedFor = none ∨ n.currentTerm = ae.term ∧ b.votedFor = n.votedFor) := by
  obtain ⟨hib, hcore, hterm⟩ := observeTerm_idle hi ht now
  generalize n.observeTerm ae.term now = b at hib hcore hterm
  refine ⟨⟨hib.pending, hib.outbox⟩, ?_, rfl, ?_⟩
  · change ({ b.core with role := .follower } : Core D) = _
    rw [hcore]
    rfl
  · rcases hterm with ⟨-, hnone⟩ | ⟨heq, rfl⟩
    · exact Or.inl hnone
    · exact Or.inr ⟨heq, rfl⟩

theorem follows_refusing [FloatText] [Bincode] (ae : AppendEntries) (hi : n.Idle) (ht : n.currentTerm ≤ ae.term)
    (hno : ∀ prev, n.log[ae.prevLogIndex]? = some prev → prev.term ≠ ae.prevLogTerm) (now : Instant) :
    ∃ n', n.handleMessage (.appendEntries ae) now = some n' ∧ Followed ae n n' false (n.log.length - 1) ∧
      n'.log = n.log ∧ n'.lastApplied = n.lastApplied := by
  obtain ⟨hib, hcore, hleader, hvote⟩ := followLeader_idle hi ht now
  rw [RaftNode.handleMessage, RaftNode.handleAppendEntries, if_neg (not_lt.mpr ht)]
  dsimp only
  generalize (n.observeTerm ae.term now).followLeader ae.leaderId now = b at hib hcore hleader hvote
  have hlog : b.log = n.log := congrArg Core.log hcore
  have hid : b.id = n.id := congrArg Core.id hcore
  have hterm : b.currentTerm = ae.term := congrArg Core.currentTerm hcore
  have hanswer : b.rejectAppend = ⟨ae.term, n.id, false, n.log.length - 1⟩ := by
    rw [RaftNode.rejectAppend, hlog, hid, hterm]
  rw [hlog, hanswer]
  have hout : b.outbox ++
      [((ae.leaderId, .appendEntriesResponse ⟨ae.term, n.id, false, n.log.length - 1⟩) : Envelope)] =
      [(ae.leaderId, .appendEntriesResponse ⟨ae.term, n.id, false, n.log.length - 1⟩)] := by
    rw [hib.outbox, List.nil_append]
  have hnode : Followed ae n { b with outbox := b.outbox ++
      [(ae.leaderId, .appendEntriesResponse ⟨ae.term, n.id, false, n.log.length - 1⟩)] } false (n.log.length - 1) :=
    ⟨hout, hid, hterm, congrArg Core.role hcore, hleader, hvote⟩
  split
  · exact ⟨_, rfl, hnode, hlog, congrArg Core.lastApplied hcore⟩
  · next prev hprev =>
    rw [if_pos (hno prev hprev)]
    exact ⟨_, rfl, hnode, hlog, congrArg Core.lastApplied hcore⟩

/-- With that entry the new ones are taken over, and what the leader knows to be committed is applied. -/
theorem follows_accepting [FloatText] [Bincode] (ae : AppendEntries) (hdb : Storage.NeverPanics D) (hi : n.Idle)
    (ht : n.currentTerm ≤ ae.term) {prev : LogEntry}
    (hprev : n.log[ae.prevLogIndex]? = some prev) (hpt : prev.term = ae.prevLogTerm)
    (hc : ∀ e ∈ splice n.log (ae.prevLogIndex + 1) ae.entries, ∃ r, e.payload = .command r) (now : Instant) :
    ∃ n', n.handleMessage (.appendEntries ae) now = some n' ∧
      Followed ae n n' true (ae.prevLogIndex + ae.entries.length) ∧
      n'.log = splice n.log (ae.prevLogIndex + 1) ae.entries ∧
      min ae.leaderCommit (n'.log.length - 1) ≤ n'.lastApplied := by
  obtain ⟨hib, hcore, hleader, hvote⟩ := followLeader_idle hi ht now
  rw [RaftNode.handleMessage, RaftNode.handleAppendEntries, if_neg (not_lt.mpr ht)]
  dsimp only
  generalize (n.observeTerm ae.term now).followLeader ae.leaderId now = b at hib hcore hleader hvote
  have hlog : b.log = n.log := congrArg Core.log hcore
  rw [hlog, hprev]
  dsimp only
  rw [if_neg (not_not.mpr hpt), RaftNode.acceptAppend]
  obtain ⟨hloop, hout⟩ := b.appendLoop_core (ae.prevLogIndex + 1) ae.entries
  have hpending := (calm_appendLoop b (ae.prevLogIndex + 1) ae.entries).pending.trans hib.pending
  have hfollows := (appendLoop_leaderId b (ae.prevLogIndex + 1) ae.entries).trans hleader
  generalize b.appendLoop (ae.prevLogIndex + 1) ae.entries = d at hloop hout hpending hfollows
  have hdlog : d.log = splice n.log (ae.prevLogIndex + 1) ae.entries := by
    rw [← hlog]
    exact congrArg Core.log hloop
  have hid : d.id = n.id := (congrArg Core.id hloop).trans (congrArg Core.id hcore)
  have hterm : d.currentTerm = ae.term := (congrArg Core.currentTerm hloop).trans (congrArg Core.currentTerm hcore)
  have hdvote : d.votedFor = b.votedFor := congrArg Core.votedFor hloop
  have hpos : 0 < d.log.length := by
    rw [hdlog]
    exact splice_length_pos (Nat.zero_lt_of_lt (List.getElem?_eq_some_iff.mp hprev).1)
  obtain ⟨db, points, happly⟩ := applyCommittedEntries_commands hdb (n :=
    ({ d with commitIndex := min ae.leaderCommit (d.log.length - 1) } : RaftNode D).persistMeta)
    hpending (by rw [← hdlog] at hc; exact hc) (show min ae.leaderCommit (d.log.length - 1) < d.log.length by omega)
  rw [happly]
  refine ⟨_, rfl, ⟨?_, hid, hterm, (congrArg Core.role hloop).trans (congrArg Core.role hcore), hfollows, ?_⟩,
    hdlog, le_max_right _ _⟩
  · change d.outbox ++ [(ae.leaderId, .appendEntriesResponse ⟨d.currentTerm, d.id, true, _⟩)] = _
    rw [hout, hib.outbox, hterm, hid]
    rfl
  · change d.votedFor = none ∨ n.currentTerm = ae.term ∧ d.votedFor = n.votedFor
    rwa [hdvote]

end Follower

section Sending

theorem makeAppendEntries_eq (hk : n.nextIndex.lookup f = some k) (hpos : 1 ≤ k) (hle : k ≤ n.log.length) :
    n.makeAppendEntries f = some (appendFrom n.currentTerm n.id n.log k n.commitIndex) := by
  obtain ⟨prev, hprev, hmake⟩ := exists_makeAppendEntries hk hpos hle
  rw [hmake, appendFrom, hprev]
  rfl

theorem foldlM_sendAppendEntries (next : NodeId → Nat) (ps : List NodeId)
    (hps : ∀ p ∈ ps, n.nextIndex.lookup p = some (next p) ∧ 1 ≤ next p ∧ next p ≤ n.log.length) :
    ps.foldlM sendAppendEntries n = some { n with outbox := n.outbox ++ ps.map fun p =>
      (p, .appendEntries (appendFrom n.currentTerm n.id n.log (next p) n.commitIndex)) } := by
  induction ps generalizing n with
  | nil => rw [List.map_nil, List.append_nil]; rfl
  | cons p ps ih =>
    obtain ⟨hk, hpos, hle⟩ := hps p List.mem_cons_self
    have hrest := ih (n := { n with outbox := n.outbox ++
      [(p, .appendEntries (appendFrom n.currentTerm n.id n.log (next p) n.commitIndex))] })
      fun q hq => hps q (List.mem_cons_of_mem p hq)
    rw [List.foldlM_cons, sendAppendEntries, makeAppendEntries_eq hk hpos hle]
    refine hrest.trans ?_
    rw [List.map_cons, List.append_assoc]
    rfl

theorem foldlM_welcomePeer_sends (hpos : 0 < n.log.length) (ps : List NodeId) :
    ∃ next mat, ps.foldlM welcomePeer n = some { n with
        nextIndex := next, matchIndex := mat, outbox := n.outbox ++ ps.map fun p =>
          (p, .appendEntries (appendFrom n.currentTerm n.id n.log n.log.length n.commitIndex)) } ∧
      ∀ p, p ∈ ps ∨ n.nextIndex.lookup p = some n.log.length → next.lookup p = some n.log.length := by
  induction ps generalizing n with
  | nil =>
    refine ⟨n.nextIndex, n.matchIndex, ?_, fun p hp => hp.resolve_left List.not_mem_nil⟩
    rw [List.map_nil, List.append_nil]
    rfl
  | cons p ps ih =>
    have hmake := makeAppendEntries_eq (n := { n with
      nextIndex := n.nextIndex.insert p n.log.length
      matchIndex := n.matchIndex.insert p 0 }) (AList.lookup_insert n.nextIndex) hpos le_rfl
    obtain ⟨next, mat, hs, hset⟩ := ih (n := { n with
      nextIndex := n.nextIndex.insert p n.log.length
      matchIndex := n.matchIndex.insert p 0
      outbox := n.outbox ++
        [(p, .appendEntries (appendFrom n.currentTerm n.id n.log n.log.length n.commitIndex))] }) hpos
    refine ⟨next, mat, ?_, fun q hq => hset q ?_⟩
    · rw [List.foldlM_cons, welcomePeer, sendAppendEntries, hmake]
      refine hs.trans ?_
      rw [List.map_cons, List.append_assoc]
      rfl
    · by_cases hqp : q = p
      · exact Or.inr (hqp ▸ AList.lookup_insert n.nextIndex)
      · refine hq.imp (fun hq => (List.mem_cons.mp hq).resolve_left hqp) fun hq => ?_
        exact (AList.lookup_insert_ne hqp).trans hq

theorem becomeLeader_sends (hpos : 0 < n.log.length) (now : Instant) :
    ∃ next mat, n.becomeLeader now = some { n with
        role := .leader, leaderId := some n.id, nextIndex := next, matchIndex := mat
        heartbeatDeadline := now.ns + 100000000
        outbox := n.outbox ++ n.peers.map fun p =>
          (p, .appendEntries (appendFrom n.currentTerm n.id n.log n.log.length n.commitIndex)) } ∧
      ∀ p ∈ n.peers, next.lookup p = some n.log.length := by
  obtain ⟨next, mat, hs, hset⟩ := foldlM_welcomePeer_sends (n := { n with
    role := .leader, leaderId := some n.id }) hpos n.peers
  exact ⟨next, mat, Option.bind_eq_some_iff.mpr ⟨_, hs, rfl⟩, fun p hp => hset p (Or.inl hp)⟩

end Sending

section Candidate
variable {voter : NodeId}

theorem vote_ignored [FloatText] [Bincode] (voter : NodeId) {t : Nat} (ht : n.currentTerm = t)
    (hr : n.role ≠ .candidate) (now : Instant) :
    n.handleMessage (.requestVoteResponse ⟨t, voter, true⟩) now = some n := by
  subst ht
  rw [RaftNode.handleMessage, RaftNode.handleVoteResponse, if_neg (lt_irrefl _), if_neg (lt_irrefl _), if_pos hr]

theorem vote_counted [FloatText] [Bincode] {t : Nat} (ht : n.currentTerm = t) (hr : n.role = .candidate)
    (hfew : ¬n.majority ≤ (insert voter n.votesReceived).card) (now : Instant) :
    n.handleMessage (.requestVoteResponse ⟨t, voter, true⟩) now =
      some { n with votesReceived := insert voter n.votesReceived } := by
  subst ht
  rw [RaftNode.handleMessage, RaftNode.handleVoteResponse, if_neg (lt_irrefl _), if_neg (lt_irrefl _),
    if_neg (not_not.mpr hr)]
  exact if_neg hfew

theorem vote_elects [FloatText] [Bincode] {t : Nat} (ht : n.currentTerm = t) (hr : n.role = .candidate)
    (henough : n.majority ≤ (insert voter n.votesReceived).card) (now : Instant) :
    n.handleMessage (.requestVoteResponse ⟨t, voter, true⟩) now =
      ({ n with votesReceived := insert voter n.votesReceived } : RaftNode D).becomeLeader now := by
  subst ht
  rw [RaftNode.handleMessage, RaftNode.handleVoteResponse, if_neg (lt_irrefl _), if_neg (lt_irrefl _),
    if_neg (not_not.mpr hr)]
  exact if_pos henough

end Candidate

section Leader

/-- A leader that counts anew commits the end of its log once it is of its term and known to a majority, and applies
what is committed. -/
theorem updateCommitIndex_commands (hdb : Storage.NeverPanics D) (hp : n.pendingRequests = ∅)
    (hc : ∀ e ∈ n.log, ∃ r, e.payload = .command r) (hlt : n.commitIndex < n.log.length) :
    ∃ commit db store points, n.updateCommitIndex = some { n with
        commitIndex := commit, lastApplied := max n.lastApplied commit
        db := db, metaStore := store, crashPoints := points } ∧ n.commitIndex ≤ commit ∧
      (n.majority ≤ n.replicated (n.log.length - 1) →
        (n.log[n.log.length - 1]?.map LogEntry.term) = some n.currentTerm → commit = n.log.length - 1) := by
  have hle := n.commitIndex_le_foldl
  have hbound := foldl_commitAt_le n (List.range' (n.commitIndex + 1) (n.log.length - (n.commitIndex + 1)))
    (Or.inl rfl)
  have hlast : n.majority ≤ n.replicated (n.log.length - 1) →
      (n.log[n.log.length - 1]?.map LogEntry.term) = some n.currentTerm →
      (List.range' (n.commitIndex + 1) (n.log.length - (n.commitIndex + 1))).foldl n.commitAt n.commitIndex =
        n.log.length - 1 := by
    intro hmajority hterm
    obtain ⟨e, he, ht⟩ := Option.map_eq_some_iff.mp hterm
    rcases Nat.lt_or_ge (n.commitIndex + 1) n.log.length with hmore | hall
    · -- the end of the log is the last index that is looked at
      have hrange : n.log.length - (n.commitIndex + 1) = n.log.length - (n.commitIndex + 1) - 1 + 1 := by omega
      have hindex : n.commitIndex + 1 + (n.log.length - (n.commitIndex + 1) - 1) = n.log.length - 1 := by omega
      rw [hrange, List.range'_1_concat, List.foldl_concat, hindex, RaftNode.commitAt, he]
      dsimp only
      rw [if_neg (not_not.mpr ht), if_pos hmajority]
    · rw [Nat.sub_eq_zero_of_le hall]
      change n.commitIndex = n.log.length - 1
      omega
  rw [RaftNode.updateCommitIndex]
  generalize (List.range' (n.commitIndex + 1) (n.log.length - (n.commitIndex + 1))).foldl n.commitAt n.commitIndex =
    commit at hle hbound hlast
  obtain ⟨db, points, happly⟩ := applyCommittedEntries_commands hdb
    (n := ({ n with commitIndex := commit } : RaftNode D).persistMeta) hp hc (show commit < n.log.length by omega)
  exact ⟨commit, db, _, points, happly, hle, hlast⟩

theorem success_recorded [FloatText] [Bincode] (hdb : Storage.NeverPanics D) (hi : n.Idle) {t : Nat}
    (ht : n.currentTerm = t)
    (hr : n.role = .leader) (hc : ∀ e ∈ n.log, ∃ r, e.payload = .command r) (hlt : n.commitIndex < n.log.length)
    (now : Instant) : ∃ commit db store points,
      n.handleMessage (.appendEntriesResponse ⟨t, f, true, k⟩) now = some { n with
        matchIndex := n.matchIndex.insert f k, nextIndex := n.nextIndex.insert f (k + 1)
        commitIndex := commit, lastApplied := max n.lastApplied commit
        db := db, metaStore := store, crashPoints := points } ∧ n.commitIndex ≤ commit ∧
      (n.majority ≤ ({ n with matchIndex := n.matchIndex.insert f k } : RaftNode D).replicated (n.log.length - 1) →
        (n.log[n.log.length - 1]?.map LogEntry.term) = some n.currentTerm → commit = n.log.length - 1) := by
  subst ht
  rw [RaftNode.handleMessage, RaftNode.handleAppendEntriesResponse, if_neg (lt_irrefl _),
    if_neg (not_not.mpr hr), if_neg (lt_irrefl _)]
  exact updateCommitIndex_commands hdb (n := { n with
    matchIndex := n.matchIndex.insert f k, nextIndex := n.nextIndex.insert f (k + 1) }) hi.pending hc hlt

theorem refusal_answered [FloatText] [Bincode] (hi : n.Idle) {t : Nat} (ht : n.currentTerm = t) (hr : n.role = .leader)
    (hk : n.nextIndex.lookup f = some (k + 1)) (hpos : 1 ≤ k) (hle : k ≤ n.log.length) (m : Nat) (now : Instant) :
    n.handleMessage (.appendEntriesResponse ⟨t, f, false, m⟩) now = some { n with
      nextIndex := n.nextIndex.insert f k
      outbox := [(f, .appendEntries (appendFrom n.currentTerm n.id n.log k n.commitIndex))] } := by
  subst ht
  obtain ⟨ae, hs, hae⟩ := leader_retries now hr hk hpos hle m
  have hmake := makeAppendEntries_eq (n := { n with nextIndex := n.nextIndex.insert f k })
    (AList.lookup_insert _) hpos hle
  obtain rfl := Option.some.inj (hae.symm.trans hmake)
  rw [hs, hi.outbox]
  rfl

end Leader

/-! What a node does when it is asked to. -/

section Calls

theorem startElection_asks (hi : n.Idle) (hpeers : n.peers ≠ []) {last : LogEntry}
    (hlast : n.log[n.log.length - 1]? = some last) (now : Instant) :
    ∃ n', n.startElection now = some n' ∧ n'.outbox = n.peers.map (fun p =>
        (p, .requestVote ⟨n.currentTerm + 1, n.id, n.log.length - 1, last.term⟩)) ∧
      n'.core = { n.core with
        currentTerm := n.currentTerm + 1, votedFor := some n.id, role := .candidate, votesReceived := {n.id} } := by
  have hfew : ¬n.stand.majority ≤ n.stand.votesReceived.card := by
    have hpos := List.length_pos_iff.mpr hpeers
    change ¬(n.peers.length + 1) / 2 + 1 ≤ ({n.id} : Finset NodeId).card
    rw [Finset.card_singleton]
    omega
  have hrequest : (n.stand.resetElectionTimeout now).voteRequest =
      some ⟨n.currentTerm + 1, n.id, n.log.length - 1, last.term⟩ := by
    change (do
      let last ← n.log[n.log.length - 1]?
      return (⟨n.currentTerm + 1, n.id, n.log.length - 1, last.term⟩ : RequestVote)) = _
    rw [hlast]
    rfl
  have hnone : (n.stand.resetElectionTimeout now).outbox = [] := hi.outbox
  rw [RaftNode.startElection, if_neg hfew, RaftNode.requestVotes, hrequest, hnone]
  exact ⟨_, rfl, rfl, rfl⟩

theorem startElection_alone (hi : n.Idle) (hpeers : n.peers = []) (hpos : 0 < n.log.length) (now : Instant) :
    ∃ n', n.startElection now = some n' ∧ n'.Idle ∧ n'.leaderId = some n.id ∧
      n'.log = n.log ∧ n'.currentTerm = n.currentTerm + 1 ∧ n'.role = .leader ∧
      n'.commitIndex = n.commitIndex ∧ n'.lastApplied = n.lastApplied := by
  have henough : n.stand.majority ≤ n.stand.votesReceived.card := by
    change (n.peers.length + 1) / 2 + 1 ≤ ({n.id} : Finset NodeId).card
    rw [hpeers, Finset.card_singleton]
    exact le_rfl
  obtain ⟨next, mat, hs, -⟩ := becomeLeader_sends (n := n.stand) hpos now
  rw [RaftNode.startElection, if_pos henough, hs]
  refine ⟨_, rfl, ⟨hi.pending, ?_⟩, rfl, rfl, rfl, rfl, rfl, rfl⟩
  change n.outbox ++ n.peers.map _ = []
  rw [hi.outbox, hpeers]
  rfl

def RaftNode.entryOf [FloatText] (n : RaftNode D) (command : Command) : LogEntry :=
  ⟨n.currentTerm, .command (LogRecord.new 0 command)⟩

theorem command_sent [FloatText] [Bincode] (hi : n.Idle) (hr : n.role = .leader) (hpeers : n.peers ≠ [])
    {next : NodeId → Nat}
    (hps : ∀ p ∈ n.peers, n.nextIndex.lookup p = some (next p) ∧ 1 ≤ next p ∧ next p ≤ n.log.length)
    (command : Command) (now : Instant) :
    n.handleMessage (.clientCommand command) now = some { n.pushLogEntry (n.entryOf command) with
      outbox := n.peers.map fun p => (p, .appendEntries
        (appendFrom n.currentTerm n.id (n.log ++ [n.entryOf command]) (next p) n.commitIndex)) } := by
  have hsends := foldlM_sendAppendEntries (n := n.pushLogEntry (n.entryOf command)) next n.peers
    fun p hp => by
      obtain ⟨h1, h2, h3⟩ := hps p hp
      refine ⟨h1, h2, ?_⟩
      rw [pushLogEntry_log, List.length_append]
      omega
  have hnone : (n.pushLogEntry (n.entryOf command)).outbox = [] := hi.outbox
  have hreplicate : (n.pushLogEntry (n.entryOf command)).replicate =
      n.peers.foldlM sendAppendEntries (n.pushLogEntry (n.entryOf command)) := by
    rw [RaftNode.replicate]
    refine if_neg ?_
    change ¬n.peers.isEmpty = true
    rwa [List.isEmpty_iff]
  rw [RaftNode.handleMessage, if_pos hr, RaftNode.appendCommand, hr]
  change ((n.pushLogEntry (n.entryOf command)).replicate.bind fun b => some (b, n.log.length)).map Prod.fst = _
  rw [hreplicate, hsends, hnone]
  rfl

theorem command_applied_alone [FloatText] [Bincode] (hdb : Storage.NeverPanics D) (hi : n.Idle) (hr : n.role = .leader)
    (hpeers : n.peers = []) (hc : ∀ e ∈ n.log, ∃ r, e.payload = .command r) (hlt : n.commitIndex < n.log.length)
    (command : Command) (now : Instant) :
    ∃ n', n.handleMessage (.clientCommand command) now = some n' ∧ n'.Idle ∧ n'.leaderId = n.leaderId ∧
      n'.log = n.log ++ [n.entryOf command] ∧ n'.currentTerm = n.currentTerm ∧ n'.role = .leader ∧
      n.commitIndex ≤ n'.commitIndex ∧ n.log.length ≤ n'.commitIndex ∧ n.log.length ≤ n'.lastApplied := by
  have hcommands : ∀ e ∈ (n.pushLogEntry (n.entryOf command)).log, ∃ r, e.payload = .command r := by
    intro e he
    rcases List.mem_append.mp he with he | he
    · exact hc e he
    · exact List.mem_singleton.mp he ▸ ⟨_, rfl⟩
  have hlong : (n.pushLogEntry (n.entryOf command)).log.length = n.log.length + 1 := List.length_append
  obtain ⟨commit, db, store, points, hs, hle, hlast⟩ := updateCommitIndex_commands hdb
    (n := n.pushLogEntry (n.entryOf command)) hi.pending hcommands (by rw [hlong]; exact Nat.lt_succ_of_lt hlt)
  have hmajority : (n.pushLogEntry (n.entryOf command)).majority ≤
      (n.pushLogEntry (n.entryOf command)).replicated ((n.pushLogEntry (n.entryOf command)).log.length - 1) := by
    change (n.peers.length + 1) / 2 + 1 ≤ _
    rw [hpeers]
    exact Nat.le_add_left 1 _
  have hcommit := hlast hmajority (by
    rw [hlong, pushLogEntry_log, Nat.add_sub_cancel, List.getElem?_concat_length]
    rfl)
  rw [hlong, Nat.add_sub_cancel] at hcommit
  have hreplicate : (n.pushLogEntry (n.entryOf command)).replicate =
      (n.pushLogEntry (n.entryOf command)).updateCommitIndex := by
    rw [RaftNode.replicate]
    refine if_pos ?_
    change n.peers.isEmpty = true
    rw [hpeers]
    rfl
  rw [RaftNode.handleMessage, if_pos hr, RaftNode.appendCommand, hr]
  change ∃ n', ((n.pushLogEntry (n.entryOf command)).replicate.bind fun b => some (b, n.log.length)).map Prod.fst =
    some n' ∧ _
  rw [hreplicate, hs]
  exact ⟨_, rfl, ⟨hi.pending, hi.outbox⟩, rfl, rfl, rfl, hr, hle, hcommit.ge, hcommit ▸ le_max_right _ _⟩

end Calls
end KvRaft
