import KvRaft.Raft.ElectionSim

/-! One call of a handler, taken apart: the term changes first, if at all, and then come small acts that
each update a node in one known way. -/

namespace KvRaft
variable {D : Type} [Storage D]

/-- The part of a node that moves are about: not the timers, the replication progress, the pending
requests and the known leader. -/
structure Kernel (D : Type) [Storage D] where
  db : D
  id : NodeId
  peers : List NodeId
  currentTerm : Nat
  votedFor : Option NodeId
  log : List LogEntry
  commitIndex : Nat
  lastApplied : Nat
  role : Role
  votesReceived : Finset NodeId
  outbox : List Envelope
  logStore : RaftLogStore
  metaStore : RaftMeta
  crashPoints : List (CrashPoint D)

namespace RaftNode
variable [FloatText] [Bincode]

def kernel (n : RaftNode D) : Kernel D :=
  ⟨n.db, n.id, n.peers, n.currentTerm, n.votedFor, n.log, n.commitIndex, n.lastApplied, n.role,
    n.votesReceived, n.outbox, n.logStore, n.metaStore, n.crashPoints⟩

inductive Pushed (input : Input) (n : RaftNode D) : LogEntry → Prop
  | received {ae : AppendEntries} {e : LogEntry} (hi : input = .message (.appendEntries ae))
      (he : e ∈ ae.entries) : Pushed input n e
  | command {c : Command} (hr : n.role = .leader) :
      Pushed input n ⟨n.currentTerm, .command (LogRecord.new 0 c)⟩
  | addNode {id : NodeId} {addr : String} (hr : n.role = .leader)
      (hi : input = .message (.addNode id addr)) : Pushed input n ⟨n.currentTerm, .addNode id addr⟩
  | removeNode {id : NodeId} (hr : n.role = .leader)
      (hi : input = .message (.removeNode id)) : Pushed input n ⟨n.currentTerm, .removeNode id⟩

def startsElection (n : RaftNode D) (input : Input) (now : Instant) : Bool :=
  match input with
  | .message .timeout => true
  | .tick => n.role ≠ .leader ∧ n.electionDeadline ≤ now.ns
  | _ => false

/-- The node as a handler finds it, after standing for election if that is what it does first. -/
def opening (n : RaftNode D) (input : Input) (now : Instant) : RaftNode D :=
  let n' := { n with crashPoints := [] }
  if n.startsElection input now then n'.stand else n'

/-- The commit indices that `k` may be set to: a leader only goes up, a follower takes what an
AppendEntries says. -/
def Settles (input : Input) (n : RaftNode D) (k : Nat) : Prop :=
  (n.role = .leader ∧ n.commitIndex ≤ k) ∨
    ∃ ae, input = .message (.appendEntries ae) ∧ k = min ae.leaderCommit (n.log.length - 1)

def Input.term? : Input → Option Nat
  | .message (.requestVote r) => some r.term
  | .message (.requestVoteResponse r) => some r.term
  | .message (.appendEntries ae) => some ae.term
  | .message (.appendEntriesResponse r) => some r.term
  | _ => none

def Input.isAppend : Input → Bool
  | .message (.appendEntries _) => true
  | _ => false

/-- The envelopes a node may queue while it processes `input`, answers to clients aside. -/
inductive Posted (input : Input) (n : RaftNode D) : Envelope → Prop
  | appendEntries {dest : NodeId} {ae : AppendEntries} (hi : input.isAppend = false) (hr : n.role = .leader)
      (h : n.makeAppendEntries dest = some ae) : Posted input n (dest, .appendEntries ae)
  | requestVote {dest : NodeId} {request : RequestVote} (hr : n.role = .candidate)
      (hp : dest ∈ n.peers) (h : n.voteRequest = some request) :
      Posted input n (dest, .requestVote request)
  | voteResponse {request : RequestVote} {granted : Bool}
      (hi : input = .message (.requestVote request)) (hg : granted = true →
        n.currentTerm = request.term ∧ n.votedFor = some request.candidateId) :
      Posted input n (request.candidateId, .requestVoteResponse (n.voteResponse granted))
  | appendResponse {ae : AppendEntries} {response : AppendEntriesResponse}
      (hi : input = .message (.appendEntries ae)) (ht : response.term = n.currentTerm) :
      Posted input n (ae.leaderId, .appendEntriesResponse response)
  | forward {dest : NodeId} {m : Message} (hi : input = .message m)
      (hm : (∃ cmd, m = .clientCommand cmd) ∨ (∃ id addr, m = .addNode id addr) ∨
        ∃ id, m = .removeNode id) (hr : n.role ≠ .leader) (hl : n.leaderId = some dest) :
      Posted input n (dest, m)

/-- One act of a node that processes `input`. None of them changes the term. -/
inductive Act (input : Input) (now : Instant) : RaftNode D → RaftNode D → Prop
  | timers {n : RaftNode D} {election heartbeat : Nat}
      (he : election = n.electionDeadline ∨ election = now.ns + n.electionTimeout.getD (now.jitter * 1000000))
      (hh : heartbeat = n.heartbeatDeadline ∨ heartbeat = now.ns + 100000000) :
      Act input now n { n with electionDeadline := election, heartbeatDeadline := heartbeat }
  | track {n : RaftNode D} (hr : n.role = .leader) (nextIndex matchIndex : AList fun _ : NodeId => Nat) :
      Act input now n { n with nextIndex := nextIndex, matchIndex := matchIndex }
  | post {n : RaftNode D} {e : Envelope} (h : Posted input n e) :
      Act input now n { n with outbox := n.outbox ++ [e] }
  | respond {n : RaftNode D} (responder : Responder) (success : Bool) (value : Option Value)
      (message : String) (leader : Option NodeId) :
      Act input now n (n.respond responder success value message leader n.currentTerm)
  | wait {n : RaftNode D} (hr : n.role = .leader) (index : Nat) (responder : Responder) :
      Act input now n { n with
        pendingRequests := n.pendingRequests.insert (index, n.currentTerm) responder }
  | follow {n : RaftNode D} {ae : AppendEntries} (hi : input = .message (.appendEntries ae))
      (ht : n.currentTerm = ae.term) : Act input now n (n.followLeader ae.leaderId now)
  | count {n : RaftNode D} {r : RequestVoteResponse} (hi : input = .message (.requestVoteResponse r))
      (hr : n.role = .candidate) (ht : r.term = n.currentTerm) (hg : r.voteGranted = true) :
      Act input now n { n with votesReceived := insert r.voterId n.votesReceived }
  | lead {n : RaftNode D} (hr : n.role = .candidate) (hq : n.majority ≤ n.votesReceived.card) :
      Act input now n { n with role := .leader, leaderId := some n.id }
  | grant {n : RaftNode D} {request : RequestVote} (hi : input = .message (.requestVote request))
      (ht : n.currentTerm = request.term)
      (hv : n.votedFor = none ∨ n.votedFor = some request.candidateId) :
      Act input now n (n.grantVote request.candidateId now)
  | push {n : RaftNode D} {e : LogEntry} (h : Pushed input n e) : Act input now n (n.pushLogEntry e)
  | replace {n : RaftNode D} {e old : LogEntry} {i : Nat} (h : Pushed input n e) (hi : 0 < i)
      (hold : n.log[i]? = some old) (hne : old.term ≠ e.term)
      (ha : ∃ ae, input = .message (.appendEntries ae)) :
      Act input now n ((n.truncateLog i).pushLogEntry e)
  | settle {n n' : RaftNode D} {k : Nat} (hr : n.role ≠ .candidate)
      (hk : k = n.commitIndex ∨ k ≤ n.log.length - 1) (hc : Settles input n k)
      (hs : ({ n with commitIndex := k }).persistMeta.applyCommittedEntries = some n') :
      Act input now n n'

abbrev Acts (input : Input) (now : Instant) : RaftNode D → RaftNode D → Prop :=
  Relation.ReflTransGen (Act input now)

def Observed (input : Input) (now : Instant) (n b : RaftNode D) : Prop :=
  b = n ∨ ∃ t, input.term? = some t ∧ n.currentTerm < t ∧ b = n.stepDown t now

end RaftNode

open RaftNode

section Apply
variable {n n' : RaftNode D}

def RaftNode.peersAfter (n : RaftNode D) : EntryPayload → List NodeId
  | .addNode id _ => if id ≠ n.id ∧ id ∉ n.peers then n.peers ++ [id] else n.peers
  | .removeNode id => n.peers.filter (· ≠ id)
  | .command _ => n.peers

def RaftNode.dbAfter (n : RaftNode D) : EntryPayload → D
  | .command r => (Storage.run n.db r.command).2
  | _ => n.db

theorem applyPayload_kernel (n : RaftNode D) (p : EntryPayload) :
    ∃ points, (n.applyPayload p).2.kernel = { n.kernel with
      db := n.dbAfter p
      peers := n.peersAfter p
      crashPoints := n.crashPoints ++ points } ∧
    ∀ point ∈ points, point = ⟨{ n.dir with db := Storage.disk (n.dbAfter p) }, n.log⟩ := by
  cases p with
  | command r => exact ⟨[_], rfl, fun point h => List.mem_singleton.mp h⟩
  | addNode id addr => exact ⟨[], by rw [List.append_nil]; rfl, fun point h => nomatch h⟩
  | removeNode id => exact ⟨[], by rw [List.append_nil]; rfl, fun point h => nomatch h⟩

theorem resolvePending_kernel (n : RaftNode D) (index term : Nat) (result : Except Fault Unit) :
    (n.resolvePending index term result).kernel =
      { n.kernel with outbox := (n.resolvePending index term result).outbox } ∧
    ∀ e ∈ (n.resolvePending index term result).outbox, e ∈ n.outbox ∨ e.isResponse := by
  unfold RaftNode.resolvePending
  cases n.pendingRequests.lookup (index, term) with
  | none => exact ⟨rfl, fun e he => Or.inl he⟩
  | some responder => exact ⟨rfl, Responder.send_outbox responder _ _ _ _ _ _ _ _ _⟩

theorem applyNext_kernel (hs : n.applyNext = some n') :
    ∃ e points, n.log[n.lastApplied + 1]? = some e ∧
      n'.kernel = { n.kernel with
        db := n.dbAfter e.payload
        peers := n.peersAfter e.payload
        lastApplied := n.lastApplied + 1
        outbox := n'.outbox
        crashPoints := n.crashPoints ++ points } ∧
      (∀ point ∈ points, point = ⟨{ n.dir with db := Storage.disk (n.dbAfter e.payload) }, n.log⟩) ∧
      ∀ x ∈ n'.outbox, x ∈ n.outbox ∨ x.isResponse := by
  obtain ⟨e, he, rfl⟩ := applyNext_eq_some hs
  obtain ⟨points, hk, hpoints⟩ := applyPayload_kernel n e.payload
  have hout : (n.applyPayload e.payload).2.outbox = n.outbox := congrArg Kernel.outbox hk
  generalize n.applyPayload e.payload = p at hk hout ⊢
  obtain ⟨result, b⟩ := p
  dsimp only at hk hout ⊢
  obtain ⟨hres, hmem⟩ := resolvePending_kernel ({ b with lastApplied := n.lastApplied + 1 })
    (n.lastApplied + 1) e.term result
  refine ⟨e, points, he, ?_, hpoints, fun x hx => hout ▸ hmem x hx⟩
  rw [hres]
  exact congrArg (fun k : Kernel D => { k with
    lastApplied := n.lastApplied + 1
    outbox := (({ b with lastApplied := n.lastApplied + 1 } : RaftNode D).resolvePending
      (n.lastApplied + 1) e.term result).outbox }) hk

theorem applyLoop_induct {I : RaftNode D → Prop} {k : Nat} (hk : n.lastApplied + k ≤ n.commitIndex)
    (hs : n.applyLoop k = some n') (h0 : I n)
    (hstep : ∀ b b', I b → b.role = n.role → b.lastApplied < b.commitIndex →
      b.applyNext = some b' → I b') :
    I n' ∧ n'.lastApplied = n.lastApplied + k ∧ n'.commitIndex = n.commitIndex := by
  induction k generalizing n with
  | zero =>
    obtain rfl := Option.some.inj hs
    exact ⟨h0, rfl, rfl⟩
  | succ k ih =>
    obtain ⟨b, hb, hrest⟩ := Option.bind_eq_some_iff.mp hs
    obtain ⟨e, points, -, hkernel, -⟩ := applyNext_kernel hb
    have happ : b.lastApplied = n.lastApplied + 1 := congrArg Kernel.lastApplied hkernel
    have hcom : b.commitIndex = n.commitIndex := congrArg Kernel.commitIndex hkernel
    have hrole : b.role = n.role := congrArg Kernel.role hkernel
    obtain ⟨h1, h2, h3⟩ := ih (by omega) hrest (hstep n b h0 rfl (by omega) hb)
      fun c c' hc hr => hstep c c' hc (hr.trans hrole)
    exact ⟨h1, by omega, by omega⟩

/-- The apply loop keeps what each of its rounds keeps, and goes up to the commit index. -/
theorem applyCommittedEntries_induct {I : RaftNode D → Prop}
    (hs : n.applyCommittedEntries = some n') (h0 : I n)
    (hstep : ∀ b b', I b → b.role = n.role → b.lastApplied < b.commitIndex →
      b.applyNext = some b' → I b') :
    I n' ∧ n'.lastApplied = max n.lastApplied n.commitIndex ∧ n'.commitIndex = n.commitIndex := by
  by_cases hle : n.commitIndex ≤ n.lastApplied
  · rw [RaftNode.applyCommittedEntries, Nat.sub_eq_zero_of_le hle] at hs
    obtain rfl := Option.some.inj hs
    exact ⟨h0, by omega, rfl⟩
  · obtain ⟨h1, h2, h3⟩ := applyLoop_induct (by omega) hs h0 hstep
    exact ⟨h1, by omega, h3⟩

end Apply

section Replication
variable [FloatText] [Bincode] (input : Input) (now : Instant) {n n' : RaftNode D}

theorem sendAppendEntries_acts (hi : input.isAppend = false) {p : NodeId} (hr : n.role = .leader)
    (hs : n.sendAppendEntries p = some n') : Acts input now n n' ∧ n'.role = .leader := by
  obtain ⟨ae, hae, rfl⟩ := sendAppendEntries_eq_some hs
  exact ⟨.single (.post (.appendEntries hi hr hae)), hr⟩

/-- The same loop over the peers is behind heartbeats and the first messages of a new leader. -/
theorem foldlM_acts {f : RaftNode D → NodeId → Option (RaftNode D)} {ps : List NodeId} (hr : n.role = .leader)
    (hs : ps.foldlM f n = some n')
    (hf : ∀ b p b', b.role = .leader → f b p = some b' → Acts input now b b' ∧ b'.role = .leader) :
    Acts input now n n' ∧ n'.role = .leader := by
  refine Fold.foldlM_invariant (P := fun b => Acts input now n b ∧ b.role = .leader) hs ⟨.refl, hr⟩ ?_
  rintro b p b' - ⟨hacts, hrole⟩ hb
  obtain ⟨hacts', hrole'⟩ := hf b p b' hrole hb
  exact ⟨hacts.trans hacts', hrole'⟩

theorem sendHeartbeats_acts (hi : input.isAppend = false) (hr : n.role = .leader) (hs : n.sendHeartbeats = some n') :
    Acts input now n n' ∧ n'.role = .leader :=
  foldlM_acts input now hr hs fun _ _ _ hb h => sendAppendEntries_acts input now hi hb h

theorem becomeLeader_acts (hi : input.isAppend = false) (hr : n.role = .candidate)
    (hq : n.majority ≤ n.votesReceived.card) (hs : n.becomeLeader now = some n') : Acts input now n n' := by
  obtain ⟨b, hb, hn'⟩ := Option.bind_eq_some_iff.mp hs
  obtain rfl := Option.some.inj hn'
  have hloop : Acts input now { n with role := .leader, leaderId := some n.id } b := by
    refine (foldlM_acts input now rfl hb ?_).1
    intro c p c' hc hs
    obtain ⟨hsend, hrole⟩ := sendAppendEntries_acts input now hi (by exact hc) hs
    exact ⟨.head (.track hc _ _) hsend, hrole⟩
  exact .head (.lead hr hq) (.tail hloop (.timers (.inl rfl) (.inr rfl)))

omit [FloatText] [Bincode] in
theorem commitAt_le (n : RaftNode D) {commit : Nat}
    (hc : commit = n.commitIndex ∨ commit ≤ n.log.length - 1) (i : Nat) :
    n.commitAt commit i = n.commitIndex ∨ n.commitAt commit i ≤ n.log.length - 1 := by
  rw [RaftNode.commitAt]
  cases he : n.log[i]? with
  | none => exact hc
  | some e =>
    have hlt := (List.getElem?_eq_some_iff.mp he).1
    dsimp only
    split_ifs
    · exact hc
    · exact Or.inr (by omega)
    · exact hc

omit [FloatText] [Bincode] in
theorem RaftNode.commitIndex_le_foldl (n : RaftNode D) : n.commitIndex ≤
    (List.range' (n.commitIndex + 1) (n.log.length - (n.commitIndex + 1))).foldl n.commitAt n.commitIndex := by
  have hgen : ∀ (is : List Nat) (k : Nat), (∀ i ∈ is, n.commitIndex ≤ i) → n.commitIndex ≤ k →
      n.commitIndex ≤ is.foldl n.commitAt k := by
    intro is
    induction is with
    | nil => exact fun k _ hk => hk
    | cons i is ih =>
      intro k his hk
      refine ih _ (fun j hj => his j (List.mem_cons_of_mem _ hj)) ?_
      rw [RaftNode.commitAt]
      split
      · exact hk
      · split_ifs
        · exact hk
        · exact his i (List.mem_cons_self ..)
        · exact hk
  refine hgen _ _ (fun i hi => ?_) le_rfl
  have := (List.mem_range'_1.mp hi).1
  omega

omit [FloatText] [Bincode] in
theorem foldl_commitAt_le (n : RaftNode D) (is : List Nat) {k : Nat}
    (hk : k = n.commitIndex ∨ k ≤ n.log.length - 1) :
    is.foldl n.commitAt k = n.commitIndex ∨ is.foldl n.commitAt k ≤ n.log.length - 1 := by
  induction is generalizing k with
  | nil => exact hk
  | cons i is ih => exact ih (commitAt_le n hk i)

theorem updateCommitIndex_acts (hr : n.role = .leader) (hs : n.updateCommitIndex = some n') :
    Acts input now n n' :=
  .single (.settle (fun hc => nomatch hr.symm.trans hc) (foldl_commitAt_le n _ (Or.inl rfl))
    (Or.inl ⟨hr, n.commitIndex_le_foldl⟩) hs)

theorem replicate_acts (hi : input.isAppend = false) (hr : n.role = .leader) (hs : n.replicate = some n') :
    Acts input now n n' := by
  rw [RaftNode.replicate] at hs
  split_ifs at hs
  · exact updateCommitIndex_acts input now hr hs
  · exact (sendHeartbeats_acts input now hi hr hs).1

theorem appendCommand_acts (hi : input.isAppend = false) {c : Command} {index : Nat}
    (hs : n.appendCommand c = some (n', index)) :
    Acts input now n n' := by
  simp only [RaftNode.appendCommand, Option.bind_eq_bind, Option.bind_eq_some_iff,
    Option.guard_eq_some', Option.pure_def, Option.some.injEq, Prod.mk.injEq] at hs
  obtain ⟨-, hr, b, hb, rfl, -⟩ := hs
  exact .head (.push (.command hr)) (replicate_acts input now hi (by exact hr) hb)

theorem appendMembershipChange_acts (hi : input.isAppend = false) {payload : EntryPayload}
    (hp : n.role = .leader → Pushed input n ⟨n.currentTerm, payload⟩)
    (hs : n.appendMembershipChange payload = some n') : Acts input now n n' := by
  rw [RaftNode.appendMembershipChange] at hs
  split_ifs at hs with hr
  · exact Option.some.inj hs ▸ .refl
  · have hlead : n.role = .leader := not_not.mp hr
    exact .head (.push (hp hlead)) (replicate_acts input now hi (by exact hlead) hs)

theorem appendLoop_acts {ae : AppendEntries} (hi : input = .message (.appendEntries ae))
    (es : List LogEntry) (hes : ∀ e ∈ es, e ∈ ae.entries) {i : Nat} (hpos : 0 < i) :
    Acts input now n (n.appendLoop i es) := by
  induction es generalizing n i with
  | nil => exact .refl
  | cons e es ih =>
    have hrest : ∀ e ∈ es, e ∈ ae.entries := fun x hx => hes x (List.mem_cons_of_mem _ hx)
    have hpush : ∀ {b : RaftNode D}, Pushed input b e := .received hi (hes e (List.mem_cons_self ..))
    rw [RaftNode.appendLoop]
    cases hold : n.log[i]? with
    | none => exact .head (.push hpush) (ih hrest (Nat.succ_pos i))
    | some old =>
      dsimp only
      split_ifs with hne
      · exact .head (.replace hpush hpos hold hne ⟨ae, hi⟩) (ih hrest (Nat.succ_pos i))
      · exact ih hrest (Nat.succ_pos i)

variable {input} in
omit [FloatText] [Bincode] in
theorem observed_observeTerm {t : Nat} (hi : input.term? = some t) :
    Observed input now n (n.observeTerm t now) := by
  rw [RaftNode.observeTerm]
  split_ifs with ht
  · exact Or.inr ⟨t, hi, ht, rfl⟩
  · exact Or.inl rfl

theorem handleAppendEntries_acts {ae : AppendEntries} (hi : input = .message (.appendEntries ae))
    {response : AppendEntriesResponse} (hs : n.handleAppendEntries ae now = some (n', response)) :
    ∃ b, Observed input now n b ∧ Acts input now b n' ∧ response.term = n'.currentTerm := by
  simp only [RaftNode.handleAppendEntries] at hs
  split_ifs at hs with h1
  · obtain ⟨rfl, rfl⟩ := Prod.mk.inj (Option.some.inj hs)
    exact ⟨n, Or.inl rfl, .refl, rfl⟩
  have hterm := observeTerm_currentTerm (n := n) (t := ae.term) (by omega) now
  refine ⟨_, observed_observeTerm now (by rw [hi]; rfl), ?_⟩
  have hfollow : Act input now (n.observeTerm ae.term now)
      ((n.observeTerm ae.term now).followLeader ae.leaderId now) := .follow hi hterm
  have hrole : ((n.observeTerm ae.term now).followLeader ae.leaderId now).role = .follower := rfl
  generalize (n.observeTerm ae.term now).followLeader ae.leaderId now = b at hs hrole hfollow
  split at hs
  · obtain ⟨rfl, rfl⟩ := Prod.mk.inj (Option.some.inj hs)
    exact ⟨.single hfollow, rfl⟩
  · split_ifs at hs
    · obtain ⟨rfl, rfl⟩ := Prod.mk.inj (Option.some.inj hs)
      exact ⟨.single hfollow, rfl⟩
    · obtain ⟨c, hc, hres⟩ := Option.map_eq_some_iff.mp hs
      obtain ⟨rfl, rfl⟩ := Prod.mk.inj hres
      have hloop : (b.appendLoop (ae.prevLogIndex + 1) ae.entries).role ≠ .candidate := by
        rw [show (b.appendLoop _ _).role = b.role from congrArg Core.role (b.appendLoop_core _ _).1,
          hrole]
        exact fun h => nomatch h
      have happend := appendLoop_acts input now hi (n := b) ae.entries (fun _ h => h) (Nat.succ_pos ae.prevLogIndex)
      have hsettle : Act input now (b.appendLoop (ae.prevLogIndex + 1) ae.entries) c :=
        .settle hloop (Or.inr (min_le_right _ _)) (Or.inr ⟨ae, hi, rfl⟩) hc
      exact ⟨.head hfollow (.tail happend hsettle), rfl⟩

theorem handleAppendEntriesResponse_acts {r : AppendEntriesResponse}
    (hi : input = .message (.appendEntriesResponse r))
    (hs : n.handleAppendEntriesResponse r now = some n') :
    ∃ b, Observed input now n b ∧ Acts input now b n' := by
  simp only [RaftNode.handleAppendEntriesResponse] at hs
  split_ifs at hs with h1 h2 h3 h4
  · exact ⟨n', Or.inr ⟨r.term, by rw [hi]; rfl, h1, (Option.some.inj hs).symm⟩, .refl⟩
  all_goals refine ⟨n, Or.inl rfl, ?_⟩
  · exact Option.some.inj hs ▸ .refl
  · exact Option.some.inj hs ▸ .refl
  all_goals
    have hr : n.role = .leader := not_not.mp h2
    have happ : input.isAppend = false := by rw [hi]; rfl
  · exact .head (.track hr _ _) (updateCommitIndex_acts input now (by exact hr) hs)
  · obtain ⟨next, -, hs⟩ := Option.bind_eq_some_iff.mp hs
    split_ifs at hs with h5
    · exact .head (.track hr _ n.matchIndex) (sendAppendEntries_acts input now happ (by exact hr) hs).1
    · exact (sendAppendEntries_acts input now happ hr hs).1

end Replication

section Elections
variable [FloatText] [Bincode] (input : Input) (now : Instant) {n n' : RaftNode D}

theorem requestVotes_acts (hr : n.role = .candidate) (hs : n.requestVotes now = some n') :
    Acts input now n n' := by
  obtain ⟨request, hreq, hn'⟩ := Option.bind_eq_some_iff.mp hs
  obtain rfl := Option.some.inj hn'
  have hsend : ∀ (ps : List NodeId) (c : RaftNode D), (∀ p ∈ ps, p ∈ c.peers) →
      c.role = .candidate → c.voteRequest = some request → Acts input now c
        { c with outbox := c.outbox ++ ps.map fun p => (p, .requestVote request) } := by
    intro ps
    induction ps with
    | nil =>
      intro c _ _ _
      simpa using Relation.ReflTransGen.refl
    | cons p ps ih =>
      intro c hps hc hreq
      have hfirst : Act input now c { c with outbox := c.outbox ++ [(p, .requestVote request)] } :=
        .post (.requestVote hc (hps p (List.mem_cons_self ..)) hreq)
      refine .head hfirst ?_
      have hrest := ih { c with outbox := c.outbox ++ [(p, .requestVote request)] }
        (fun q hq => hps q (List.mem_cons_of_mem _ hq)) hc hreq
      simpa only [List.append_assoc, List.singleton_append, List.map_cons] using hrest
  exact .head (.timers (.inr rfl) (.inl rfl)) (hsend _ _ (fun _ h => h) hr hreq)

theorem startElection_acts (hi : input.isAppend = false) (hs : n.startElection now = some n') :
    Acts input now n.stand n' := by
  simp only [RaftNode.startElection] at hs
  split_ifs at hs with hq
  · exact becomeLeader_acts input now hi rfl hq hs
  · exact requestVotes_acts input now rfl hs

theorem handleVoteResponse_acts {r : RequestVoteResponse}
    (hi : input = .message (.requestVoteResponse r)) (hs : n.handleVoteResponse r now = some n') :
    ∃ b, Observed input now n b ∧ Acts input now b n' := by
  simp only [RaftNode.handleVoteResponse] at hs
  split_ifs at hs with h1 h2 h3 h4 h5 h5
  · exact ⟨n', Or.inr ⟨r.term, by rw [hi]; rfl, h1, (Option.some.inj hs).symm⟩, .refl⟩
  all_goals refine ⟨n, Or.inl rfl, ?_⟩
  · exact Option.some.inj hs ▸ .refl
  · exact Option.some.inj hs ▸ .refl
  all_goals
    have hr : n.role = .candidate := not_not.mp h3
    have ht : r.term = n.currentTerm := by omega
    have happ : input.isAppend = false := by rw [hi]; rfl
  · exact .head (.count hi hr ht h4) (becomeLeader_acts input now happ (by exact hr) h5 hs)
  · exact Option.some.inj hs ▸ .single (.count hi hr ht h4)
  · exact becomeLeader_acts input now happ hr h5 hs
  · exact Option.some.inj hs ▸ .refl

theorem handleRequestVote_acts {request : RequestVote} (hi : input = .message (.requestVote request))
    {response : RequestVoteResponse} (hs : n.handleRequestVote request now = some (n', response)) :
    ∃ b, Observed input now n b ∧ Acts input now b n' ∧ ∃ granted, response = n'.voteResponse granted ∧
      (granted = true → n'.currentTerm = request.term ∧ n'.votedFor = some request.candidateId) := by
  rw [RaftNode.handleRequestVote] at hs
  split_ifs at hs with h1
  · obtain ⟨rfl, rfl⟩ := Prod.mk.inj (Option.some.inj hs)
    exact ⟨n, Or.inl rfl, .refl, false, rfl, fun h => Bool.noConfusion h⟩
  have hterm := observeTerm_currentTerm (n := n) (t := request.term) (by omega) now
  refine ⟨_, observed_observeTerm now (by rw [hi]; rfl), ?_⟩
  dsimp only at hs
  generalize n.observeTerm request.term now = b at hs hterm
  split_ifs at hs with h2
  · obtain ⟨rfl, rfl⟩ := Prod.mk.inj (Option.some.inj hs)
    exact ⟨.refl, false, rfl, fun h => Bool.noConfusion h⟩
  obtain ⟨last, -, hs⟩ := Option.bind_eq_some_iff.mp hs
  split_ifs at hs with h3
  · obtain ⟨rfl, rfl⟩ := Prod.mk.inj (Option.some.inj hs)
    exact ⟨.refl, false, rfl, fun h => Bool.noConfusion h⟩
  obtain ⟨rfl, rfl⟩ := Prod.mk.inj (Option.some.inj hs)
  have hv : b.votedFor = none ∨ b.votedFor = some request.candidateId := by
    cases hv : b.votedFor with
    | none => exact Or.inl rfl
    | some c =>
      rw [hv] at h2
      exact Or.inr (congrArg some (by simpa using h2))
  exact ⟨.single (.grant hi hterm hv), true, rfl, fun _ => ⟨hterm, rfl⟩⟩

end Elections

section Frame
variable {input : Input} {now : Instant} {n n' : RaftNode D}

theorem applyCommittedEntries_frame (hs : n.applyCommittedEntries = some n') :
    n'.id = n.id ∧ n'.currentTerm = n.currentTerm ∧ n'.role = n.role ∧ n'.log = n.log ∧
      n'.votedFor = n.votedFor := by
  refine (applyCommittedEntries_induct (I := fun b => b.id = n.id ∧ b.currentTerm = n.currentTerm ∧
    b.role = n.role ∧ b.log = n.log ∧ b.votedFor = n.votedFor) hs ⟨rfl, rfl, rfl, rfl, rfl⟩ ?_).1
  rintro b b' ⟨hid, hterm, hrole, hlog, hvote⟩ _ _ happ
  obtain ⟨e, points, -, hk, -⟩ := applyNext_kernel happ
  exact ⟨(congrArg Kernel.id hk).trans hid, (congrArg Kernel.currentTerm hk).trans hterm,
    (congrArg Kernel.role hk).trans hrole, (congrArg Kernel.log hk).trans hlog,
    (congrArg Kernel.votedFor hk).trans hvote⟩

variable [FloatText] [Bincode]

theorem RaftNode.Act.id_eq (ha : Act input now n n') : n'.id = n.id := by
  cases ha with
  | settle _ _ _ hs => exact (applyCommittedEntries_frame hs).1
  | _ => rfl

theorem RaftNode.Act.currentTerm_eq (ha : Act input now n n') : n'.currentTerm = n.currentTerm := by
  cases ha with
  | settle _ _ _ hs => exact (applyCommittedEntries_frame hs).2.1
  | _ => rfl

theorem RaftNode.Acts.currentTerm_eq (ha : Acts input now n n') : n'.currentTerm = n.currentTerm := by
  induction ha with
  | refl => rfl
  | tail _ hlast ih => exact hlast.currentTerm_eq.trans ih

theorem RaftNode.Acts.id_eq (ha : Acts input now n n') : n'.id = n.id := by
  induction ha with
  | refl => rfl
  | tail _ hlast ih => exact hlast.id_eq.trans ih

/-- A vote changes only when a vote request is answered, and a vote that was cast stays. -/
theorem RaftNode.Act.votedFor_cases (ha : Act input now n n') : n'.votedFor = n.votedFor ∨
    ∃ r, input = .message (.requestVote r) ∧ n'.votedFor = some r.candidateId ∧
      (n.votedFor = none ∨ n.votedFor = some r.candidateId) := by
  cases ha with
  | grant hi ht hv => exact Or.inr ⟨_, hi, rfl, hv⟩
  | settle _ _ _ hs => exact Or.inl (applyCommittedEntries_frame hs).2.2.2.2
  | _ => exact Or.inl rfl

theorem RaftNode.Act.votedFor_keep (ha : Act input now n n') {c : NodeId} (hv : n.votedFor = some c) :
    n'.votedFor = some c := by
  rcases ha.votedFor_cases with h | ⟨r, -, h, hr | hr⟩
  · exact h.trans hv
  · exact nomatch hr.symm.trans hv
  · exact h.trans (hr.symm.trans hv)

theorem RaftNode.Acts.votedFor_keep (ha : Acts input now n n') {c : NodeId} (hv : n.votedFor = some c) :
    n'.votedFor = some c := by
  induction ha with
  | refl => exact hv
  | tail _ hlast ih => exact hlast.votedFor_keep ih

omit [FloatText] [Bincode] in
theorem replicate_frame (hs : n.replicate = some n') :
    n'.currentTerm = n.currentTerm ∧ n'.role = n.role ∧ n'.log = n.log := by
  rw [RaftNode.replicate] at hs
  split_ifs at hs
  · obtain ⟨-, hterm, hrole, hlog, -⟩ := applyCommittedEntries_frame hs
    exact ⟨hterm, hrole, hlog⟩
  · refine Fold.foldlM_invariant (P := fun b => b.currentTerm = n.currentTerm ∧ b.role = n.role ∧
      b.log = n.log) hs ⟨rfl, rfl, rfl⟩ ?_
    rintro b p b' - hb hsend
    obtain ⟨ae, -, rfl⟩ := sendAppendEntries_eq_some hsend
    exact hb

omit [FloatText] [Bincode] in
theorem replicate_log (hs : n.replicate = some n') : n'.log = n.log := (replicate_frame hs).2.2

theorem appendCommand_log {c : Command} {index : Nat} (hs : n.appendCommand c = some (n', index)) :
    index = n.log.length ∧ n'.log = n.log ++ [⟨n.currentTerm, .command (LogRecord.new 0 c)⟩] := by
  simp only [RaftNode.appendCommand, Option.bind_eq_bind, Option.bind_eq_some_iff,
    Option.guard_eq_some', Option.pure_def, Option.some.injEq, Prod.mk.injEq] at hs
  obtain ⟨-, -, b, hb, rfl, rfl⟩ := hs
  exact ⟨rfl, replicate_log hb⟩

theorem appendCommand_entry {c : Command} {index : Nat} {e : LogEntry}
    (hs : n.appendCommand c = some (n', index)) (he : n'.log[index]? = some e) :
    n'.role = .leader ∧ e.term = n'.currentTerm := by
  obtain ⟨rfl, hlog⟩ := appendCommand_log hs
  simp only [RaftNode.appendCommand, Option.bind_eq_bind, Option.bind_eq_some_iff,
    Option.guard_eq_some', Option.pure_def, Option.some.injEq, Prod.mk.injEq] at hs
  obtain ⟨-, hr, b, hb, rfl, -⟩ := hs
  obtain ⟨hterm, hrole, -⟩ := replicate_frame hb
  rw [hlog, List.getElem?_append_right le_rfl, Nat.sub_self] at he
  obtain rfl := Option.some.inj he
  exact ⟨hrole.trans hr, hterm.symm⟩

end Frame

section Process
variable [FloatText] [Bincode] (input : Input) (now : Instant) {n n' : RaftNode D}

theorem submitStoreWrite_acts (hi : input.isAppend = false) {command : Command} {r : Responder}
    (hs : n.submitStoreWrite command r = some n') : Acts input now n n' := by
  simp only [RaftNode.submitStoreWrite] at hs
  split_ifs at hs
  · obtain rfl := Option.some.inj hs
    exact .single (.respond ..)
  · obtain ⟨⟨b, index⟩, hb, hs⟩ := Option.bind_eq_some_iff.mp hs
    obtain ⟨entry, hentry, hs⟩ := Option.bind_eq_some_iff.mp hs
    obtain ⟨hrole, hterm⟩ := appendCommand_entry hb hentry
    rw [hterm] at hs
    refine .trans (appendCommand_acts input now hi hb) ?_
    split_ifs at hs
    · obtain rfl := Option.some.inj hs
      exact .single (.respond ..)
    · obtain rfl := Option.some.inj hs
      exact .single (.wait hrole index r)

theorem handleStoreRequest_acts (hi : input.isAppend = false) (request : StoreRequest)
    (hs : n.handleStoreRequest request = some n') : Acts input now n n' := by
  unfold RaftNode.handleStoreRequest at hs
  split at hs
  · exact submitStoreWrite_acts input now hi hs
  · exact submitStoreWrite_acts input now hi hs
  · obtain rfl := Option.some.inj hs
    exact .single (.respond ..)
  · obtain rfl := Option.some.inj hs
    exact .single (.respond ..)

theorem forward_acts {m : Message} (hi : input = .message m) (hm : (∃ cmd, m = .clientCommand cmd) ∨
    (∃ id addr, m = .addNode id addr) ∨ ∃ id, m = .removeNode id) (hr : n.role ≠ .leader) :
    Acts input now n (n.forward m) := by
  unfold RaftNode.forward
  split
  · next leader hl => exact .single (.post (.forward hi hm hr hl))
  · exact .refl

theorem handleMessage_acts {m : Message} (hi : input = .message m) (hm : m ≠ .timeout)
    (hs : n.handleMessage m now = some n') : ∃ b, Observed input now n b ∧ Acts input now b n' := by
  cases m with
  | requestVote request =>
    obtain ⟨⟨b, response⟩, hb, rfl⟩ := Option.map_eq_some_iff.mp hs
    obtain ⟨c, hc, hacts, granted, rfl, hg⟩ := handleRequestVote_acts input now hi hb
    exact ⟨c, hc, .tail hacts (.post (.voteResponse hi hg))⟩
  | requestVoteResponse response => exact handleVoteResponse_acts input now hi hs
  | appendEntries entries =>
    obtain ⟨⟨b, response⟩, hb, rfl⟩ := Option.map_eq_some_iff.mp hs
    obtain ⟨c, hc, hacts, hterm⟩ := handleAppendEntries_acts input now hi hb
    exact ⟨c, hc, .tail hacts (.post (.appendResponse hi hterm))⟩
  | appendEntriesResponse response => exact handleAppendEntriesResponse_acts input now hi hs
  | clientCommand cmd =>
    refine ⟨n, Or.inl rfl, ?_⟩
    simp only [RaftNode.handleMessage] at hs
    split_ifs at hs with hr
    · obtain ⟨⟨b, index⟩, hb, rfl⟩ := Option.map_eq_some_iff.mp hs
      exact appendCommand_acts input now (by rw [hi]; rfl) hb
    · exact Option.some.inj hs ▸ forward_acts input now hi (Or.inl ⟨cmd, rfl⟩) hr
  | clientRequest => exact ⟨n, Or.inl rfl, handleStoreRequest_acts input now (by rw [hi]; rfl) _ hs⟩
  | clientQuery requestId clientId key =>
    exact ⟨n, Or.inl rfl,
      handleStoreRequest_acts input now (by rw [hi]; rfl) ⟨.get key, .raftClient clientId requestId⟩ hs⟩
  | statusQuery requestId clientId =>
    exact ⟨n, Or.inl rfl,
      handleStoreRequest_acts input now (by rw [hi]; rfl) ⟨.status, .raftClient clientId requestId⟩ hs⟩
  | addNode id addr =>
    refine ⟨n, Or.inl rfl, ?_⟩
    simp only [RaftNode.handleMessage] at hs
    split_ifs at hs with hr
    · exact Option.some.inj hs ▸ forward_acts input now hi (Or.inr (Or.inl ⟨id, addr, rfl⟩)) hr
    · exact appendMembershipChange_acts input now (by rw [hi]; rfl) (fun hr => .addNode hr hi) hs
  | removeNode id =>
    refine ⟨n, Or.inl rfl, ?_⟩
    simp only [RaftNode.handleMessage] at hs
    split_ifs at hs with hr
    · exact Option.some.inj hs ▸ forward_acts input now hi (Or.inr (Or.inr ⟨id, rfl⟩)) hr
    · exact appendMembershipChange_acts input now (by rw [hi]; rfl) (fun hr => .removeNode hr hi) hs
  | clientResponse => exact ⟨n, Or.inl rfl, Option.some.inj hs ▸ .refl⟩
  | timeout => exact absurd rfl hm

/-- Every call of a handler: a new term first, by an election or from the message, and then acts. -/
theorem process_acts (hs : n.process input now = some n') :
    ∃ b, Observed input now (n.opening input now) b ∧ Acts input now b n' := by
  unfold RaftNode.opening RaftNode.startsElection
  cases input with
  | message m =>
    by_cases hm : m = .timeout
    · subst hm
      exact ⟨_, Or.inl rfl, startElection_acts _ now rfl hs⟩
    · have hno : (match Input.message m with
          | .message .timeout => true
          | .tick => decide (n.role ≠ .leader ∧ n.electionDeadline ≤ now.ns)
          | _ => false) = false := by
        cases m <;> first | rfl | exact absurd rfl hm
      rw [hno]
      exact handleMessage_acts _ now rfl hm hs
  | request r => exact ⟨_, Or.inl rfl, handleStoreRequest_acts _ now rfl r hs⟩
  | tick =>
    refine ⟨_, Or.inl rfl, ?_⟩
    simp only [RaftNode.process, RaftNode.tick] at hs
    split at hs
    · next hr =>
      rw [if_neg (by simp [hr])]
      split_ifs at hs
      · obtain ⟨b, hb, rfl⟩ := Option.map_eq_some_iff.mp hs
        exact .tail (sendHeartbeats_acts _ now rfl (by exact hr) hb).1 (.timers (.inl rfl) (.inr rfl))
      · exact Option.some.inj hs ▸ .refl
    · next hr =>
      split_ifs at hs with hd
      · rw [if_pos (by simpa using ⟨hr, hd⟩)]
        exact startElection_acts _ now rfl hs
      · rw [if_neg (by simp [hd])]
        exact Option.some.inj hs ▸ .refl

theorem process_id (hs : n.process input now = some n') : n'.id = n.id := by
  have hopen : (n.opening input now).id = n.id := by
    unfold RaftNode.opening
    dsimp only
    split_ifs
    · rfl
    · rfl
  obtain ⟨b, hb, hacts⟩ := process_acts input now hs
  rcases hb with rfl | ⟨t, -, -, rfl⟩
  · exact hacts.id_eq.trans hopen
  · exact hacts.id_eq.trans hopen

end Process
end KvRaft
