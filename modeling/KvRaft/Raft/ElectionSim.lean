import KvRaft.Raft.HandlerSim

/-! The election handlers against the abstract replicated log. -/

namespace KvRaft
open ReplicatedLog

variable {M : Membership} {D : Type} [Storage D] {config : Config}
  {id : NodeId} {a : State NodeId LogEntry} {n n' : RaftNode D}

section Queue

theorem makeAppendEntries_eq_some {peer : NodeId} {ae : AppendEntries}
    (h : n.makeAppendEntries peer = some ae) :
    ∃ next prev, 1 ≤ next ∧ next ≤ n.log.length ∧ n.log[next - 1]? = some prev ∧
      ae = ⟨n.currentTerm, n.id, next - 1, prev.term, n.log.drop next, n.commitIndex⟩ := by
  simp only [RaftNode.makeAppendEntries, Option.bind_eq_bind, Option.bind_eq_some_iff,
    Option.guard_eq_some', Option.pure_def] at h
  obtain ⟨next, -, -, h1, -, h2, prev, h3, h4⟩ := h
  exact ⟨next, prev, h1, h2, h3, (Option.some.inj h4).symm⟩

theorem sendAppendEntries_eq_some {peer : NodeId} (h : n.sendAppendEntries peer = some n') :
    ∃ ae, n.makeAppendEntries peer = some ae ∧
      n' = { n with outbox := n.outbox ++ [(peer, .appendEntries ae)] } := by
  simp only [RaftNode.sendAppendEntries, Option.bind_eq_bind, Option.bind_eq_some_iff,
    Option.pure_def] at h
  obtain ⟨ae, h1, h2⟩ := h
  exact ⟨ae, h1, (Option.some.inj h2).symm⟩

theorem applyNext_eq_some (h : n.applyNext = some n') : ∃ e, n.log[n.lastApplied + 1]? = some e ∧
    n' = ({ (n.applyPayload e.payload).2 with lastApplied := n.lastApplied + 1 }).resolvePending
      (n.lastApplied + 1) e.term (n.applyPayload e.payload).1 := by
  obtain ⟨e, he, h⟩ := Option.bind_eq_some_iff.mp h
  refine ⟨e, he, ?_⟩
  generalize n.applyPayload e.payload = p at h ⊢
  obtain ⟨result, b⟩ := p
  dsimp only at h ⊢
  split at h
  · cases h
  · exact (Option.some.inj h).symm

theorem NodeOk.msgOk_appendEntries [FloatText] (h : NodeOk M config a id n) (hr : n.role = .leader)
    {peer : NodeId} (hp : peer ∈ M.peersOf id) {ae : AppendEntries}
    (hae : n.makeAppendEntries peer = some ae) : MsgOk M a (peer, .appendEntries ae) := by
  obtain ⟨next, prev, h1, h2, h3, rfl⟩ := makeAppendEntries_eq_some hae
  have hid := h.id_eq
  have hcommit := h.commit_lt
  refine ⟨n.log, ?_, ?_, ?_, ?_, ?_, ?_, h.sim.commit⟩ <;> dsimp only
  · rw [hid]
    exact (h.sim.leader hr).1
  · rw [hid]
    exact ((M.mem_peersOf id h.mem peer).mp hp).2
  · rw [List.length_drop]
    omega
  · rw [h3, Option.map_some]
  · rw [Nat.sub_add_cancel h1, List.take_length]
  · rw [List.length_drop]
    omega

theorem NodeOk.sendAppendEntries [FloatText] (h : NodeOk M config a id n) (hr : n.role = .leader)
    {peer : NodeId} (hp : peer ∈ M.peersOf id) (hs : n.sendAppendEntries peer = some n') :
    NodeOk M config a id n' ∧ n'.core = n.core := by
  obtain ⟨ae, hae, rfl⟩ := sendAppendEntries_eq_some hs
  refine ⟨h.enqueue _ rfl rfl fun e he => ?_, rfl⟩
  rw [List.mem_singleton.mp he]
  exact h.msgOk_appendEntries hr hp hae

theorem NodeOk.sendHeartbeats [FloatText] (h : NodeOk M config a id n) (hr : n.role = .leader)
    (hs : n.sendHeartbeats = some n') : NodeOk M config a id n' ∧ n'.core = n.core := by
  have hpeers := h.peers_eq
  refine Fold.foldlM_invariant (P := fun b => NodeOk M config a id b ∧ b.core = n.core) hs ⟨h, rfl⟩ ?_
  rintro b p b' hp ⟨hok, hcore⟩ hb
  have hrole : b.role = .leader := (congrArg Core.role hcore).trans hr
  obtain ⟨hok', hcore'⟩ := hok.sendAppendEntries hrole (hpeers ▸ hp) hb
  exact ⟨hok', hcore'.trans hcore⟩

end Queue

section BecomeLeader
variable [FloatText]

/-- The node without its replication progress, which a new leader has not reset yet. -/
def RaftNode.untracked (n : RaftNode D) : RaftNode D := { n with matchIndex := ∅ }

/-- Once every peer counts as having nothing, the progress is right. -/
theorem NodeOk.of_untracked (h : NodeOk M config a id n.untracked)
    (htr : ∀ p ∈ n.matchIndex, p ∈ M.peersOf id)
    (hzero : ∀ p ∈ M.peersOf id, n.matchIndex.lookup p = some 0) : NodeOk M config a id n :=
  ⟨h.inv, h.commands, h.mem,
    { h.sim with
      leader := fun hr => by
        obtain ⟨h1, h2, -⟩ := h.sim.leader hr
        refine ⟨h1, h2, fun p m hm => Or.inl ?_⟩
        have hp : p ∈ n.matchIndex := AList.lookup_isSome.mp (by
          rw [show n.matchIndex.lookup p = some m from hm]
          rfl)
        exact Option.some.inj (hm.symm.trans (hzero p (htr p hp)))
      tracked := htr },
    h.outbox⟩

theorem NodeOk.welcomePeer {p : NodeId} (h : NodeOk M config a id n.untracked)
    (hr : n.role = .leader) (hp : p ∈ M.peersOf id) (hs : n.welcomePeer p = some n') :
    NodeOk M config a id n'.untracked ∧ n'.role = .leader ∧
      n'.matchIndex = n.matchIndex.insert p 0 := by
  obtain ⟨ae, hae, rfl⟩ := sendAppendEntries_eq_some hs
  refine ⟨h.enqueue _ rfl rfl fun e he => ?_, hr, rfl⟩
  rw [List.mem_singleton.mp he]
  -- the message does not depend on the progress that was left out
  exact NodeOk.msgOk_appendEntries (n := { n.untracked with
    nextIndex := n.nextIndex.insert p n.log.length }) (h.silent rfl fun e he => Or.inl he) hr hp hae

theorem NodeOk.welcomeAll (h : NodeOk M config a id n.untracked) (hr : n.role = .leader)
    (htr : ∀ p ∈ n.matchIndex, p ∈ M.peersOf id)
    (hs : (M.peersOf id).foldlM RaftNode.welcomePeer n = some n') : NodeOk M config a id n' := by
  have hinv := Fold.foldlM_invariant (P := fun b : RaftNode D => NodeOk M config a id b.untracked ∧
    b.role = .leader ∧ ∀ p ∈ b.matchIndex, p ∈ M.peersOf id) hs ⟨h, hr, htr⟩ ?_
  · have hzero := Fold.foldlM_forall (Q := fun p (b : RaftNode D) => b.matchIndex.lookup p = some 0)
      hs ?_ ?_
    · exact hinv.1.of_untracked hinv.2.2 hzero
    · intro b p b' hb
      obtain ⟨ae, -, rfl⟩ := sendAppendEntries_eq_some hb
      exact AList.lookup_insert _
    · intro b p b' q hq hb
      obtain ⟨ae, -, rfl⟩ := sendAppendEntries_eq_some hb
      by_cases hqp : q = p
      · rw [hqp]
        exact AList.lookup_insert _
      · exact (AList.lookup_insert_ne hqp).trans hq
  · rintro b p b' hp ⟨hok, hrole, hmem⟩ hb
    obtain ⟨hok', hrole', hm⟩ := hok.welcomePeer hrole hp hb
    refine ⟨hok', hrole', fun q hq => ?_⟩
    rw [hm, AList.mem_insert] at hq
    exact hq.elim (fun h => h ▸ hp) (hmem q)

theorem NodeOk.majority_votes (h : NodeOk M config a id n) (hr : n.role = .candidate)
    (hq : n.majority ≤ n.votesReceived.card) : M.setting.Majority n.votesReceived := by
  obtain ⟨-, hv, -⟩ := h.sim.candidate hr
  refine ⟨fun q hqv => ?_, ?_⟩
  · obtain ⟨ℓ, hvote⟩ := hv q hqv
    exact (h.inv.vote_ok _ _ _ _ hvote).1
  · have hsize := M.length_peersOf h.mem
    rw [← h.peers_eq] at hsize
    rw [RaftNode.majority] at hq
    change M.members.card < _
    omega

theorem commandsOnly_elect (h : NodeOk M config a id n) : CommandsOnly (a.elect id) := by
  intro t c L hl
  by_cases ht : t = a.term id
  · subst ht
    rw [State.elect_led] at hl
    obtain ⟨rfl, rfl⟩ := Prod.mk.inj (Option.some.inj hl)
    exact h.commands.of_logOk (h.inv.log_ok id).1
  · rw [State.elect_led_of_ne ht] at hl
    exact h.commands t c L hl

theorem NodeOk.becomeLeader (h : NodeOk M config a id n) (hr : n.role = .candidate)
    (hq : n.majority ≤ n.votesReceived.card) (now : Instant) (hs : n.becomeLeader now = some n') :
    Reaches M config a id n' := by
  obtain ⟨hstood, hv, hled⟩ := h.sim.candidate hr
  have hterm := h.term_eq
  have hlog := h.log_eq
  have hmaj := h.majority_votes hr hq
  have hnone : a.led (a.term id) = none := by
    rcases hl : a.led (a.term id) with _ | ⟨c, L⟩
    · rfl
    · rw [hterm] at hl
      obtain rfl := h.inv.led_unique hmaj hv hl
      exact absurd hl (hled L)
  have hx : Evolves M id a (a.elect id) := by
    refine Evolves.elect h.inv ?_ hmaj ?_ hnone h.mem
    · rw [hterm, hlog]
      exact hstood
    · rw [hterm]
      exact hv
  have hcore : NodeSim M config (a.elect id) id
      ({ n with role := .leader, leaderId := some n.id }).untracked.core := {
    id_eq := h.sim.id_eq
    peers_eq := h.sim.peers_eq
    term_eq := hterm
    log_eq := hlog
    vote_eq := h.sim.vote_eq
    candidate := fun hr => nomatch hr
    leader := fun _ => by
      refine ⟨?_, Or.inr ⟨rfl, hterm.symm, ?_⟩, fun p m hm => nomatch hm⟩
      · have hl : (a.elect id).led (a.term id) = some (id, a.log id) := State.elect_led
        rwa [hterm, hlog] at hl
      · rw [hlog]
        rfl
    tracked := fun p hp => absurd hp (AList.notMem_empty p)
    commit := h.sim.commit.mono hx.hist le_rfl List.prefix_rfl
    applied := h.sim.applied.mono hx.hist le_rfl List.prefix_rfl
    db_eq := h.sim.db_eq }
  obtain ⟨b, hb, hn'⟩ := Option.bind_eq_some_iff.mp hs
  obtain rfl := Option.some.inj hn'
  have hloop : (M.peersOf id).foldlM RaftNode.welcomePeer
      { n with role := .leader, leaderId := some n.id } = some b := by
    rw [← h.peers_eq]
    exact hb
  refine ⟨a.elect id, hx, ?_⟩
  have hok : NodeOk M config (a.elect id) id
      ({ n with role := .leader, leaderId := some n.id }).untracked :=
    ⟨(hx.run.inv h.inv).1, commandsOnly_elect h, h.mem, hcore,
      fun e he => (h.outbox e he).mono hx.hist⟩
  exact (hok.welcomeAll rfl h.sim.tracked hloop).silent rfl fun e he => Or.inl he

end BecomeLeader

section Campaign

theorem voteRequest_eq_some {request : RequestVote} (h : n.voteRequest = some request) :
    ∃ last, n.log[n.log.length - 1]? = some last ∧
      request = ⟨n.currentTerm, n.id, n.log.length - 1, last.term⟩ := by
  simp only [RaftNode.voteRequest, Option.bind_eq_bind, Option.bind_eq_some_iff,
    Option.pure_def] at h
  obtain ⟨last, h1, h2⟩ := h
  exact ⟨last, h1, (Option.some.inj h2).symm⟩

variable [FloatText]

theorem NodeOk.stand (h : NodeOk M config a id n) : Reaches M config a id n.stand := by
  have hx := Evolves.stand h.inv h.mem
  have hid := h.id_eq
  have hterm := h.term_eq
  have hlog := h.log_eq
  have hstood : (a.stand id).stood id (n.currentTerm + 1) = some n.log := by
    rw [← hterm, ← hlog]
    exact set2_self
  have hvote : (a.stand id).vote id (n.currentTerm + 1) = some (id, n.log) := by
    rw [← hterm, ← hlog]
    exact set2_self
  refine h.evolve hx h.commands ?_ rfl
  exact {
    id_eq := hid
    peers_eq := h.sim.peers_eq
    term_eq := State.stand_term.trans (congrArg (· + 1) hterm)
    log_eq := hlog
    vote_eq := by
      change some n.id = ((a.stand id).vote id (n.currentTerm + 1)).map Prod.fst
      rw [hvote, hid, Option.map_some]
    candidate := fun _ => by
      refine ⟨hstood, fun q hq => ⟨n.log, ?_⟩, fun L hl => ?_⟩
      · rw [Finset.mem_singleton.mp hq, hid]
        exact hvote
      · -- a leader of the new term would have stood in it before
        obtain ⟨⟨ℓ, hs, -⟩, -⟩ := h.inv.led_ok _ _ _ hl
        have hle := (h.inv.stood_ok _ _ _ hs).1
        change n.currentTerm + 1 ≤ _ at hle
        omega
    leader := fun hr => nomatch hr
    tracked := h.sim.tracked
    commit := h.sim.commit.mono hx.hist (Nat.le_succ _) List.prefix_rfl
    applied := h.sim.applied.mono hx.hist (Nat.le_succ _) List.prefix_rfl
    db_eq := h.sim.db_eq }

theorem NodeOk.requestVotes (h : NodeOk M config a id n) (hr : n.role = .candidate) (now : Instant)
    (hs : n.requestVotes now = some n') : NodeOk M config a id n' := by
  obtain ⟨request, hreq, hn'⟩ := Option.bind_eq_some_iff.mp hs
  obtain rfl := Option.some.inj hn'
  refine h.enqueue _ rfl rfl fun e he => ?_
  obtain ⟨peer, -, rfl⟩ := List.mem_map.mp he
  obtain ⟨last, hlast, rfl⟩ := voteRequest_eq_some hreq
  have hid := h.id_eq
  refine ⟨n.log, ?_, rfl, (lastTerm_of_getElem? (S := M.setting) (ℓ := n.log) hlast).symm⟩
  change a.stood n.id n.currentTerm = some n.log
  rw [hid]
  exact (h.sim.candidate hr).1

theorem NodeOk.startElection (h : NodeOk M config a id n) (now : Instant)
    (hs : n.startElection now = some n') : Reaches M config a id n' := by
  refine h.stand.bind fun a' h' => ?_
  simp only [RaftNode.startElection] at hs
  split_ifs at hs with hq
  · exact h'.becomeLeader rfl hq now hs
  · exact (h'.requestVotes rfl now hs).reaches

theorem NodeOk.countVote (h : NodeOk M config a id n) (hr : n.role = .candidate) {q : NodeId}
    (hq : ∃ ℓ, a.vote q n.currentTerm = some (id, ℓ)) :
    NodeOk M config a id { n with votesReceived := insert q n.votesReceived } :=
  ⟨h.inv, h.commands, h.mem,
    { h.sim with
      candidate := fun _ => by
        obtain ⟨h1, h2, h3⟩ := h.sim.candidate hr
        refine ⟨h1, fun p hp => ?_, h3⟩
        rcases Finset.mem_insert.mp hp with rfl | hp
        · exact hq
        · exact h2 p hp },
    h.outbox⟩

theorem NodeOk.handleVoteResponse (h : NodeOk M config a id n) {r : RequestVoteResponse}
    (hm : MsgOk M a (id, .requestVoteResponse r)) (now : Instant)
    (hs : n.handleVoteResponse r now = some n') : Reaches M config a id n' := by
  simp only [RaftNode.handleVoteResponse] at hs
  split_ifs at hs with h1 h2 h3 h4 h5 h5
  · exact Option.some.inj hs ▸ h.stepDown h1 now
  · exact Option.some.inj hs ▸ h.reaches
  · exact Option.some.inj hs ▸ h.reaches
  all_goals
    have hr : n.role = .candidate := not_not.mp h3
    have ht : r.term = n.currentTerm := by omega
  · exact (h.countVote hr (ht ▸ hm h4)).becomeLeader hr h5 now hs
  · exact Option.some.inj hs ▸ (h.countVote hr (ht ▸ hm h4)).reaches
  · exact h.becomeLeader hr h5 now hs
  · exact Option.some.inj hs ▸ h.reaches

end Campaign

section Vote
variable [FloatText]

theorem upToDate_of_logIsUpToDate (hok : LogOk M.setting a n.log) {ℓ : List LogEntry}
    (hokℓ : LogOk M.setting a ℓ) {request : RequestVote} (hi : request.lastLogIndex = ℓ.length - 1)
    (ht : request.lastLogTerm = M.setting.lastTerm ℓ) {last : LogEntry}
    (hlast : n.log[n.log.length - 1]? = some last)
    (hu : RaftNode.logIsUpToDate request (n.log.length - 1) last.term = true) :
    M.setting.UpToDate ℓ n.log := by
  have hterm : M.setting.lastTerm n.log = last.term := lastTerm_of_getElem? hlast
  have h1 := hok.length_pos
  have h2 := hokℓ.length_pos
  simp only [RaftNode.logIsUpToDate, Bool.or_eq_true, Bool.and_eq_true, decide_eq_true_eq] at hu
  rw [Setting.UpToDate, hterm, ← ht]
  rcases hu with hlt | ⟨heq, hle⟩
  · exact Or.inl hlt
  · exact Or.inr ⟨heq, by omega⟩

theorem NodeOk.grant (h : NodeOk M config a id n) {c : NodeId} {ℓ : List LogEntry}
    (hvote : n.votedFor = none) (hs : a.stood c n.currentTerm = some ℓ)
    (hu : M.setting.UpToDate ℓ n.log) (now : Instant) :
    ∃ a', Evolves M id a a' ∧ NodeOk M config a' id (n.grantVote c now) ∧
      ∃ ℓ, a'.vote id n.currentTerm = some (c, ℓ) := by
  have hterm := h.term_eq
  have hlog := h.log_eq
  have hnone : a.vote id (a.term id) = none := by
    have hv := h.sim.vote_eq
    rw [show n.core.votedFor = none from hvote] at hv
    rw [hterm]
    exact Option.map_eq_none_iff.mp hv.symm
  have hx : Evolves M id a (a.grant id c) :=
    Evolves.grant h.inv h.mem hnone (hterm ▸ hs) (hlog ▸ hu)
  have hnew : (a.grant id c).vote id n.currentTerm = some (c, n.log) := by
    rw [← hterm, ← hlog]
    exact set2_self
  refine ⟨a.grant id c, hx, ⟨(hx.run.inv h.inv).1, h.commands, h.mem, ?_, fun e he =>
    (h.outbox e he).mono hx.hist⟩, n.log, hnew⟩
  exact { h.sim with
    vote_eq := (congrArg (Option.map Prod.fst) hnew).symm
    candidate := fun hr => by
      obtain ⟨h1, h2, h3⟩ := h.sim.candidate hr
      refine ⟨h1, fun q hq => ?_, h3⟩
      obtain ⟨ℓ, hv⟩ := h2 q hq
      exact ⟨ℓ, hx.hist.vote _ _ _ hv⟩
    commit := h.sim.commit.mono hx.hist le_rfl List.prefix_rfl
    applied := h.sim.applied.mono hx.hist le_rfl List.prefix_rfl }

theorem NodeOk.handleRequestVote (h : NodeOk M config a id n) {request : RequestVote}
    (hm : MsgOk M a (id, .requestVote request)) (now : Instant) {response : RequestVoteResponse}
    (hs : n.handleRequestVote request now = some (n', response)) :
    Reaches M config a id { n' with
      outbox := n'.outbox ++ [(request.candidateId, .requestVoteResponse response)] } := by
  have hrefuse : ∀ {a'} {b : RaftNode D}, NodeOk M config a' id b →
      Reaches M config a' id { b with outbox := b.outbox ++
        [(request.candidateId, .requestVoteResponse (b.voteResponse false))] } := by
    refine fun hb => NodeOk.reaches (hb.enqueue _ rfl rfl fun e he => ?_)
    rw [List.mem_singleton.mp he]
    exact fun hg => nomatch hg
  rw [RaftNode.handleRequestVote] at hs
  split_ifs at hs with h1
  · obtain ⟨rfl, rfl⟩ := Prod.mk.inj (Option.some.inj hs)
    exact hrefuse h
  have hterm := observeTerm_currentTerm (n := n) (t := request.term) (by omega) now
  obtain ⟨a', hx, h'⟩ := h.observeTerm request.term now
  dsimp only at hs
  generalize n.observeTerm request.term now = b at hs hterm h'
  have hm' := hm.mono hx.hist
  suffices hr : Reaches M config a' id { n' with
      outbox := n'.outbox ++ [(request.candidateId, .requestVoteResponse response)] } by
    obtain ⟨a'', hx', hok⟩ := hr
    exact ⟨a'', hx.trans hx', hok⟩
  split_ifs at hs with h2
  · obtain ⟨rfl, rfl⟩ := Prod.mk.inj (Option.some.inj hs)
    exact hrefuse h'
  obtain ⟨last, hlast, hs⟩ := Option.bind_eq_some_iff.mp hs
  split_ifs at hs with h3
  · obtain ⟨rfl, rfl⟩ := Prod.mk.inj (Option.some.inj hs)
    exact hrefuse h'
  obtain ⟨rfl, rfl⟩ := Prod.mk.inj (Option.some.inj hs)
  have hid := h'.id_eq
  -- the answer says what the vote recorded by then is
  have hgrant : ∀ {a''} {b' : RaftNode D}, NodeOk M config a'' id b' → b'.id = b.id →
      b'.currentTerm = b.currentTerm →
      (∃ ℓ, a''.vote id b.currentTerm = some (request.candidateId, ℓ)) →
      NodeOk M config a'' id { b' with
        outbox := b'.outbox ++ [(request.candidateId, .requestVoteResponse (b'.voteResponse true))] } := by
    refine fun hb hi ht hv => hb.enqueue _ rfl rfl fun e he => ?_
    rw [List.mem_singleton.mp he]
    intro _
    rw [RaftNode.voteResponse, hi, ht, hid]
    exact hv
  cases hv : b.votedFor with
  | none =>
    obtain ⟨ℓ, hstood, hi, ht⟩ := hm'
    have hu := upToDate_of_logIsUpToDate h'.logOk (h'.inv.stood_ok _ _ _ hstood).2.1 hi ht hlast
      (by simpa using h3)
    obtain ⟨a'', hx', hok', hvote⟩ := h'.grant hv (hterm ▸ hstood) hu now
    exact ⟨a'', hx', hgrant hok' rfl rfl hvote⟩
  | some c =>
    rw [hv] at h2
    obtain rfl : c = request.candidateId := by simpa using h2
    have hvote : ∃ ℓ, a'.vote id b.currentTerm = some (request.candidateId, ℓ) := by
      have hrec := h'.sim.vote_eq
      rw [show b.core.votedFor = some request.candidateId from hv] at hrec
      obtain ⟨⟨c, ℓ⟩, hvote, hc⟩ := Option.map_eq_some_iff.mp hrec.symm
      exact ⟨ℓ, hvote.trans (congrArg (fun c => some (c, ℓ)) hc)⟩
    have hcore : (b.grantVote request.candidateId now).core = b.core := by
      rw [RaftNode.grantVote, ← hv]
      rfl
    have hok : NodeOk M config a' id (b.grantVote request.candidateId now) :=
      h'.silent hcore fun e he => Or.inl he
    exact (hgrant hok rfl rfl hvote).reaches

end Vote
end KvRaft
