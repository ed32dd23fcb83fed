import KvRaft.Raft.ElectionSim

/-! The replication handlers against the abstract replicated log. -/

namespace KvRaft
open ReplicatedLog

variable {M : Membership} {D : Type} [Storage D] {config : Config}
  {id : NodeId} {a : State NodeId LogEntry} {n n' : RaftNode D}

section Apply

theorem resolvePending_core (n : RaftNode D) (index term : Nat) (result : Except Fault Unit) :
    (n.resolvePending index term result).core = n.core := by
  unfold RaftNode.resolvePending
  cases n.pendingRequests.lookup (index, term) with
  | none => rfl
  | some responder => rfl

theorem resolvePending_outbox (n : RaftNode D) (index term : Nat) (result : Except Fault Unit) :
    ∀ e ∈ (n.resolvePending index term result).outbox, e ∈ n.outbox ∨ e.isResponse := by
  unfold RaftNode.resolvePending
  cases n.pendingRequests.lookup (index, term) with
  | none => exact fun e he => Or.inl he
  | some responder => exact Responder.send_outbox responder _ _ _ _ _ _ _ _ _

theorem applyNext_command (hs : n.applyNext = some n') {e : LogEntry}
    (he : n.log[n.lastApplied + 1]? = some e) {r : LogRecord} (hr : e.payload = .command r) :
    n'.core = { n.core with
      db := (Storage.run n.db r.command).2
      lastApplied := n.lastApplied + 1 } ∧
    ∀ e ∈ n'.outbox, e ∈ n.outbox ∨ e.isResponse := by
  obtain ⟨e', he', rfl⟩ := applyNext_eq_some hs
  obtain rfl : e' = e := Option.some.inj (he'.symm.trans he)
  simp only [hr, RaftNode.applyPayload]
  exact ⟨resolvePending_core _ _ _ _, resolvePending_outbox _ _ _ _⟩

theorem NodeOk.applyNext [FloatText] (h : NodeOk M config a id n) (hlt : n.lastApplied < n.commitIndex)
    (hs : n.applyNext = some n') :
    NodeOk M config a id n' ∧ n'.core = { n.core with
      db := n'.db
      lastApplied := n.lastApplied + 1 } := by
  have hlen := h.commit_lt
  have he : n.log[n.lastApplied + 1]? = some (n.log[n.lastApplied + 1]) :=
    List.getElem?_eq_getElem (by omega)
  obtain ⟨r, hr⟩ := h.commands.of_logOk h.logOk _ (List.mem_of_getElem? he)
  obtain ⟨hcore, hout⟩ := applyNext_command hs he hr
  refine ⟨⟨h.inv, h.commands, h.mem, ?_, fun e hm => (hout e hm).elim (h.outbox e) (·.msgOk)⟩, ?_⟩
  · rw [hcore]
    exact { h.sim with
      applied := h.sim.commit.of_le hlt
      db_eq := by
        change (Storage.run n.db r.command).2 = Storage.runAll _ (commandsUpTo n.log (n.lastApplied + 1))
        rw [commandsUpTo_succ he, LogEntry.command?, hr]
        change _ = Storage.runAll _ (_ ++ [r.command])
        rw [Storage.runAll_concat, ← h.db_eq] }
  · rw [hcore, show n'.db = _ from congrArg Core.db hcore]

theorem NodeOk.applyLoop [FloatText] (h : NodeOk M config a id n) {k : Nat}
    (hk : n.lastApplied + k ≤ n.commitIndex) (hs : n.applyLoop k = some n') :
    NodeOk M config a id n' ∧ n'.core = { n.core with
      db := n'.db
      lastApplied := n.lastApplied + k } := by
  induction k generalizing n with
  | zero =>
    obtain rfl := Option.some.inj hs
    exact ⟨h, rfl⟩
  | succ k ih =>
    obtain ⟨b, hb, hrest⟩ := Option.bind_eq_some_iff.mp hs
    obtain ⟨hok, hcore⟩ := h.applyNext (by omega) hb
    have happ : b.lastApplied = n.lastApplied + 1 := congrArg Core.lastApplied hcore
    have hcom : b.commitIndex = n.commitIndex := congrArg Core.commitIndex hcore
    obtain ⟨hok', hcore'⟩ := ih hok (by omega) hrest
    refine ⟨hok', ?_⟩
    rw [hcore', hcore, happ]
    simp only [add_assoc, add_comm 1]

theorem NodeOk.applyCommittedEntries [FloatText] (h : NodeOk M config a id n)
    (hs : n.applyCommittedEntries = some n') :
    NodeOk M config a id n' ∧ n'.core = { n.core with
      db := n'.db
      lastApplied := max n.lastApplied n.commitIndex } := by
  by_cases hle : n.commitIndex ≤ n.lastApplied
  · rw [RaftNode.applyCommittedEntries, Nat.sub_eq_zero_of_le hle] at hs
    obtain rfl := Option.some.inj hs
    rw [Nat.max_eq_left hle]
    exact ⟨h, rfl⟩
  · have hlt : n.lastApplied ≤ n.commitIndex := by omega
    obtain ⟨hok, hcore⟩ := h.applyLoop (Nat.add_sub_of_le hlt).le hs
    rw [Nat.max_eq_right hlt]
    rw [Nat.add_sub_of_le hlt] at hcore
    exact ⟨hok, hcore⟩

end Apply

section Commit

def RaftNode.holders (n : RaftNode D) (i : Nat) : Finset NodeId :=
  insert n.id ((n.matchIndex.entries.filter fun p => i ≤ p.2).map Sigma.fst).toFinset

theorem mem_holders {q : NodeId} {i : Nat} (h : q ∈ n.holders i) :
    q = n.id ∨ ∃ m, n.matchIndex.lookup q = some m ∧ i ≤ m := by
  rcases Finset.mem_insert.mp h with rfl | h
  · exact Or.inl rfl
  · obtain ⟨⟨p, m⟩, hp, rfl⟩ := List.mem_map.mp (List.mem_toFinset.mp h)
    obtain ⟨hmem, hle⟩ := List.mem_filter.mp hp
    exact Or.inr ⟨m, AList.mem_lookup_iff.mpr hmem, by simpa using hle⟩

variable [FloatText]

theorem NodeOk.card_holders (h : NodeOk M config a id n) (i : Nat) :
    (n.holders i).card = n.replicated i := by
  have hnodup : ((n.matchIndex.entries.filter fun p => i ≤ p.2).map Sigma.fst).Nodup :=
    n.matchIndex.nodupKeys.sublist List.filter_sublist
  have hself : n.id ∉ ((n.matchIndex.entries.filter fun p => i ≤ p.2).map Sigma.fst).toFinset := by
    intro hmem
    obtain ⟨p, hp, hid⟩ := List.mem_map.mp (List.mem_toFinset.mp hmem)
    have hkey : n.id ∈ n.matchIndex := AList.mem_keys.mpr (by
      rw [← hid]
      exact List.mem_map.mpr ⟨p, (List.mem_filter.mp hp).1, rfl⟩)
    rw [h.id_eq] at hkey
    exact ((M.mem_peersOf id h.mem id).mp (h.sim.tracked id hkey)).2 rfl
  rw [RaftNode.holders, Finset.card_insert_of_notMem hself, List.toFinset_card_of_nodup hnodup,
    List.length_map, RaftNode.replicated]

theorem NodeOk.chosen (h : NodeOk M config a id n) (hr : n.role = .leader) {i : Nat} {e : LogEntry}
    (he : n.log[i]? = some e) (ht : e.term = n.currentTerm) (hq : n.majority ≤ n.replicated i) :
    Chosen M.setting a n.currentTerm i := by
  obtain ⟨hled, hself, hack⟩ := h.sim.leader hr
  have hi : i < n.log.length := (List.getElem?_eq_some_iff.mp he).1
  have hterm : (n.log[i]?.map M.setting.term) = some n.currentTerm := by
    rw [he, Option.map_some]
    exact congrArg some ht
  have hpos : 0 < i := h.inv.index_pos hled hterm
  have hacked : ∀ q ∈ n.holders i, ∃ m, i ≤ m ∧ a.acked q n.currentTerm m := by
    intro q hq
    rcases mem_holders hq with rfl | ⟨m, hm, hle⟩
    · refine ⟨n.log.length - 1, by omega, ?_⟩
      rw [h.id_eq]
      exact hself
    · rcases hack q m hm with rfl | hack
      · omega
      · exact ⟨m, hle, hack⟩
  refine ⟨id, n.log, n.holders i, hled, hterm, ⟨fun q hq => ?_, ?_⟩, hacked⟩
  · obtain ⟨m, -, hack⟩ := hacked q hq
    exact (h.inv.acked_ok _ _ _ hack).1
  · have hsize := M.length_peersOf h.mem
    rw [← h.peers_eq] at hsize
    rw [RaftNode.majority] at hq
    rw [h.card_holders]
    change M.members.card < _
    omega

theorem NodeOk.commitAt (h : NodeOk M config a id n) (hr : n.role = .leader) {commit : Nat}
    (hc : Committed M.setting a n.currentTerm n.log commit) (i : Nat) :
    Committed M.setting a n.currentTerm n.log (n.commitAt commit i) := by
  rw [RaftNode.commitAt]
  cases he : n.log[i]? with
  | none => exact hc
  | some e =>
    dsimp only
    split_ifs with h1 h2
    · exact hc
    · exact Or.inr ⟨n.currentTerm, i, id, n.log, le_rfl, le_rfl, h.chosen hr he (not_not.mp h1) h2,
        (h.sim.leader hr).1, List.take_prefix _ _⟩
    · exact hc

theorem NodeOk.updateCommitIndex (h : NodeOk M config a id n) (hr : n.role = .leader)
    (hs : n.updateCommitIndex = some n') :
    NodeOk M config a id n' ∧ n'.role = .leader ∧ n'.log = n.log := by
  rw [RaftNode.updateCommitIndex] at hs
  set is := List.range' (n.commitIndex + 1) (n.log.length - (n.commitIndex + 1))
  have hcommit : ∀ (is : List Nat) (k : Nat), Committed M.setting a n.currentTerm n.log k →
      Committed M.setting a n.currentTerm n.log (is.foldl n.commitAt k) := by
    intro is
    induction is with
    | nil => exact fun k hk => hk
    | cons i is ih => exact fun k hk => ih _ (h.commitAt hr hk i)
  have hok : NodeOk M config a id
      ({ n with commitIndex := is.foldl n.commitAt n.commitIndex } : RaftNode D).persistMeta :=
    ⟨h.inv, h.commands, h.mem, { h.sim with commit := hcommit _ _ h.sim.commit }, h.outbox⟩
  obtain ⟨hok', hcore⟩ := hok.applyCommittedEntries hs
  exact ⟨hok', (congrArg Core.role hcore).trans hr, congrArg Core.log hcore⟩

end Commit

section Propose
variable [FloatText]

theorem commandsOnly_propose (h : NodeOk M config a id n) {e : LogEntry} {r : LogRecord}
    (he : e.payload = .command r) : CommandsOnly (a.propose id e) := by
  intro t c L hl
  by_cases ht : t = a.term id
  · subst ht
    rw [State.propose_led] at hl
    obtain ⟨rfl, rfl⟩ := Prod.mk.inj (Option.some.inj hl)
    intro x hx
    rcases List.mem_append.mp hx with hx | hx
    · exact h.commands.of_logOk (h.inv.log_ok id).1 x hx
    · exact ⟨r, List.mem_singleton.mp hx ▸ he⟩
  · rw [State.propose_led_of_ne ht] at hl
    exact h.commands t c L hl

theorem NodeOk.pushCommand [Bincode] (h : NodeOk M config a id n) (hr : n.role = .leader) (r : LogRecord) :
    Reaches M config a id (n.pushLogEntry ⟨n.currentTerm, .command r⟩) := by
  set e : LogEntry := ⟨n.currentTerm, .command r⟩
  obtain ⟨hled, hself, hack⟩ := h.sim.leader hr
  have hx : Evolves M id a (a.propose id e) := by
    refine Evolves.propose h.inv ?_ h.term_eq.symm h.mem
    rw [h.term_eq, h.log_eq]
    exact hled
  have hpre : n.log <+: n.log ++ [e] := List.prefix_append _ _
  refine h.evolve hx (commandsOnly_propose h rfl) ?_ rfl
  rw [RaftNode.pushLogEntry_core]
  exact { h.sim with
    log_eq := by
      rw [State.propose_log, h.log_eq]
    candidate := fun hc => nomatch hr.symm.trans hc
    leader := fun _ => by
      refine ⟨?_, Or.inr ⟨rfl, h.term_eq.symm, ?_⟩, fun p m hm => (hack p m hm).imp_right Or.inl⟩
      · have hl : (a.propose id e).led (a.term id) = some (id, a.log id ++ [e]) := State.propose_led
        rwa [h.term_eq, h.log_eq] at hl
      · rw [h.log_eq, List.length_append]
        rfl
    commit := h.sim.commit.mono hx.hist le_rfl hpre
    applied := h.sim.applied.mono hx.hist le_rfl hpre
    db_eq := h.db_eq.trans (congrArg _ (commandsUpTo_of_take
      (prefix_take_eq hpre h.applied_lt).symm)) }

theorem NodeOk.replicate (h : NodeOk M config a id n) (hr : n.role = .leader)
    (hs : n.replicate = some n') : NodeOk M config a id n' ∧ n'.role = .leader ∧ n'.log = n.log := by
  rw [RaftNode.replicate] at hs
  split_ifs at hs
  · exact h.updateCommitIndex hr hs
  · obtain ⟨hok, hcore⟩ := h.sendHeartbeats hr hs
    exact ⟨hok, (congrArg Core.role hcore).trans hr, congrArg Core.log hcore⟩

theorem NodeOk.appendCommand [Bincode] (h : NodeOk M config a id n) {command : Command} {index : Nat}
    (hs : n.appendCommand command = some (n', index)) : Reaches M config a id n' := by
  simp only [RaftNode.appendCommand, Option.bind_eq_bind, Option.bind_eq_some_iff,
    Option.guard_eq_some', Option.pure_def, Option.some.injEq, Prod.mk.injEq] at hs
  obtain ⟨-, hr, b, hb, rfl, -⟩ := hs
  refine (h.pushCommand hr (LogRecord.new 0 command)).bind fun a' h' => ?_
  exact (h'.replicate hr hb).1.reaches

end Propose

section Accept
variable [FloatText]

theorem NodeOk.followLeader (h : NodeOk M config a id n) (leader : NodeId) (now : Instant) :
    NodeOk M config a id (n.followLeader leader now) :=
  ⟨h.inv, h.commands, h.mem,
    { h.sim with
      candidate := fun hr => nomatch hr
      leader := fun hr => nomatch hr },
    h.outbox⟩

theorem NodeOk.acceptEntries (h : NodeOk M config a id n) (b : RaftNode D) (hr : n.role = .follower)
    {ae : AppendEntries} (hm : MsgOk M a (id, .appendEntries ae)) (ht : n.currentTerm = ae.term)
    {prev : LogEntry} (hprev : n.log[ae.prevLogIndex]? = some prev)
    (hpt : prev.term = ae.prevLogTerm) {commit : Nat} (hcommit : commit ≤ ae.leaderCommit)
    (hcore : b.core = { n.core with
      log := splice n.log (ae.prevLogIndex + 1) ae.entries
      commitIndex := commit })
    (hout : b.outbox = n.outbox) :
    ∃ a', Evolves M id a a' ∧ NodeOk M config a' id b ∧
      a'.acked id n.currentTerm (ae.prevLogIndex + ae.entries.length) := by
  obtain ⟨L, hled, hdest, hlen, hLprev, hent, hlc, hcm⟩ := hm
  set ℓ := splice n.log (ae.prevLogIndex + 1) ae.entries
  obtain ⟨x, hx, hxt⟩ := Option.map_eq_some_iff.mp hLprev
  have hokL := (h.inv.led_ok _ _ _ hled).2.1
  have hacc : Accepts L (ae.prevLogIndex + ae.entries.length) n.log ℓ :=
    splice_accepts h.logOk hokL ae.entries rfl hlen hent (List.getElem?_eq_some_iff.mp hprev).1
      (h.logOk.agree hokL hprev hx (hpt.trans hxt.symm))
  have hled' : a.led (a.term id) = some (ae.leaderId, L) := by
    rw [h.term_eq, ht]
    exact hled
  have hev : Evolves M id a (a.accept id (ae.prevLogIndex + ae.entries.length) ℓ) :=
    Evolves.accept h.inv h.mem hled' hlen hdest (h.log_eq ▸ hacc)
  have happlied := h.sim.applied.accept h.inv h.logOk (by rw [← ht] at hled; exact hled) hacc
  have hokℓ : LogOk M.setting (a.accept id (ae.prevLogIndex + ae.entries.length) ℓ) ℓ := by
    have hlog := ((hev.run.inv h.inv).1.log_ok id).1
    rwa [State.accept_log] at hlog
  have hcommands : commandsUpTo n.log n.lastApplied = commandsUpTo ℓ n.lastApplied :=
    commandsUpTo_of_take ((h.sim.applied.mono hev.hist le_rfl List.prefix_rfl).agree
      (hev.run.inv h.inv).1 (happlied.mono hev.hist le_rfl List.prefix_rfl)
      (h.logOk.mono hev.hist) hokℓ le_rfl)
  refine ⟨_, hev, ⟨(hev.run.inv h.inv).1, h.commands, h.mem, ?_,
    fun e he => (h.outbox e (hout ▸ he)).mono hev.hist⟩, Or.inr ⟨rfl, h.term_eq.symm, rfl⟩⟩
  rw [hcore]
  exact { h.sim with
    log_eq := State.accept_log
    candidate := fun hc => nomatch hr.symm.trans hc
    leader := fun hc => nomatch hr.symm.trans hc
    commit := by
      rw [← ht] at hcm
      exact ((Committed.of_take hcm hlc hacc.take_prefix).of_le hcommit).mono hev.hist le_rfl
        List.prefix_rfl
    applied := happlied.mono hev.hist le_rfl List.prefix_rfl
    db_eq := h.db_eq.trans (congrArg _ hcommands) }

theorem NodeOk.respondAppend (h : NodeOk M config a id n) {dest : NodeId} (hd : id ≠ dest)
    {r : AppendEntriesResponse} (hid : r.followerId = n.id)
    (hack : r.success = true → a.acked id r.term r.matchIndex) :
    NodeOk M config a id { n with outbox := n.outbox ++ [(dest, .appendEntriesResponse r)] } := by
  refine h.enqueue _ rfl rfl fun e he => ?_
  rw [List.mem_singleton.mp he]
  refine ⟨?_, ?_, ?_⟩
  · rw [hid, h.id_eq]
    exact h.mem
  · rw [hid, h.id_eq]
    exact hd
  · rw [hid, h.id_eq]
    exact hack

theorem NodeOk.acceptAppend [Bincode] (h : NodeOk M config a id n) (hr : n.role = .follower)
    {ae : AppendEntries} (hm : MsgOk M a (id, .appendEntries ae)) (ht : n.currentTerm = ae.term)
    {prev : LogEntry} (hprev : n.log[ae.prevLogIndex]? = some prev)
    (hpt : prev.term = ae.prevLogTerm) {response : AppendEntriesResponse}
    (hs : n.acceptAppend ae = some (n', response)) :
    Reaches M config a id { n' with
      outbox := n'.outbox ++ [(ae.leaderId, .appendEntriesResponse response)] } := by
  obtain ⟨-, -, hdest, -⟩ := (show MsgOk M a (id, .appendEntries ae) from hm)
  obtain ⟨b, hb, hres⟩ := Option.map_eq_some_iff.mp hs
  obtain ⟨rfl, rfl⟩ := Prod.mk.inj hres
  obtain ⟨hcore, hout⟩ := n.appendLoop_core (ae.prevLogIndex + 1) ae.entries
  set c := n.appendLoop (ae.prevLogIndex + 1) ae.entries
  set k := min ae.leaderCommit (c.log.length - 1)
  obtain ⟨a', hx, hok, hack⟩ := h.acceptEntries ({ c with commitIndex := k } : RaftNode D).persistMeta
    hr hm ht hprev hpt (min_le_left _ _) (congrArg (fun r => { r with commitIndex := k }) hcore) hout
  obtain ⟨hok', hcore'⟩ := hok.applyCommittedEntries hb
  refine ⟨a', hx, hok'.respondAppend hdest rfl fun _ => ?_⟩
  have hterm : b.currentTerm = n.currentTerm :=
    (congrArg Core.currentTerm hcore').trans (congrArg Core.currentTerm hcore)
  rw [hterm]
  exact hack

theorem NodeOk.handleAppendEntries [Bincode] (h : NodeOk M config a id n) {ae : AppendEntries}
    (hm : MsgOk M a (id, .appendEntries ae)) (now : Instant) {response : AppendEntriesResponse}
    (hs : n.handleAppendEntries ae now = some (n', response)) :
    Reaches M config a id { n' with
      outbox := n'.outbox ++ [(ae.leaderId, .appendEntriesResponse response)] } := by
  obtain ⟨-, -, hdest, -⟩ := (show MsgOk M a (id, .appendEntries ae) from hm)
  have hreject : ∀ {a'} {b : RaftNode D}, NodeOk M config a' id b →
      NodeOk M config a' id { b with outbox := b.outbox ++
        [(ae.leaderId, .appendEntriesResponse b.rejectAppend)] } :=
    fun hb => hb.respondAppend hdest rfl fun hg => nomatch hg
  simp only [RaftNode.handleAppendEntries] at hs
  split_ifs at hs with h1
  · obtain ⟨rfl, rfl⟩ := Prod.mk.inj (Option.some.inj hs)
    exact (hreject h).reaches
  have hterm := observeTerm_currentTerm (n := n) (t := ae.term) (by omega) now
  obtain ⟨a', hx, hb⟩ := h.observeTerm ae.term now
  generalize n.observeTerm ae.term now = b at hs hterm hb
  have hok := hb.followLeader ae.leaderId now
  suffices hr : Reaches M config a' id { n' with
      outbox := n'.outbox ++ [(ae.leaderId, .appendEntriesResponse response)] } by
    obtain ⟨a'', hx', hok'⟩ := hr
    exact ⟨a'', hx.trans hx', hok'⟩
  split at hs
  · obtain ⟨rfl, rfl⟩ := Prod.mk.inj (Option.some.inj hs)
    exact (hreject hok).reaches
  · next prev hprev =>
    split_ifs at hs with h2
    · obtain ⟨rfl, rfl⟩ := Prod.mk.inj (Option.some.inj hs)
      exact (hreject hok).reaches
    · exact hok.acceptAppend rfl (hm.mono hx.hist) hterm hprev (not_not.mp h2) hs

theorem NodeOk.track (h : NodeOk M config a id n) {peer : NodeId} {m : Nat}
    (hp : peer ∈ M.peersOf id) (hack : n.role = .leader → a.acked peer n.currentTerm m) :
    NodeOk M config a id { n with
      matchIndex := n.matchIndex.insert peer m
      nextIndex := n.nextIndex.insert peer (m + 1) } :=
  ⟨h.inv, h.commands, h.mem,
    { h.sim with
      leader := fun hr => by
        obtain ⟨h1, h2, h3⟩ := h.sim.leader hr
        refine ⟨h1, h2, fun p k hk => ?_⟩
        change (n.matchIndex.insert peer m).lookup p = some k at hk
        by_cases hpp : p = peer
        · subst hpp
          rw [AList.lookup_insert] at hk
          exact Or.inr (Option.some.inj hk ▸ hack hr)
        · rw [AList.lookup_insert_ne hpp] at hk
          exact h3 p k hk
      tracked := fun p hmem => by
        rcases (AList.mem_insert _).mp hmem with rfl | hmem
        · exact hp
        · exact h.sim.tracked p hmem },
    h.outbox⟩

theorem NodeOk.handleAppendEntriesResponse (h : NodeOk M config a id n) {r : AppendEntriesResponse}
    (hm : MsgOk M a (id, .appendEntriesResponse r)) (now : Instant)
    (hs : n.handleAppendEntriesResponse r now = some n') : Reaches M config a id n' := by
  have hpeer : r.followerId ∈ M.peersOf id := (M.mem_peersOf id h.mem _).mpr ⟨hm.1, hm.2.1⟩
  simp only [RaftNode.handleAppendEntriesResponse] at hs
  split_ifs at hs with h1 h2 h3 h4
  · exact Option.some.inj hs ▸ h.stepDown h1 now
  · exact Option.some.inj hs ▸ h.reaches
  · exact Option.some.inj hs ▸ h.reaches
  all_goals have hr : n.role = .leader := not_not.mp h2
  · have ht : r.term = n.currentTerm := by omega
    have hok := h.track hpeer (m := r.matchIndex) fun _ => ht ▸ hm.2.2 h4
    exact (hok.updateCommitIndex hr hs).1.reaches
  · obtain ⟨next, -, hs⟩ := Option.bind_eq_some_iff.mp hs
    split_ifs at hs with h5
    · have hok : NodeOk M config a id
          { n with nextIndex := n.nextIndex.insert r.followerId (next - 1) } :=
        h.silent rfl fun e he => Or.inl he
      exact (hok.sendAppendEntries hr hpeer hs).1.reaches
    · exact (h.sendAppendEntries hr hpeer hs).1.reaches

end Accept
end KvRaft
