import KvRaft.Raft.ClusterSim
import KvRaft.Raft.Reactions

/-! Safety of whole runs with fixed membership and in-memory restarts: state machine safety, leader
completeness and log matching. -/

namespace KvRaft
open ReplicatedLog

section Reachable
variable [FloatText] {D : Type} [Storage D] [Bincode]
variable (M : Membership) (config : Config) (now : Instant) {as : List Action} {c c' : Cluster D}

theorem clusterOk_of_exec (has : ∀ x ∈ as, x.inMemory = true)
    (hc : Cluster.exec config (M.start config now) as = some c) : ∃ a, ClusterOk M config c a := by
  obtain ⟨a, -, ha⟩ := (ClusterOk.start M config now).exec has hc
  exact ⟨a, ha⟩

/-- Of two states of a run, the history of one goes on in the other. -/
theorem clusterOk_of_visits (has : ∀ x ∈ as, x.inMemory = true)
    (hc : Cluster.Visits config (M.start config now) as c)
    (hc' : Cluster.Visits config (M.start config now) as c') :
    ∃ a a', ClusterOk M config c a ∧ ClusterOk M config c' a' ∧ (Extends a a' ∨ Extends a' a) := by
  have key : ∀ {b b' : Cluster D}, Cluster.VisitsInOrder config (M.start config now) as b b' →
      ∃ a a', ClusterOk M config b a ∧ ClusterOk M config b' a' ∧ Extends a a' := by
    rintro b b' ⟨before, between, after, rfl, hb, hb'⟩
    obtain ⟨a, -, ha⟩ := (ClusterOk.start M config now).exec
      (fun x hx => has x (List.mem_append_left _ (List.mem_append_left _ hx))) hb
    obtain ⟨a', he, ha'⟩ := ha.exec
      (fun x hx => has x (List.mem_append_left _ (List.mem_append_right _ hx))) hb'
    exact ⟨a, a', ha, ha', he⟩
  rcases hc.order hc' with horder | horder
  · obtain ⟨a, a', ha, ha', he⟩ := key horder
    exact ⟨a, a', ha, ha', Or.inl he⟩
  · obtain ⟨a', a, ha', ha, he⟩ := key horder
    exact ⟨a, a', ha, ha', Or.inr he⟩

end Reachable

section StateMachine
variable [FloatText] {D : Type} [Storage D]

theorem NodeOk.applied_agree {M : Membership} {config : Config} {a : State NodeId LogEntry}
    {i j : NodeId} {n m : RaftNode D} (hn : NodeOk M config a i n) (hm : NodeOk M config a j m)
    (hle : n.lastApplied ≤ m.lastApplied) {k : Nat} (hk : k ≤ n.lastApplied) :
    ∃ e, n.log[k]? = some e ∧ m.log[k]? = some e := by
  have htake := hn.sim.applied.agree hn.inv hm.sim.applied hn.logOk hm.logOk hle
  have hlt : k < n.log.length := lt_of_le_of_lt hk hn.applied_lt
  have heq : n.log[k]? = m.log[k]? := by
    rw [← List.getElem?_take_of_lt (Nat.lt_succ_of_le hk), ← List.getElem?_take_of_lt
      (l := m.log) (Nat.lt_succ_of_le hk)]
    exact congrArg (·[k]?) htake
  exact ⟨n.log[k], List.getElem?_eq_getElem hlt, heq ▸ List.getElem?_eq_getElem hlt⟩

/-- The commands that node 1 gets after it has stood for election, with nobody else there. -/
def aloneWrites (now : Instant) (cs : List Command) : List Action :=
  .process 1 (.message .timeout) now :: cs.map fun c => .process 1 (.message (.clientCommand c)) now

/-- A leader that has applied `cs`, and nothing else. -/
structure AloneWith (n : RaftNode D) (cs : List Command) : Prop where
  idle : n.Idle
  role : n.role = .leader
  term : n.currentTerm = 1
  log : n.log = sentinel :: cs.map fun c => ⟨1, .command (LogRecord.new 0 c)⟩
  applied : cs.length ≤ n.lastApplied

theorem AloneWith.commandsUpTo_eq {n : RaftNode D} {cs : List Command} (h : AloneWith n cs) :
    commandsUpTo n.log n.lastApplied = cs := by
  have hall : n.log.take (n.lastApplied + 1) = n.log := by
    refine List.take_of_length_le ?_
    rw [h.log, List.length_cons, List.length_map]
    exact Nat.succ_le_succ h.applied
  rw [commandsUpTo, hall, h.log, List.drop_one, List.tail_cons, List.filterMap_map]
  exact List.filterMap_some

variable [Bincode]

theorem aloneWrites_exec (hdb : Storage.NeverPanics D) (config : Config) (now : Instant) (cs : List Command) :
    ∃ (c : Cluster D) (n : RaftNode D), Cluster.exec config (Membership.one.start config now) (aloneWrites now cs) =
      some c ∧ c.nodes 1 = some n ∧ AloneWith n cs := by
  induction cs using List.reverseRecOn with
  | nil =>
    obtain ⟨b, hb, hcore, hout⟩ := newInDir_empty (D := D) 1 [] config now
    have hpending : b.pendingRequests = ∅ := by
      simp only [RaftNode.newInDir, Dir.empty, Storage.open_empty] at hb
      exact Option.some.inj hb ▸ rfl
    obtain ⟨n, hn, hidle, -, hlog, hterm, hrole, -, happ⟩ := startElection_alone
      (n := { b with crashPoints := [] }) ⟨hpending, hout⟩ (congrArg Core.peers hcore)
      (by rw [show b.log = [sentinel] from congrArg Core.log hcore]; exact Nat.one_pos) now
    have hstart : (Membership.one.start config now : Cluster D).nodes 1 = some b := by
      unfold Membership.start
      dsimp only
      rw [if_pos (show (1 : NodeId) ∈ Membership.one.members from Finset.mem_singleton_self 1)]
      exact hb
    have hstep : Cluster.step config (Membership.one.start config now : Cluster D)
        (.process 1 (.message .timeout) now) = some ((Membership.one.start config now).setNode 1 n) :=
      Cluster.step_process.mpr ⟨b, hstart, rfl, n, hn, rfl⟩
    refine ⟨(Membership.one.start config now).setNode 1 n, n, ?_, Cluster.setNode_self .., hidle, hrole, ?_,
      hlog.trans (congrArg Core.log hcore), Nat.zero_le _⟩
    · exact Option.bind_eq_some_iff.mpr ⟨_, hstep, rfl⟩
    · rw [hterm, show b.currentTerm = 0 from congrArg Core.currentTerm hcore]
  | append_singleton cs command ih =>
    obtain ⟨c, n, hc, hn, h⟩ := ih
    have hinMemory : ∀ x ∈ aloneWrites now cs, x.inMemory = true := by
      simp [aloneWrites, Action.inMemory]
    obtain ⟨a, ha⟩ := clusterOk_of_exec Membership.one config now hinMemory hc
    have hok := ha.nodes 1 n hn
    obtain ⟨n', hn', hidle, -, hlog, hterm, hrole, -, -, happ⟩ := command_applied_alone
      (n := { n with crashPoints := [] }) hdb ⟨h.idle.pending, h.idle.outbox⟩ h.role hok.peers_eq
      (hok.commands.of_logOk hok.logOk) hok.commit_lt command now
    have hstep : Cluster.step config c (.process 1 (.message (.clientCommand command)) now) = some (c.setNode 1 n') :=
      Cluster.step_process.mpr ⟨n, hn, rfl, n', hn', rfl⟩
    refine ⟨c.setNode 1 n', n', ?_, Cluster.setNode_self .., hidle, hrole, hterm.trans h.term, ?_, ?_⟩
    · rw [aloneWrites, List.map_append, ← List.cons_append]
      exact (Cluster.exec_concat config).mpr ⟨c, hc, hstep⟩
    · rw [hlog, show ({ n with crashPoints := [] } : RaftNode D).log = _ from h.log, List.map_append]
      change _ = sentinel :: (_ ++ [⟨1, .command (LogRecord.new 0 command)⟩])
      rw [← h.term]
      rfl
    · refine le_trans ?_ happ
      rw [show ({ n with crashPoints := [] } : RaftNode D).log = _ from h.log]
      simp

/-- State machine safety: what two nodes have applied is the same sequence of entries, and the
database of each is what the applied commands make of an empty one. -/
theorem state_machine_safety (M : Membership) (config : Config) (now : Instant) {as : List Action}
    (has : ∀ x ∈ as, x.inMemory = true) {c : Cluster D}
    (hc : Cluster.exec config (M.start config now) as = some c) {P : List Command → Prop}
    (hdb : Storage.Reliable D config P) :
    (∀ i j n m, c.nodes i = some n → c.nodes j = some m → n.lastApplied ≤ m.lastApplied →
      ∀ k, 1 ≤ k → k ≤ n.lastApplied → ∃ e, n.log[k]? = some e ∧ m.log[k]? = some e) ∧
    ∀ i n, c.nodes i = some n →
      n.db = Storage.runAll (Storage.fresh config) (commandsUpTo n.log n.lastApplied) ∧
      (P (commandsUpTo n.log n.lastApplied) → ∀ key, Storage.get n.db key =
        .ok (Storage.fold (commandsUpTo n.log n.lastApplied) key)) := by
  obtain ⟨a, ha⟩ := clusterOk_of_exec M config now has hc
  refine ⟨fun i j n m hn hm hle k _ hk => (ha.nodes i n hn).applied_agree (ha.nodes j m hm) hle hk,
    fun i n hn => ?_⟩
  have hrun := (ha.nodes i n hn).db_eq
  refine ⟨hrun, fun hP key => ?_⟩
  rw [hrun]
  exact hdb.get_runAll _ hP key

end StateMachine

section Concrete
open scoped Concrete

theorem state_machine_safety_first_commit :
    ∃ (c : Cluster Database) (n : RaftNode Database),
      Cluster.exec .default (Membership.three.start .default ⟨0, 0⟩) (firstCommit ⟨0, 0⟩) = some c ∧
      c.nodes 1 = some n ∧ commandsUpTo n.log n.lastApplied = [.set "a" (.int 1)] ∧
      ∀ key, Storage.get n.db key = .ok (Storage.fold [.set "a" (.int 1)] key) := by
  have hrun : ((Cluster.exec .default (Membership.three.start .default ⟨0, 0⟩ : Cluster Database)
      (firstCommit ⟨0, 0⟩)).bind fun c => (c.nodes 1).map fun n => commandsUpTo n.log n.lastApplied) =
      some [.set "a" (.int 1)] := by
    decide +kernel
  obtain ⟨c, hc, hrun⟩ := Option.bind_eq_some_iff.mp hrun
  obtain ⟨n, hn, hcommands⟩ := Option.map_eq_some_iff.mp hrun
  have hregular : Database.Regular .default [.set "a" (.int 1)] := ⟨by decide, by decide, by decide +kernel⟩
  have h := ((state_machine_safety Membership.three .default ⟨0, 0⟩ (by decide) hc (database_reliable .default)).2
    1 n hn).2
  rw [hcommands] at h
  exact ⟨c, n, hc, hn, hcommands, h hregular⟩

/-- No operation of the database fails, and after `2 ^ 32` tables it has lost what was written first. -/
theorem state_machine_safety_ids_wrap : ∃ (as : List Action) (c : Cluster Database) (n : RaftNode Database),
    (∀ x ∈ as, x.inMemory = true) ∧
    Cluster.exec ⟨1, 1, 0⟩ (Membership.one.start ⟨1, 1, 0⟩ ⟨0, 0⟩) as = some c ∧ c.nodes 1 = some n ∧
    Database.execAll (commandsUpTo n.log n.lastApplied) (.fresh ⟨1, 1, 0⟩) = .ok () n.db ∧
    Storage.get n.db "a" = .ok (some (.int 2)) ∧
    Storage.fold (commandsUpTo n.log n.lastApplied) "a" = some (.int 1) := by
  obtain ⟨c, n, hc, hn, halone⟩ :=
    aloneWrites_exec (D := Database) database_never_panics ⟨1, 1, 0⟩ ⟨0, 0⟩ wrappingWrites
  have hinMemory : ∀ x ∈ aloneWrites ⟨0, 0⟩ wrappingWrites, x.inMemory = true := by
    simp [aloneWrites, Action.inMemory]
  obtain ⟨a, ha⟩ := clusterOk_of_exec Membership.one ⟨1, 1, 0⟩ ⟨0, 0⟩ hinMemory hc
  have hok := ha.nodes 1 n hn
  have hcommands := halone.commandsUpTo_eq
  obtain ⟨db, hdb, hget⟩ := wrappingWrites_get
  have heq : n.db = db := by
    rw [hok.db_eq, hcommands]
    exact runAll_of_execAll hdb
  refine ⟨_, c, n, hinMemory, hc, hn, ?_, ?_, ?_⟩
  · rw [hcommands, heq]
    exact hdb
  · rw [heq]
    exact hget
  · rw [hcommands]
    exact wrappingWrites_fold

end Concrete

section Completeness
variable [FloatText] {D : Type} [Storage D] [Bincode]

/-- Leader completeness: what a node, leader or not, has committed in some term, every leader of a
later term has in its log, in whatever order the two states come in the run. -/
theorem leader_completeness (M : Membership) (config : Config) (now : Instant) {as : List Action}
    (has : ∀ x ∈ as, x.inMemory = true) {c c' : Cluster D}
    (hc : Cluster.Visits config (M.start config now) as c)
    (hc' : Cluster.Visits config (M.start config now) as c') {i j : NodeId} {n m : RaftNode D}
    (hn : c.nodes i = some n) (hm : c'.nodes j = some m) (hrole : m.role = .leader)
    (hterm : n.currentTerm < m.currentTerm) {k : Nat} (hk : k ≤ n.commitIndex) :
    ∀ l ≤ k, ∃ e, n.log[l]? = some e ∧ m.log[l]? = some e := by
  obtain ⟨a, a', ha, ha', horder⟩ := clusterOk_of_visits M config now has hc hc'
  have hN := ha.nodes i n hn
  have hM := ha'.nodes j m hm
  have hpre : n.log.take (n.commitIndex + 1) <+: m.log := by
    have hled := (hM.sim.leader hrole).1
    rcases horder with he | he
    · exact (hN.sim.commit.mono he le_rfl List.prefix_rfl).prefix_led ha'.inv (hN.logOk.mono he)
        hterm.le hled
    · -- the later leader was elected before the entry was committed
      obtain ⟨⟨ℓ, hs, hp⟩, -⟩ := ha'.inv.led_ok _ _ _ hled
      obtain ⟨L, hL, -⟩ := he.led _ _ _ hled
      exact (hN.sim.commit.prefix_stood ha.inv hN.logOk hterm hL (he.stood _ _ _ hs)).trans hp
  intro l hl
  have hlt : l < n.log.length := by
    have := hN.commit_lt
    omega
  refine ⟨n.log[l], List.getElem?_eq_getElem hlt, ?_⟩
  rw [prefix_getElem? hpre (by rw [List.length_take]; omega), List.getElem?_take_of_lt (by omega)]
  exact List.getElem?_eq_getElem hlt

end Completeness

section Concrete
open scoped Concrete

/-- What node 1 commits in term 1, node 2 has as leader of term 2. -/
theorem leader_completeness_second_election : ∃ (c c' : Cluster Database) (n m : RaftNode Database),
    Cluster.exec .default (Membership.three.start .default ⟨0, 0⟩) (firstCommit ⟨0, 0⟩) = some c ∧
    Cluster.exec .default c (secondElection ⟨0, 0⟩) = some c' ∧ c.nodes 1 = some n ∧
    c'.nodes 2 = some m ∧ n.commitIndex = 1 ∧ m.role = .leader ∧ m.currentTerm = 2 ∧
    ∀ l ≤ 1, ∃ e, n.log[l]? = some e ∧ m.log[l]? = some e := by
  have hrun : ((Cluster.exec .default (Membership.three.start .default ⟨0, 0⟩ : Cluster Database)
      (firstCommit ⟨0, 0⟩)).bind fun c => (c.nodes 1).bind fun n =>
        (Cluster.exec .default c (secondElection ⟨0, 0⟩)).bind fun c' => (c'.nodes 2).map fun m =>
          ((n.currentTerm, n.commitIndex), m.role, m.currentTerm)) = some ((1, 1), .leader, 2) := by
    decide +kernel
  obtain ⟨c, hc, hrun⟩ := Option.bind_eq_some_iff.mp hrun
  obtain ⟨n, hn, hrun⟩ := Option.bind_eq_some_iff.mp hrun
  obtain ⟨c', hc', hrun⟩ := Option.bind_eq_some_iff.mp hrun
  obtain ⟨m, hm, hrun⟩ := Option.map_eq_some_iff.mp hrun
  simp only [Prod.mk.injEq] at hrun
  obtain ⟨⟨hnt, hci⟩, hrole, hmt⟩ := hrun
  have hall : Cluster.exec .default (Membership.three.start .default ⟨0, 0⟩)
      (firstCommit ⟨0, 0⟩ ++ secondElection ⟨0, 0⟩) = some c' := by
    rw [Cluster.exec_append, hc, Option.bind_some, hc']
  refine ⟨c, c', n, m, hc, hc', hn, hm, hci, hrole, hmt, ?_⟩
  exact leader_completeness Membership.three .default ⟨0, 0⟩
    (show ∀ x ∈ firstCommit ⟨0, 0⟩ ++ secondElection ⟨0, 0⟩, x.inMemory = true by decide) ⟨_, _, rfl, hc⟩
    ⟨_, [], (List.append_nil _).symm, hall⟩ hn hm hrole (by omega) hci.ge

end Concrete

section Matching
variable [FloatText] {D : Type} [Storage D]

def AppendEntries.termAt (ae : AppendEntries) (i : Nat) : Option Nat :=
  if i = ae.prevLogIndex then some ae.prevLogTerm
  else if ae.prevLogIndex < i then ae.entries[i - (ae.prevLogIndex + 1)]?.map LogEntry.term
  else none

def AppendEntries.entryAt (ae : AppendEntries) (i : Nat) : Option LogEntry :=
  if ae.prevLogIndex < i then ae.entries[i - (ae.prevLogIndex + 1)]? else none

variable {M : Membership} {a : State NodeId LogEntry} {dest : NodeId} {ae : AppendEntries}

theorem MsgOk.window (h : MsgOk M a (dest, .appendEntries ae)) (hinv : Inv M.setting a) :
    ∃ L, LogOk M.setting a L ∧
      (∀ i t, ae.termAt i = some t → L[i]?.map LogEntry.term = some t) ∧
      ∀ i e, ae.entryAt i = some e → L[i]? = some e := by
  obtain ⟨L, hled, -, hlen, hprev, hent, -⟩ := h
  have hentry : ∀ i, ae.prevLogIndex < i → ∀ e, ae.entries[i - (ae.prevLogIndex + 1)]? = some e →
      L[i]? = some e := by
    intro i hi e he
    have hlt := (List.getElem?_eq_some_iff.mp he).1
    rw [← hent, List.getElem?_take_of_lt hlt, List.getElem?_drop] at he
    rwa [Nat.add_sub_of_le hi] at he
  refine ⟨L, (hinv.led_ok _ _ _ hled).2.1, fun i t ht => ?_, fun i e he => ?_⟩
  · unfold AppendEntries.termAt at ht
    split_ifs at ht with h1 h2
    · rw [h1, ← ht]
      exact hprev
    · obtain ⟨e, he, rfl⟩ := Option.map_eq_some_iff.mp ht
      rw [hentry i h2 e he, Option.map_some]
  · unfold AppendEntries.entryAt at he
    split_ifs at he with h1
    exact hentry i h1 e he

theorem getElem?_eq_of_agree {L L' : List LogEntry} (hL : LogOk M.setting a L)
    (hL' : LogOk M.setting a L') {k : Nat} {e e' : LogEntry} (he : L[k]? = some e)
    (he' : L'[k]? = some e') (ht : e.term = e'.term) {l : Nat} (hl : l ≤ k) : L[l]? = L'[l]? := by
  have htake := hL.agree hL' he he' ht
  rw [← List.getElem?_take_of_lt (Nat.lt_succ_of_le hl), htake,
    List.getElem?_take_of_lt (Nat.lt_succ_of_le hl)]

/-- Log matching: two logs, or a log and the window of an AppendEntries that is queued or in
flight, that have an entry of the same term at the same index agree up to there. -/
theorem log_matching [Bincode] (M : Membership) (config : Config) (now : Instant) {as : List Action}
    (has : ∀ x ∈ as, x.inMemory = true) {c : Cluster D}
    (hc : Cluster.exec config (M.start config now) as = some c) {i : NodeId} {n : RaftNode D}
    (hn : c.nodes i = some n) :
    (∀ j m (k : Nat) (e e' : LogEntry), c.nodes j = some m → n.log[k]? = some e → m.log[k]? = some e' →
      e.term = e'.term → ∀ l ≤ k, n.log[l]? = m.log[l]?) ∧
    ∀ dest ae, ((dest, .appendEntries ae) ∈ c.network ∨
        ∃ j m, c.nodes j = some m ∧ (dest, .appendEntries ae) ∈ m.outbox) →
      ∀ (k : Nat) e, n.log[k]? = some e → ae.termAt k = some e.term → ∀ l ≤ k,
        (∀ t, ae.termAt l = some t → n.log[l]?.map LogEntry.term = some t) ∧
        ∀ x, ae.entryAt l = some x → n.log[l]? = some x := by
  obtain ⟨a, ha⟩ := clusterOk_of_exec M config now has hc
  have hN := ha.nodes i n hn
  refine ⟨fun j m k e e' hm he he' ht l hl =>
    getElem?_eq_of_agree hN.logOk (ha.nodes j m hm).logOk he he' ht hl, ?_⟩
  intro dest ae hmsg k e he ht l hl
  have hok : MsgOk M a (dest, .appendEntries ae) := by
    rcases hmsg with hnet | ⟨j, m, hm, hout⟩
    · exact ha.network _ hnet
    · exact (ha.nodes j m hm).outbox _ hout
  obtain ⟨L, hL, hterm, hentry⟩ := hok.window ha.inv
  obtain ⟨x, hx, hxt⟩ := Option.map_eq_some_iff.mp (hterm k _ ht)
  have heq := getElem?_eq_of_agree hN.logOk hL he hx hxt.symm hl
  exact ⟨fun t h => heq ▸ hterm l t h, fun x h => heq ▸ hentry l x h⟩

end Matching

section Concrete
open scoped Concrete

theorem log_matching_first_commit : ∃ (c : Cluster Database) (n m : RaftNode Database),
    Cluster.exec .default (Membership.three.start .default ⟨0, 0⟩) (firstCommit ⟨0, 0⟩) = some c ∧
    c.nodes 1 = some n ∧ c.nodes 2 = some m ∧ n.log[1]?.map LogEntry.term = some 1 ∧
    m.log[1]?.map LogEntry.term = some 1 ∧ ∀ l ≤ 1, n.log[l]? = m.log[l]? := by
  have hrun : ((Cluster.exec .default (Membership.three.start .default ⟨0, 0⟩ : Cluster Database)
      (firstCommit ⟨0, 0⟩)).bind fun c => (c.nodes 1).bind fun n => (c.nodes 2).map fun m =>
        (n.log[1]?.map LogEntry.term, m.log[1]?.map LogEntry.term)) = some (some 1, some 1) := by
    decide +kernel
  obtain ⟨c, hc, hrun⟩ := Option.bind_eq_some_iff.mp hrun
  obtain ⟨n, hn, hrun⟩ := Option.bind_eq_some_iff.mp hrun
  obtain ⟨m, hm, hrun⟩ := Option.map_eq_some_iff.mp hrun
  obtain ⟨hnt, hmt⟩ := Prod.ext_iff.mp hrun
  obtain ⟨e, he, het⟩ := Option.map_eq_some_iff.mp hnt
  obtain ⟨e', he', het'⟩ := Option.map_eq_some_iff.mp hmt
  exact ⟨c, n, m, hc, hn, hm, hnt, hmt,
    (log_matching Membership.three .default ⟨0, 0⟩ (by decide) hc hn).1 2 m 1 e e' hm he he'
      (het.trans het'.symm)⟩

end Concrete
end KvRaft
