import KvRaft.Raft.CrashElections

/-! Stopping a node between two handlers and starting it again on its directory. The sentinel at
index 0 is never written to the log file, so what comes back is the log without it. -/

namespace KvRaft
open RaftNode hiding id

section General
variable [FloatText] {D : Type} [Storage D] [Bincode]

namespace RaftNode

def exec (n : RaftNode D) (steps : List (Input × Instant)) : Option (RaftNode D) :=
  steps.foldlM (fun n s => n.process s.1 s.2) n

def SameState (n r : RaftNode D) : Prop :=
  r.log = n.log ∧ r.currentTerm = n.currentTerm ∧ r.votedFor = n.votedFor ∧
    r.commitIndex = n.commitIndex ∧ r.peers = n.peers

end RaftNode

def Input.IdsFromOne : Input → Prop
  | .message (.requestVote r) => 1 ≤ r.candidateId
  | _ => True

/-- No leader proposes in term 0, so no entry that is sent has it. -/
def Input.NoTermZero : Input → Prop
  | .message (.appendEntries ae) => ∀ e ∈ ae.entries, e.term ≠ 0
  | _ => True

/-- What is in memory and what is on disk, for a node started with the peers `ps`; `strict` says
that no entry of term 0 is delivered. -/
structure Stored (strict : Prop) (ps : List NodeId) (n : RaftNode D) : Prop where
  head : n.log.head? = some sentinel
  file : ∃ es, n.logStore.Holds es ∧ (es = [] ↔ n.log.length = 1) ∧
    (strict → ∀ e ∈ es, e.term ≠ 0)
  blank : n.log.length = 1 → n.peers = ps ∧ n.commitIndex = 0
  commit : (RaftMeta.load n.metaStore.file).commitIndex = n.commitIndex
  term_pos : n.role ≠ .follower → 0 < n.currentTerm

section Invariant
variable {strict : Prop} {ps : List NodeId} {n n' : RaftNode D} {input : Input} {now : Instant}

theorem Stored.length_pos (hn : Stored strict ps n) : 0 < n.log.length := by
  have hh := hn.head
  cases hl : n.log with
  | nil => rw [hl] at hh; cases hh
  | cons e es => exact Nat.succ_pos _

theorem Stored.silent (hn : Stored strict ps n) (hlog : n'.log = n.log)
    (hstore : n'.logStore = n.logStore) (hpeers : n.log.length = 1 → n'.peers = n.peers)
    (hci : n.log.length = 1 → n'.commitIndex = 0)
    (hcommit : (RaftMeta.load n'.metaStore.file).commitIndex = n'.commitIndex)
    (hterm : n'.role ≠ .follower → 0 < n'.currentTerm) : Stored strict ps n' where
  head := hlog ▸ hn.head
  file := by rw [hlog, hstore]; exact hn.file
  blank h := by
    rw [hlog] at h
    exact ⟨(hpeers h).trans (hn.blank h).1, hci h⟩
  commit := hcommit
  term_pos := hterm

theorem Stored.push (hn : Stored strict ps n) {e : LogEntry} (he : strict → e.term ≠ 0) :
    Stored strict ps (n.pushLogEntry e) := by
  obtain ⟨es, hes, -, hterms⟩ := hn.file
  have hlen : (n.log ++ [e]).length ≠ 1 := by
    have := hn.length_pos
    rw [List.length_append, List.length_singleton]
    omega
  refine ⟨?_, ⟨es ++ [e], hes.append e, ?_, fun hs x hx => ?_⟩, fun h => absurd h hlen, hn.commit,
    hn.term_pos⟩
  · rw [pushLogEntry_log, List.head?_append_of_ne_nil _ (List.ne_nil_of_length_pos hn.length_pos)]
    exact hn.head
  · exact ⟨fun h => absurd h (by simp), fun h => absurd h hlen⟩
  · rcases List.mem_append.mp hx with hx | hx
    · exact hterms hs x hx
    · exact List.mem_singleton.mp hx ▸ he hs

/-- A conflicting entry is replaced: in memory it goes, in the file the cut is one entry late. -/
theorem Stored.replace (hn : Stored strict ps n) {e : LogEntry} (he : strict → e.term ≠ 0) {i : Nat}
    (hi : 0 < i) : Stored strict ps ((n.truncateLog i).pushLogEntry e) := by
  obtain ⟨es, hes, -, hterms⟩ := hn.file
  have hpos : 0 < (n.log.take i).length := by
    have := hn.length_pos
    rw [List.length_take]
    omega
  have hlen : (n.log.take i ++ [e]).length ≠ 1 := by
    rw [List.length_append, List.length_singleton]
    omega
  refine ⟨?_, ⟨es.take i ++ [e], (hes.truncateFrom i).append e, ?_, fun hs x hx => ?_⟩,
    fun h => absurd h hlen, hn.commit, hn.term_pos⟩
  · rw [pushLogEntry_log, truncateLog_log,
      List.head?_append_of_ne_nil _ (List.ne_nil_of_length_pos hpos), List.head?_take,
      if_neg (by omega)]
    exact hn.head
  · exact ⟨fun h => absurd h (by simp), fun h => absurd h hlen⟩
  · rcases List.mem_append.mp hx with hx | hx
    · exact hterms hs x (List.mem_of_mem_take hx)
    · exact List.mem_singleton.mp hx ▸ he hs

theorem Stored.pushed (hn : Stored strict ps n) (hin : strict → Input.NoTermZero input) {e : LogEntry}
    (he : Pushed input n e) (hs : strict) : e.term ≠ 0 := by
  have hlead : n.role = .leader → n.currentTerm ≠ 0 := fun hr =>
    Nat.pos_iff_ne_zero.mp (hn.term_pos (hr ▸ fun h => nomatch h))
  cases he with
  | received hi he =>
    have hz := hin hs
    rw [hi] at hz
    exact hz _ he
  | command hr => exact hlead hr
  | addNode hr => exact hlead hr
  | removeNode hr => exact hlead hr

theorem Stored.applyNext (hn : Stored strict ps n) (hlt : n.lastApplied < n.commitIndex)
    (hs : n.applyNext = some n') : Stored strict ps n' := by
  obtain ⟨e, points, -, hk, -⟩ := applyNext_kernel hs
  have hci : n'.commitIndex = n.commitIndex := congrArg Kernel.commitIndex hk
  have hmeta : n'.metaStore = n.metaStore := congrArg Kernel.metaStore hk
  have hrole : n'.role = n.role := congrArg Kernel.role hk
  have hterm : n'.currentTerm = n.currentTerm := congrArg Kernel.currentTerm hk
  -- an empty log has nothing to apply
  have hlong : n.log.length ≠ 1 := fun h => by
    have := (hn.blank h).2
    omega
  exact hn.silent (congrArg Kernel.log hk) (congrArg Kernel.logStore hk) (fun h => absurd h hlong)
    (fun h => absurd h hlong) (by rw [hmeta, hci]; exact hn.commit)
    (by rw [hrole, hterm]; exact hn.term_pos)

theorem Stored.move (hn : Stored strict ps n) (hin : strict → Input.NoTermZero input)
    (hm : Move input now n n') : Stored strict ps n' := by
  have hblank := fun h => (hn.blank h).2
  cases hm with
  | aside hk =>
    have hci : n'.commitIndex = n.commitIndex := congrArg Kernel.commitIndex hk
    have hmeta : n'.metaStore = n.metaStore := congrArg Kernel.metaStore hk
    have hrole : n'.role = n.role := congrArg Kernel.role hk
    have hterm : n'.currentTerm = n.currentTerm := congrArg Kernel.currentTerm hk
    exact hn.silent (congrArg Kernel.log hk) (congrArg Kernel.logStore hk)
      (fun _ => congrArg Kernel.peers hk) (fun h => hci.trans (hblank h))
      (by rw [hmeta, hci]; exact hn.commit) (by rw [hrole, hterm]; exact hn.term_pos)
  | enqueue => exact hn.silent rfl rfl (fun _ => rfl) hblank hn.commit hn.term_pos
  | stepDown => exact hn.silent rfl rfl (fun _ => rfl) hblank rfl fun h => absurd rfl h
  | follow => exact hn.silent rfl rfl (fun _ => rfl) hblank hn.commit fun h => absurd rfl h
  | count => exact hn.silent rfl rfl (fun _ => rfl) hblank hn.commit hn.term_pos
  | lead hr =>
    exact hn.silent rfl rfl (fun _ => rfl) hblank hn.commit
      fun _ => hn.term_pos (hr ▸ fun h => nomatch h)
  | grant => exact hn.silent rfl rfl (fun _ => rfl) hblank rfl hn.term_pos
  | push he => exact hn.push (hn.pushed hin he)
  | replace he hi => exact hn.replace (hn.pushed hin he) hi
  | settle _ hk _ hs =>
    refine (applyCommittedEntries_induct hs (I := fun b => Stored strict ps b) ?_
      fun b b' hb _ hlt happ => hb.applyNext hlt happ).1
    refine hn.silent rfl rfl (fun _ => rfl) (fun h => ?_) rfl hn.term_pos
    rcases hk with rfl | hk
    · exact hblank h
    · rw [h] at hk
      exact Nat.le_zero.mp hk

theorem Stored.process (hn : Stored strict ps n) (hin : strict → Input.NoTermZero input)
    (hs : n.process input now = some n') : Stored strict ps n' := by
  have hblank := fun h => (hn.blank h).2
  have hopen : Stored strict ps (n.opening input now) := by
    unfold RaftNode.opening
    dsimp only
    split_ifs
    · exact hn.silent rfl rfl (fun _ => rfl) hblank rfl fun _ => Nat.succ_pos _
    · exact hn.silent rfl rfl (fun _ => rfl) hblank hn.commit hn.term_pos
  have hmoves := process_moves input now hs
  clear hs
  induction hmoves with
  | refl => exact hopen
  | tail _ hlast ih => exact ih.move hin hlast

end Invariant

section Exact
variable {strict : Prop} {ps : List NodeId} {n r : RaftNode D} {config : Config}

theorem Stored.newInDir_empty {id : NodeId} {now : Instant}
    (hn : RaftNode.newInDir Dir.empty id ps config now = some n) : Stored strict ps n := by
  obtain ⟨b, hb, hcore, -⟩ := KvRaft.newInDir_empty (D := D) id ps config now
  obtain rfl := Option.some.inj (hb.symm.trans hn)
  obtain ⟨-, -, hrole, -, -, hmeta, hstore, -⟩ := newInDir_eq_some hn
  have hlog : b.log = [sentinel] := congrArg Core.log hcore
  have hci : b.commitIndex = 0 := congrArg Core.commitIndex hcore
  refine ⟨?_, ⟨[], hstore, ?_, fun _ e he => nomatch he⟩, fun _ => ⟨congrArg Core.peers hcore, hci⟩,
    ?_, fun h => absurd hrole h⟩
  · rw [hlog]
    rfl
  · rw [hlog]
    exact ⟨fun _ => rfl, fun _ => rfl⟩
  · rw [hmeta, hci]
    rfl

theorem newInDir_of_open {dir : Dir D} {d : D} (ps : List NodeId) (id : NodeId) (now : Instant)
    (hd : Storage.openInDir dir.db config = .ok d) :
    ∃ r, RaftNode.newInDir dir id ps config now = some r ∧
      r.commitIndex = min (RaftMeta.load dir.raftMeta).commitIndex (r.log.length - 1) ∧ r.db = d := by
  simp only [RaftNode.newInDir, hd]
  exact ⟨_, rfl, rfl, rfl⟩

theorem Stored.sameState (hn : Stored strict ps n) {b₀ : Ballot} (hdur : Durable b₀ n) {id : NodeId}
    {now : Instant} (hr : RaftNode.newInDir n.dir id ps config now = some r)
    (hci : r.commitIndex = min (RaftMeta.load n.dir.raftMeta).commitIndex (r.log.length - 1))
    (hlen : n.log.length = 1) : n.SameState r := by
  obtain ⟨es, hes, hempty, -⟩ := hn.file
  obtain rfl := hempty.mpr hlen
  obtain ⟨-, hballot, -, -, -, -, -, hlog, hpeers⟩ := newInDir_eq_some hr
  have hfile : n.dir.raftLog = [] := congrArg RaftLogStore.file hes
  rw [show metaBallot n.dir.raftMeta = n.ballot from hdur.synced] at hballot
  rw [hfile] at hlog
  have hrlog : r.log = [sentinel] := hlog
  have hnlog : n.log = [sentinel] := by
    obtain ⟨e, he⟩ := List.length_eq_one_iff.mp hlen
    have hh := hn.head
    rw [he] at hh ⊢
    exact congrArg (fun x => [x]) (Option.some.inj hh)
  have hzero : r.commitIndex = 0 := by
    rw [hci, hrlog]
    exact Nat.min_zero _
  obtain ⟨hnp, hnc⟩ := hn.blank hlen
  refine ⟨hrlog.trans hnlog.symm, congrArg Ballot.term hballot, congrArg Ballot.vote hballot,
    hzero.trans hnc.symm, ?_⟩
  rw [hpeers, hzero, hnp]
  rfl

theorem Stored.log_ne (hn : Stored strict ps n) (hs : strict) {id : NodeId} {now : Instant}
    (hr : RaftNode.newInDir n.dir id ps config now = some r) (hlen : n.log.length ≠ 1) :
    r.log ≠ n.log := by
  obtain ⟨es, hes, -, hterms⟩ := hn.file
  obtain ⟨-, -, -, -, -, -, -, hlog, -⟩ := newInDir_eq_some hr
  have hfile : n.dir.raftLog = RaftLogStore.frames es ++ [] :=
    (congrArg RaftLogStore.file hes).trans (List.append_nil _).symm
  obtain ⟨es', hpre, hopen⟩ := RaftLogStore.openFile_prefix es (Or.inl rfl)
  rw [hfile, hopen] at hlog
  dsimp only at hlog
  intro heq
  rw [heq] at hlog
  cases es' with
  | nil =>
    rw [hlog] at hlen
    exact hlen rfl
  | cons e es' =>
    have hhead : some e = some sentinel := by
      rw [← hn.head, hlog]
      rfl
    exact hterms hs e (hpre.subset (List.mem_cons_self ..)) (congrArg LogEntry.term (Option.some.inj hhead))

theorem exec_stored_durable (strict : Prop) {id : NodeId} (hid : 1 ≤ id) {steps : List (Input × Instant)}
    (hids : ∀ s ∈ steps, Input.IdsFromOne s.1) (hin : strict → ∀ s ∈ steps, Input.NoTermZero s.1)
    {now : Instant} {n₀ : RaftNode D} (hn₀ : RaftNode.newInDir Dir.empty id ps config now = some n₀)
    (hn : n₀.exec steps = some n) : Stored strict ps n ∧ ∃ b₀, Durable b₀ n := by
  suffices h : n.id = id ∧ Stored strict ps n ∧ ∃ b₀, Durable b₀ n from h.2
  refine Fold.foldlM_invariant (P := fun b : RaftNode D => b.id = id ∧ Stored strict ps b ∧
    ∃ b₀, Durable b₀ b) hn ⟨(newInDir_eq_some hn₀).1, .newInDir_empty hn₀, _, .newInDir hn₀⟩ ?_
  rintro b ⟨input, t⟩ b' hmem ⟨hbid, hst, b₀, hdur⟩ hstep
  refine ⟨(process_id input t hstep).trans hbid, hst.process (fun hs => hin hs _ hmem) hstep, _,
    hdur.process (fun _ hcast => hcast.ne_zero ?_ ?_) hstep⟩
  · rw [hbid]
    exact Nat.one_le_iff_ne_zero.mp hid
  · rintro r rfl
    exact Nat.one_le_iff_ne_zero.mp (hids _ hmem)

/-- Recovery brings back the state of a stopped node as long as nothing was appended to its log,
and, when no entry of term 0 is ever delivered, only then. -/
theorem recovery_exact_iff (id : NodeId) (hid : 1 ≤ id) (ps : List NodeId) (config : Config)
    (now now' : Instant) {steps : List (Input × Instant)} (hids : ∀ s ∈ steps, Input.IdsFromOne s.1)
    {n₀ n : RaftNode D} (hn₀ : RaftNode.newInDir Dir.empty id ps config now = some n₀)
    (hn : n₀.exec steps = some n) {d : D}
    (hopen : Storage.openInDir (Storage.disk n.db) config = .ok d) :
    ∃ r, RaftNode.newInDir n.dir id ps config now' = some r ∧
      (n.log.length = 1 → n.SameState r) ∧
      ((∀ s ∈ steps, Input.NoTermZero s.1) → (n.SameState r ↔ n.log.length = 1)) := by
  obtain ⟨r, hr, hci, -⟩ := newInDir_of_open ps id now' (show Storage.openInDir n.dir.db config = .ok d from hopen)
  obtain ⟨hst, b₀, hdur⟩ := exec_stored_durable (∀ s ∈ steps, Input.NoTermZero s.1) hid hids
    (fun h => h) hn₀ hn
  refine ⟨r, hr, hst.sameState hdur hr hci, fun hstrict => ⟨fun hsame => ?_, hst.sameState hdur hr hci⟩⟩
  by_contra hlen
  exact hst.log_ne hstrict hr hlen hsame.1

end Exact
end General

section Concrete
open scoped Concrete

/-- A candidate that has appended nothing comes back as it was. -/
theorem recovery_exact_candidate : ∃ n₀ n r : RaftNode Database,
    RaftNode.newInDir Dir.empty 1 [2, 3] .default ⟨0, 0⟩ = some n₀ ∧
    n₀.exec [(.message .timeout, ⟨0, 0⟩)] = some n ∧ n.currentTerm = 1 ∧
    RaftNode.newInDir n.dir 1 [2, 3] .default ⟨0, 0⟩ = some r ∧ n.SameState r := by
  have hrun : ((RaftNode.newInDir Dir.empty 1 [2, 3] .default ⟨0, 0⟩ : Option (RaftNode Database)).bind fun n₀ =>
      (n₀.exec [(.message .timeout, ⟨0, 0⟩)]).bind fun n =>
        (Storage.openInDir (Storage.disk n.db) .default).toOption.map fun _ =>
          (n.currentTerm, n.log.length)) = some (1, 1) := by
    decide +kernel
  obtain ⟨n₀, hn₀, hrun⟩ := Option.bind_eq_some_iff.mp hrun
  obtain ⟨n, hn, hrun⟩ := Option.bind_eq_some_iff.mp hrun
  obtain ⟨d, hd, hrun⟩ := Option.map_eq_some_iff.mp hrun
  obtain ⟨hterm, hlen⟩ := Prod.ext_iff.mp hrun
  have hopen : Storage.openInDir (Storage.disk n.db) .default = .ok d := by
    cases hx : Storage.openInDir (Storage.disk n.db) .default with
    | ok d' => rw [hx] at hd; exact congrArg _ (Option.some.inj hd)
    | error e => rw [hx] at hd; cases hd
  obtain ⟨r, hr, hsame, -⟩ := recovery_exact_iff 1 le_rfl [2, 3] .default ⟨0, 0⟩ ⟨0, 0⟩
    (show ∀ s ∈ [(Input.message .timeout, _)], Input.IdsFromOne s.1 by simp [Input.IdsFromOne]) hn₀ hn hopen
  exact ⟨n₀, n, r, hn₀, hn, hterm, hr, hsame hlen⟩

/-- A leader without peers commits one command; after recovery its log has lost the sentinel. -/
theorem recovery_loses_sentinel : ∃ n₀ n r : RaftNode Database,
    RaftNode.newInDir Dir.empty 1 [] .default ⟨0, 0⟩ = some n₀ ∧
    n₀.exec [(.message .timeout, ⟨0, 0⟩), (.request ⟨.set "a" (.int 1), .oneshot 0⟩, ⟨0, 0⟩)] = some n ∧
    RaftNode.newInDir n.dir 1 [] .default ⟨0, 0⟩ = some r ∧ n.log.length = 2 ∧ r.log = n.log.drop 1 := by
  have hrun : ((RaftNode.newInDir Dir.empty 1 [] .default ⟨0, 0⟩ : Option (RaftNode Database)).bind fun n₀ =>
      (n₀.exec [(.message .timeout, ⟨0, 0⟩),
        (.request ⟨.set "a" (.int 1), .oneshot 0⟩, ⟨0, 0⟩)]).bind fun n =>
        (RaftNode.newInDir n.dir 1 [] .default ⟨0, 0⟩).map fun r =>
          (n.log.length, decide (r.log = n.log.drop 1))) = some (2, true) := by
    decide +kernel
  obtain ⟨n₀, hn₀, hrun⟩ := Option.bind_eq_some_iff.mp hrun
  obtain ⟨n, hn, hrun⟩ := Option.bind_eq_some_iff.mp hrun
  obtain ⟨r, hr, hrun⟩ := Option.map_eq_some_iff.mp hrun
  obtain ⟨hlen, hlog⟩ := Prod.ext_iff.mp hrun
  exact ⟨n₀, n, r, hn₀, hn, hr, hlen, of_decide_eq_true hlog⟩

end Concrete
end KvRaft
