import KvRaft.Raft.Moves
import KvRaft.Raft.LogFile

/-! What a crash inside a handler can leave on disk: a term and a vote no older than those the
handler started from, and a log file that still reads as store commands. -/

namespace KvRaft
open RaftNode

variable {D : Type} [Storage D]

structure Ballot where
  term : Nat
  vote : Option NodeId
  deriving DecidableEq

/-- A later ballot: of a later term, or the same one with the vote kept or cast. -/
def Ballot.Le (b b' : Ballot) : Prop :=
  b.term < b'.term ∨ (b.term = b'.term ∧ (b.vote = none ∨ b.vote = b'.vote))

theorem Ballot.Le.refl (b : Ballot) : b.Le b := Or.inr ⟨rfl, Or.inr rfl⟩

theorem Ballot.Le.trans {a b c : Ballot} (h : a.Le b) (h' : b.Le c) : a.Le c := by
  rcases h with h | ⟨h1, h2⟩
  · rcases h' with h' | ⟨h', -⟩
    · exact Or.inl (h.trans h')
    · exact Or.inl (h' ▸ h)
  · rcases h' with h' | ⟨h3, h4⟩
    · exact Or.inl (h1 ▸ h')
    · refine Or.inr ⟨h1.trans h3, ?_⟩
      rcases h2 with h2 | h2
      · exact Or.inl h2
      · exact h4.imp (h2.trans ·) (h2.trans ·)

theorem Ballot.Le.term_le {b b' : Ballot} (h : b.Le b') : b.term ≤ b'.term := by
  rcases h with h | ⟨h, -⟩
  · exact h.le
  · exact h.le

def RaftNode.ballot (n : RaftNode D) : Ballot := ⟨n.currentTerm, n.votedFor⟩

def metaBallot (file : List Nat) : Ballot := ⟨(RaftMeta.load file).currentTerm, (RaftMeta.load file).votedFor⟩

/-- The durable ballot is that of the memory, and all a crash inside the running handler can leave
is no older than `b₀`. -/
structure Durable (b₀ : Ballot) (n : RaftNode D) : Prop where
  nonzero : n.votedFor ≠ some 0
  synced : metaBallot n.metaStore.file = n.ballot
  le : b₀.Le n.ballot
  points : ∀ p ∈ n.crashPoints, b₀.Le (metaBallot p.dir.raftMeta)

variable [Bincode]

section Ballots
variable {b₀ : Ballot} {n n' : RaftNode D} {input : Input} {now : Instant}

omit [Bincode] in
theorem Durable.persist (hn : Durable b₀ n) (hle : n.ballot.Le n'.ballot) (hv : n'.votedFor ≠ some 0)
    (hmeta : metaBallot n'.metaStore.file = n'.ballot)
    (hpoints : ∀ p ∈ n'.crashPoints, p ∈ n.crashPoints ∨ metaBallot p.dir.raftMeta = n'.ballot) :
    Durable b₀ n' := by
  refine ⟨hv, hmeta, hn.le.trans hle, fun p hp => ?_⟩
  rcases hpoints p hp with hp | hp
  · exact hn.points p hp
  · rw [hp]
    exact hn.le.trans hle

omit [Bincode] in
theorem Durable.silent (hn : Durable b₀ n) (hb : n'.ballot = n.ballot)
    (hmeta : metaBallot n'.metaStore.file = n.ballot)
    (hpoints : ∀ p ∈ n'.crashPoints, p ∈ n.crashPoints ∨ metaBallot p.dir.raftMeta = n.ballot) :
    Durable b₀ n' :=
  hn.persist (hb ▸ .refl _)
    ((show n'.votedFor = n.votedFor from congrArg Ballot.vote hb) ▸ hn.nonzero) (hb ▸ hmeta)
    (hb ▸ hpoints)

omit [Bincode] in
theorem metaBallot_save (m : RaftMeta) (c t : Nat) {v : Option NodeId} (hv : v ≠ some 0) :
    metaBallot (m.save c t v).file = ⟨t, v⟩ := by
  rw [metaBallot, RaftMeta.load_save_of_pos m c t hv]

omit [Bincode] in
theorem mem_concat_ballot {ps : List (CrashPoint D)} {p q : CrashPoint D} {b : Ballot}
    (hp : p ∈ ps ++ [q]) (hq : metaBallot q.dir.raftMeta = b) :
    p ∈ ps ∨ metaBallot p.dir.raftMeta = b := by
  rcases List.mem_append.mp hp with hp | hp
  · exact Or.inl hp
  · rw [List.mem_singleton.mp hp]
    exact Or.inr hq

theorem Durable.pushLogEntry (hn : Durable b₀ n) (e : LogEntry) : Durable b₀ (n.pushLogEntry e) := by
  refine hn.silent rfl hn.synced fun p hp => ?_
  rcases List.mem_append.mp hp with hp | hp
  · exact mem_concat_ballot hp hn.synced
  · rw [List.mem_singleton.mp hp]
    exact Or.inr hn.synced

omit [Bincode] in
theorem Durable.truncateLog (hn : Durable b₀ n) (i : Nat) : Durable b₀ (n.truncateLog i) :=
  hn.silent rfl hn.synced fun _ hp => mem_concat_ballot hp hn.synced

omit [Bincode] in
theorem Durable.applyNext (hn : Durable b₀ n) (hs : n.applyNext = some n') : Durable b₀ n' := by
  obtain ⟨e, points, -, hk, hpoints, -⟩ := applyNext_kernel hs
  have hb : n'.ballot = n.ballot := congrArg₂ Ballot.mk (congrArg Kernel.currentTerm hk)
    (congrArg Kernel.votedFor hk)
  have hmeta : n'.metaStore = n.metaStore := congrArg Kernel.metaStore hk
  have hcrash : n'.crashPoints = n.crashPoints ++ points := congrArg Kernel.crashPoints hk
  refine hn.silent hb (hmeta ▸ hn.synced) fun p hp => ?_
  rcases List.mem_append.mp (hcrash ▸ hp) with hp | hp
  · exact Or.inl hp
  · exact Or.inr (hpoints p hp ▸ hn.synced)

theorem Durable.move [FloatText] (hn : Durable b₀ n) (hz : n'.votedFor ≠ some 0) (hm : Move input now n n') :
    Durable b₀ n' := by
  cases hm with
  | aside hk =>
    have hb : n'.ballot = n.ballot := congrArg₂ Ballot.mk (congrArg Kernel.currentTerm hk)
      (congrArg Kernel.votedFor hk)
    have hmeta : n'.metaStore = n.metaStore := congrArg Kernel.metaStore hk
    have hpoints : n'.crashPoints = n.crashPoints := congrArg Kernel.crashPoints hk
    exact hn.silent hb (hmeta ▸ hn.synced) fun p hp => Or.inl (hpoints ▸ hp)
  | enqueue => exact hn.silent rfl hn.synced fun p hp => Or.inl hp
  | stepDown ht =>
    exact hn.persist (Or.inl ht) hz (metaBallot_save _ _ _ hz) fun p hp =>
      mem_concat_ballot hp (metaBallot_save _ _ _ hz)
  | follow => exact hn.silent rfl hn.synced fun p hp => Or.inl hp
  | count => exact hn.silent rfl hn.synced fun p hp => Or.inl hp
  | lead => exact hn.silent rfl hn.synced fun p hp => Or.inl hp
  | grant hi ht hv =>
    exact hn.persist (Or.inr ⟨rfl, hv⟩) hz (metaBallot_save _ _ _ hz)
      fun p hp => mem_concat_ballot hp (metaBallot_save _ _ _ hz)
  | push => exact hn.pushLogEntry _
  | replace => exact (hn.truncateLog _).pushLogEntry _
  | settle _ _ _ hs =>
    refine (applyCommittedEntries_induct hs (I := fun b => Durable b₀ b)
      (hn.silent rfl (metaBallot_save _ _ _ hn.nonzero) fun p hp =>
        mem_concat_ballot hp (metaBallot_save _ _ _ hn.nonzero)) ?_).1
    intro b b' hb _ _ happ
    exact hb.applyNext happ

omit [Bincode] in
theorem Durable.stand (hn : Durable b₀ n) (hid : n.id ≠ 0) : Durable b₀ n.stand := by
  have hz : some n.id ≠ some 0 := fun h => hid (Option.some.inj h)
  exact hn.persist (Or.inl (Nat.lt_succ_self _)) hz (metaBallot_save _ _ _ hz)
    fun p hp => mem_concat_ballot hp (metaBallot_save _ _ _ hz)

def RaftNode.grants (n : RaftNode D) (request : RequestVote) : Bool :=
  n.currentTerm ≤ request.term &&
    (n.currentTerm < request.term || n.votedFor.all (· = request.candidateId)) &&
    n.log[n.log.length - 1]?.any fun last => logIsUpToDate request (n.log.length - 1) last.term

/-- While it processes `input`, the node votes for `c`: as a candidate for itself, or on request. -/
def RaftNode.Casts (n : RaftNode D) (input : Input) (now : Instant) (c : NodeId) : Prop :=
  (n.startsElection input now = true ∧ c = n.id) ∨
    ∃ request, input = .message (.requestVote request) ∧ n.grants request = true ∧ c = request.candidateId

omit [Bincode] in
theorem RaftNode.Casts.ne_zero {c : NodeId} (h : n.Casts input now c) (hid : n.id ≠ 0)
    (hin : ∀ r, input = .message (.requestVote r) → r.candidateId ≠ 0) : c ≠ 0 := by
  rcases h with ⟨-, rfl⟩ | ⟨r, hi, -, rfl⟩
  · exact hid
  · exact hin r hi

omit [Bincode] in
theorem observeTerm_votedFor {t : Nat} {c : NodeId} (h : (n.observeTerm t now).votedFor = some c) :
    n.votedFor = some c ∧ ¬ n.currentTerm < t := by
  rw [RaftNode.observeTerm] at h
  split_ifs at h with ht
  · cases h
  · exact ⟨h, ht⟩

omit [Bincode] in
theorem handleRequestVote_votedFor {request : RequestVote} {response : RequestVoteResponse} {c : NodeId}
    (hs : n.handleRequestVote request now = some (n', response)) (hv : n'.votedFor = some c) :
    n.votedFor = some c ∨ (n.grants request = true ∧ c = request.candidateId) := by
  rw [RaftNode.handleRequestVote] at hs
  split_ifs at hs with h1
  · obtain ⟨rfl, -⟩ := Prod.mk.inj (Option.some.inj hs)
    exact Or.inl hv
  dsimp only at hs
  split_ifs at hs with h2
  · obtain ⟨rfl, -⟩ := Prod.mk.inj (Option.some.inj hs)
    exact Or.inl (observeTerm_votedFor hv).1
  obtain ⟨last, hlast, hs⟩ := Option.bind_eq_some_iff.mp hs
  split_ifs at hs with h3
  · obtain ⟨rfl, -⟩ := Prod.mk.inj (Option.some.inj hs)
    exact Or.inl (observeTerm_votedFor hv).1
  obtain ⟨rfl, -⟩ := Prod.mk.inj (Option.some.inj hs)
  refine Or.inr ⟨?_, (Option.some.inj hv).symm⟩
  rw [(observeTerm_frame n _ now).2.1] at hlast h3
  have hfree : n.currentTerm < request.term ∨ n.votedFor.all (· = request.candidateId) = true := by
    by_cases ht : n.currentTerm < request.term
    · exact Or.inl ht
    · rw [RaftNode.observeTerm, if_neg ht] at h2
      cases hvote : n.votedFor with
      | none => exact Or.inr rfl
      | some v =>
        rw [hvote] at h2
        exact Or.inr (by simpa using h2)
  simp only [RaftNode.grants, hlast, Option.any_some, Bool.and_eq_true, Bool.or_eq_true,
    decide_eq_true_eq]
  exact ⟨⟨not_lt.mp h1, hfree⟩, by simpa using h3⟩

theorem process_votedFor [FloatText] (hs : n.process input now = some n') {c : NodeId} (hv : n'.votedFor = some c) :
    n.votedFor = some c ∨ n.Casts input now c := by
  by_cases hreq : ∃ r, input = .message (.requestVote r)
  · obtain ⟨r, rfl⟩ := hreq
    obtain ⟨⟨b, response⟩, hb, rfl⟩ := Option.map_eq_some_iff.mp hs
    exact (handleRequestVote_votedFor hb hv).imp id fun h => Or.inr ⟨r, rfl, h⟩
  · obtain ⟨b, hb, hacts⟩ := process_acts input now hs
    have hvote : n'.votedFor = b.votedFor := by
      clear hb hs hv
      induction hacts with
      | refl => rfl
      | tail _ hlast ih =>
        rcases hlast.votedFor_cases with h | ⟨r, hi, -⟩
        · exact h.trans ih
        · exact absurd ⟨r, hi⟩ hreq
    rw [hvote] at hv
    rcases hb with rfl | ⟨t, -, -, rfl⟩
    · unfold RaftNode.opening at hv
      dsimp only at hv
      split_ifs at hv with he
      · exact Or.inr (Or.inl ⟨he, (Option.some.inj hv).symm⟩)
      · exact Or.inl hv
    · cases hv

theorem Durable.moves [FloatText] (hn : Durable b₀ n) (hz : ∀ c, n.Casts input now c → c ≠ 0)
    (hs : n.process input now = some n') : Durable n.ballot (n.opening input now) ∧
      Relation.ReflTransGen (fun b b' => Move input now b b' ∧ Durable n.ballot b ∧ Durable n.ballot b')
        (n.opening input now) n' := by
  have hfresh : Durable n.ballot { n with crashPoints := [] } :=
    ⟨hn.nonzero, hn.synced, .refl _, fun _ hp => nomatch hp⟩
  have hopen : Durable n.ballot (n.opening input now) := by
    unfold RaftNode.opening
    dsimp only
    split_ifs with he
    · exact hfresh.stand (hz _ (Or.inl ⟨he, rfl⟩))
    · exact hfresh
  have hvote : n'.votedFor ≠ some 0 := fun h => (process_votedFor hs h).elim hn.nonzero fun h => hz 0 h rfl
  obtain ⟨b, hb, hacts⟩ := process_acts input now hs
  refine ⟨hopen, ?_⟩
  suffices h : Durable n.ballot n' ∧ Relation.ReflTransGen (fun b b' => Move input now b b' ∧
      Durable n.ballot b ∧ Durable n.ballot b') (n.opening input now) n' from h.2
  clear hs
  -- A vote for 0 would stay to the end, so no act on the way casts one.
  induction hacts with
  | refl =>
    rcases hb with rfl | ⟨t, -, ht, rfl⟩
    · exact ⟨hopen, .refl⟩
    · have hmove : Move input now (n.opening input now) ((n.opening input now).stepDown t now) :=
        .stepDown ht
      have hdown : Durable n.ballot ((n.opening input now).stepDown t now) :=
        hopen.move (fun h => nomatch h) hmove
      exact ⟨hdown, .single ⟨hmove, hopen, hdown⟩⟩
  | tail _ hlast ih =>
    obtain ⟨hdur, hmoves⟩ := ih fun h => hvote (hlast.votedFor_keep h)
    have hdur' := hdur.move hvote hlast.move
    exact ⟨hdur', .tail hmoves ⟨hlast.move, hdur, hdur'⟩⟩

/-- Whatever a handler does, the ballot it leaves, in memory, on disk or at a crash inside it, is no
older than the one it found. -/
theorem Durable.process [FloatText] (hn : Durable b₀ n) (hz : ∀ c, n.Casts input now c → c ≠ 0)
    (hs : n.process input now = some n') : Durable n.ballot n' := by
  obtain ⟨hopen, hmoves⟩ := hn.moves hz hs
  rcases Relation.ReflTransGen.cases_tail hmoves with h | ⟨b, -, -, -, hlast⟩
  · exact h ▸ hopen
  · exact hlast

end Ballots

section Plain

def LogEntry.IsCommand (e : LogEntry) : Prop := ∃ r, e.payload = .command r

/-- A log file of store commands, possibly with a torn frame at its end. -/
def PlainFile (file : Bytes) : Prop :=
  ∃ es tail, file = RaftLogStore.frames es ++ tail ∧ RaftLogStore.Stops tail ∧ ∀ e ∈ es, e.IsCommand

def PlainMsg : Message → Prop
  | .appendEntries ae => ∀ e ∈ ae.entries, e.IsCommand
  | .addNode .. | .removeNode _ => False
  | _ => True

/-- A node that knows of store commands only, and so keeps the peers it was started with. -/
structure Plain (peers : List NodeId) (n : RaftNode D) : Prop where
  peers_eq : n.peers = peers
  log : ∀ e ∈ n.log, e.IsCommand
  file : ∃ es, n.logStore.Holds es ∧ ∀ e ∈ es, e.IsCommand
  points : ∀ p ∈ n.crashPoints, PlainFile p.dir.raftLog
  outbox : ∀ e ∈ n.outbox, PlainMsg e.2

variable {ps : List NodeId} {n n' : RaftNode D} {input : Input} {now : Instant}

theorem Plain.plainFile (hn : Plain ps n) : PlainFile n.logStore.file := by
  obtain ⟨es, hes, hcmd⟩ := hn.file
  refine ⟨es, [], ?_, Or.inl rfl, hcmd⟩
  rw [show n.logStore = _ from hes, List.append_nil]

theorem plainFile_torn {es : List LogEntry} (hes : ∀ e ∈ es, e.IsCommand) {e : LogEntry}
    (he : e.IsCommand) : PlainFile (RaftLogStore.frames es ++ RaftLogStore.frameLen e) := by
  by_cases hempty : Bincode.serialize e = []
  · refine ⟨es ++ [e], [], ?_, Or.inl rfl, ?_⟩
    · rw [RaftLogStore.frames_append, RaftLogStore.frames_cons, RaftLogStore.frames_nil,
        RaftLogStore.frame, hempty]
      simp
    · intro x hx
      rcases List.mem_append.mp hx with hx | hx
      · exact hes x hx
      · exact List.mem_singleton.mp hx ▸ he
  · exact ⟨es, _, rfl, RaftLogStore.stops_frameLen hempty, hes⟩

omit [Bincode] in
theorem mem_concat_file {points : List (CrashPoint D)} {p q : CrashPoint D} {file : Bytes}
    (hp : p ∈ points ++ [q]) (hq : q.dir.raftLog = file) : p ∈ points ∨ p.dir.raftLog = file := by
  rcases List.mem_append.mp hp with hp | hp
  · exact Or.inl hp
  · rw [List.mem_singleton.mp hp]
    exact Or.inr hq

theorem Plain.silent (hn : Plain ps n) (hpeers : n'.peers = n.peers) (hlog : n'.log = n.log)
    (hstore : n'.logStore = n.logStore)
    (hpoints : ∀ p ∈ n'.crashPoints, p ∈ n.crashPoints ∨ p.dir.raftLog = n.logStore.file)
    (hout : ∀ e ∈ n'.outbox, e ∈ n.outbox ∨ PlainMsg e.2) : Plain ps n' where
  peers_eq := hpeers.trans hn.peers_eq
  log := hlog ▸ hn.log
  file := hstore ▸ hn.file
  points p hp := (hpoints p hp).elim (hn.points p) fun h => h ▸ hn.plainFile
  outbox e he := (hout e he).elim (hn.outbox e) fun h => h

theorem Plain.pushLogEntry (hn : Plain ps n) {e : LogEntry} (he : e.IsCommand) :
    Plain ps (n.pushLogEntry e) := by
  obtain ⟨es, hes, hcmd⟩ := hn.file
  have hcmd' : ∀ x ∈ es ++ [e], x.IsCommand := by
    intro x hx
    rcases List.mem_append.mp hx with hx | hx
    · exact hcmd x hx
    · exact List.mem_singleton.mp hx ▸ he
  refine ⟨hn.peers_eq, fun x hx => ?_, ⟨es ++ [e], hes.append e, hcmd'⟩, fun p hp => ?_, hn.outbox⟩
  · rcases List.mem_append.mp hx with hx | hx
    · exact hn.log x hx
    · exact List.mem_singleton.mp hx ▸ he
  · rcases List.mem_append.mp hp with hp | hp
    · rcases List.mem_append.mp hp with hp | hp
      · exact hn.points p hp
      · rw [List.mem_singleton.mp hp]
        change PlainFile (n.logStore.file ++ RaftLogStore.frameLen e)
        rw [show n.logStore = _ from hes]
        exact plainFile_torn hcmd he
    · rw [List.mem_singleton.mp hp]
      change PlainFile (n.logStore.append e).file
      rw [show n.logStore.append e = _ from hes.append e]
      exact ⟨es ++ [e], [], (List.append_nil _).symm, Or.inl rfl, hcmd'⟩

theorem Plain.truncateLog (hn : Plain ps n) (i : Nat) : Plain ps (n.truncateLog i) := by
  obtain ⟨es, hes, hcmd⟩ := hn.file
  have hcmd' : ∀ x ∈ es.take i, x.IsCommand := fun x hx => hcmd x (List.mem_of_mem_take hx)
  refine ⟨hn.peers_eq, fun x hx => hn.log x (List.mem_of_mem_take hx),
    ⟨es.take i, hes.truncateFrom i, hcmd'⟩, fun p hp => ?_, hn.outbox⟩
  rcases List.mem_append.mp hp with hp | hp
  · exact hn.points p hp
  · rw [List.mem_singleton.mp hp]
    change PlainFile (n.logStore.truncateFrom i).file
    rw [show n.logStore.truncateFrom i = _ from hes.truncateFrom i]
    exact ⟨es.take i, [], (List.append_nil _).symm, Or.inl rfl, hcmd'⟩

theorem Plain.queued (hn : Plain ps n) (hin : ∀ m, input = .message m → PlainMsg m) {e : Envelope}
    (he : Queued input n e) : PlainMsg e.2 := by
  cases he with
  | appendEntries hr hae =>
    obtain ⟨next, prev, -, -, -, rfl⟩ := makeAppendEntries_eq_some hae
    exact fun x hx => hn.log x (List.mem_of_mem_drop hx)
  | forward hi hm => exact hin _ hi
  | response hr =>
    obtain ⟨r, hr⟩ := hr
    rw [hr]
    trivial
  | requestVote => trivial
  | voteResponse => trivial
  | appendResponse => trivial

omit [Bincode] in
theorem Plain.pushed [FloatText] (hin : ∀ m, input = .message m → PlainMsg m) {e : LogEntry}
    (he : Pushed input n e) : e.IsCommand := by
  cases he with
  | received hi he => exact hin _ hi _ he
  | command => exact ⟨_, rfl⟩
  | addNode hr hi => exact (hin _ hi).elim
  | removeNode hr hi => exact (hin _ hi).elim

theorem Plain.applyNext (hn : Plain ps n) (hs : n.applyNext = some n') : Plain ps n' := by
  obtain ⟨e, points, he, hk, hpoints, hout⟩ := applyNext_kernel hs
  obtain ⟨r, hcmd⟩ := hn.log e (List.mem_of_getElem? he)
  have hcrash : n'.crashPoints = n.crashPoints ++ points := congrArg Kernel.crashPoints hk
  have hpeers : n'.peers = n.peers := by
    rw [show n'.peers = n.peersAfter e.payload from congrArg Kernel.peers hk, hcmd]
    rfl
  refine hn.silent hpeers (congrArg Kernel.log hk) (congrArg Kernel.logStore hk)
    (fun p hp => ?_) fun x hx => ?_
  · rcases List.mem_append.mp (hcrash ▸ hp) with hp | hp
    · exact Or.inl hp
    · exact Or.inr (hpoints p hp ▸ rfl)
  · rcases hout x hx with hx | ⟨r, hr⟩
    · exact Or.inl hx
    · exact Or.inr (hr ▸ trivial)

theorem Plain.move [FloatText] (hn : Plain ps n) (hin : ∀ m, input = .message m → PlainMsg m)
    (hm : Move input now n n') : Plain ps n' := by
  cases hm with
  | aside hk =>
    have hpoints : n'.crashPoints = n.crashPoints := congrArg Kernel.crashPoints hk
    have hout : n'.outbox = n.outbox := congrArg Kernel.outbox hk
    exact hn.silent (congrArg Kernel.peers hk) (congrArg Kernel.log hk) (congrArg Kernel.logStore hk)
      (fun p hp => Or.inl (hpoints ▸ hp)) fun e he => Or.inl (hout ▸ he)
  | enqueue he =>
    refine hn.silent rfl rfl rfl (fun p hp => Or.inl hp) fun e hmem => ?_
    rcases List.mem_append.mp hmem with hmem | hmem
    · exact Or.inl hmem
    · exact Or.inr (List.mem_singleton.mp hmem ▸ hn.queued hin he)
  | stepDown =>
    refine hn.silent rfl rfl rfl (fun p hp => mem_concat_file hp rfl) fun e he => ?_
    rcases stepDown_outbox _ _ _ e he with he | ⟨r, hr⟩
    · exact Or.inl he
    · exact Or.inr (hr ▸ trivial)
  | follow => exact hn.silent rfl rfl rfl (fun p hp => Or.inl hp) fun e he => Or.inl he
  | count => exact hn.silent rfl rfl rfl (fun p hp => Or.inl hp) fun e he => Or.inl he
  | lead => exact hn.silent rfl rfl rfl (fun p hp => Or.inl hp) fun e he => Or.inl he
  | grant => exact hn.silent rfl rfl rfl (fun p hp => mem_concat_file hp rfl) fun e he => Or.inl he
  | push he => exact hn.pushLogEntry (Plain.pushed hin he)
  | replace he => exact (hn.truncateLog _).pushLogEntry (Plain.pushed hin he)
  | settle _ _ _ hs =>
    exact (applyCommittedEntries_induct hs (I := fun b => Plain ps b)
      (hn.silent rfl rfl rfl (fun p hp => mem_concat_file hp rfl) fun e he => Or.inl he)
      fun b b' hb _ _ happ => hb.applyNext happ).1

theorem Plain.process [FloatText] (hn : Plain ps n) (hin : ∀ m, input = .message m → PlainMsg m)
    (hs : n.process input now = some n') : Plain ps n' := by
  have hopen : Plain ps (n.opening input now) := by
    have hfresh : Plain ps { n with crashPoints := [] } :=
      ⟨hn.peers_eq, hn.log, hn.file, fun _ hp => (nomatch hp), hn.outbox⟩
    unfold RaftNode.opening
    dsimp only
    split_ifs
    · exact hfresh.silent rfl rfl rfl (fun p hp => mem_concat_file hp rfl) fun e he => Or.inl he
    · exact hfresh
  have hmoves := process_moves input now hs
  clear hs
  induction hmoves with
  | refl => exact hopen
  | tail _ hlast ih => exact ih.move hin hlast

end Plain
end KvRaft
