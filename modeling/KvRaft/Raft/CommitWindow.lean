import KvRaft.Lsm.CrashPoints
import KvRaft.Lsm.NodeStorage
import KvRaft.Raft.Applying
import KvRaft.Raft.CommitProgress
import KvRaft.Raft.Recovery
import KvRaft.Raft.TornMeta

/-! A crash between the write of a commit index and the database calls that it is followed by. A node that is
started again takes all that is committed for applied, so it never makes the calls that were left. -/

namespace KvRaft
open RaftNode hiding id

section General
variable {D : Type} [Storage D]

def Dir.commitIndex (dir : Dir D) : Nat := (RaftMeta.load dir.raftMeta).commitIndex

namespace RaftNode

/-- Between two handlers all that is committed is stored as such and applied. -/
structure Level (config : Config) (n : RaftNode D) : Prop where
  bound : n.lastApplied < n.log.length
  even : n.lastApplied = n.commitIndex
  stored : n.dir.commitIndex = n.commitIndex
  db : n.db = Storage.runAll (Storage.fresh config) (commandsUpTo n.log n.lastApplied)

/-- The input neither replaces an applied entry nor sets the commit index back. -/
def Onwards (n : RaftNode D) (s : Input × Instant) : Prop := s.1.KeepsApplied n ∧ n.KeepsCommit s.1

/-- In a handler that started on `n`, with `log` in memory and `dir` on disk, the database calls for the
entries up to `a` have returned. -/
structure Stands (n : RaftNode D) (log : List LogEntry) (dir : Dir D) (a : Nat) : Prop where
  kept : log.take (n.lastApplied + 1) = n.log.take (n.lastApplied + 1)
  since : n.lastApplied ≤ a
  due : a ≤ dir.commitIndex
  files : dir.db = Storage.disk (n.dbAt log (a + 1))

/-- One file operation of such a handler, from what a crash before it leaves to what one after it leaves. -/
structure FileStep (n : RaftNode D) (p q : CrashPoint D) : Prop where
  stands : ∃ a, n.Stands q.log p.dir a ∧ (q.dir.db = p.dir.db ∨ q.dir.db = Storage.disk (n.dbAt q.log (a + 2)))
  saved : q.dir.raftMeta = p.dir.raftMeta ∨ ∃ c t v, q.dir.raftMeta = [c, t, v] ++ p.dir.raftMeta.drop 3
  le : p.dir.commitIndex ≤ q.dir.commitIndex

/-- What a crash leaves after each of the file operations so far, and what was there before. -/
def course (n m : RaftNode D) : List (CrashPoint D) := ⟨n.dir, n.log⟩ :: m.crashPoints

structure Midway (n m : RaftNode D) : Prop where
  kept : m.log.take (n.lastApplied + 1) = n.log.take (n.lastApplied + 1)
  since : n.lastApplied ≤ m.lastApplied
  due : m.lastApplied ≤ m.commitIndex
  bound : m.lastApplied < m.log.length
  stored : m.dir.commitIndex = m.commitIndex
  db : m.db = n.dbAt m.log (m.lastApplied + 1)
  chain : (n.course m).IsChain (FileStep n)
  last : (n.course m).getLast?.map CrashPoint.dir = some m.dir

end RaftNode

section Commands

theorem commandsUpTo_append {log : List LogEntry} {i j : Nat} (h : i ≤ j) :
    commandsUpTo log j = commandsUpTo log i ++ commandsBetween log i j := by
  have htake : log.take (i + 1) = (log.take (j + 1)).take (i + 1) := by
    rw [List.take_take, Nat.min_eq_left (by omega)]
  rw [commandsUpTo, commandsUpTo, commandsBetween, htake, ← List.filterMap_append]
  congr 1
  cases log with
  | nil => simp
  | cons e log => simp [List.take_append_drop]

theorem commandsUpTo_next (log : List LogEntry) (i : Nat) :
    commandsUpTo log (i + 1) = commandsUpTo log i ++ (log[i + 1]?.bind LogEntry.command?).toList := by
  cases he : log[i + 1]? with
  | some e => exact commandsUpTo_succ he
  | none =>
    have hlen := List.getElem?_eq_none_iff.mp he
    rw [commandsUpTo, commandsUpTo, List.take_of_length_le hlen, List.take_of_length_le (hlen.trans (Nat.le_succ _))]
    exact (List.append_nil _).symm

theorem RaftNode.Level.dbAt {config : Config} {n : RaftNode D} (h : Level config n) {log : List LogEntry} {a : Nat}
    (hkept : log.take (n.lastApplied + 1) = n.log.take (n.lastApplied + 1)) (ha : n.lastApplied ≤ a) :
    n.dbAt log (a + 1) = Storage.runAll (Storage.fresh config) (commandsUpTo log a) := by
  rw [RaftNode.dbAt, h.db, commandsUpTo_append ha, Storage.runAll_append, commandsUpTo_of_take hkept,
    Nat.add_sub_cancel]

end Commands

section Points
variable {n n' : RaftNode D}

theorem applyPayload_points (n : RaftNode D) (p : EntryPayload) :
    ((n.applyPayload p).2.crashPoints = n.crashPoints ∧ (n.applyPayload p).2.db = n.db) ∨
      (n.applyPayload p).2.crashPoints =
        n.crashPoints ++ [⟨{ n.dir with db := Storage.disk (n.applyPayload p).2.db }, n.log⟩] := by
  cases p with
  | command r => exact Or.inr rfl
  | addNode id addr => exact Or.inl ⟨rfl, rfl⟩
  | removeNode id => exact Or.inl ⟨rfl, rfl⟩

theorem applyNext_points (hs : n.applyNext = some n') : (n'.crashPoints = n.crashPoints ∧ n'.db = n.db) ∨
    n'.crashPoints = n.crashPoints ++ [⟨{ n.dir with db := Storage.disk n'.db }, n.log⟩] := by
  obtain ⟨e, -, rfl⟩ := applyNext_eq_some hs
  have hpoints := applyPayload_points n e.payload
  generalize n.applyPayload e.payload = p at hpoints ⊢
  obtain ⟨result, b⟩ := p
  dsimp only at hpoints ⊢
  have hk := (resolvePending_kernel { b with lastApplied := n.lastApplied + 1 } (n.lastApplied + 1) e.term result).1
  rw [show RaftNode.crashPoints _ = b.crashPoints from congrArg Kernel.crashPoints hk,
    show RaftNode.db _ = b.db from congrArg Kernel.db hk]
  exact hpoints

end Points

namespace RaftNode.Midway
variable {n m m' : RaftNode D}

theorem start {config : Config} (h : Level config n) : Midway n { n with crashPoints := [] } where
  kept := rfl
  since := le_rfl
  due := h.even.le
  bound := h.bound
  stored := h.stored
  db := by
    change n.db = Storage.runAll n.db (commandsBetween n.log n.lastApplied n.lastApplied)
    rw [commandsBetween_self]
    rfl
  chain := List.isChain_singleton _
  last := rfl

theorem stands (h : Midway n m) : n.Stands m.log m.dir m.lastApplied :=
  ⟨h.kept, h.since, h.stored ▸ h.due, congrArg Storage.disk h.db⟩

theorem keep (h : Midway n m) (hlog : m'.log.take (m.lastApplied + 1) = m.log.take (m.lastApplied + 1))
    (happ : m'.lastApplied = m.lastApplied) (hcommit : m'.commitIndex = m.commitIndex) (hdb : m'.db = m.db)
    (hdir : m'.dir = m.dir) (hpoints : m'.crashPoints = m.crashPoints) : Midway n m' := by
  have hcourse : n.course m' = n.course m := by rw [course, hpoints, course]
  have hlen : (m'.log.take (m.lastApplied + 1)).length = m.lastApplied + 1 := by
    rw [hlog, List.length_take, Nat.min_eq_left h.bound]
  have hkept : ∀ i ≤ m.lastApplied, m'.log.take (i + 1) = m.log.take (i + 1) := by
    intro i hi
    have htake := congrArg (List.take (i + 1)) hlog
    rwa [List.take_take, List.take_take, Nat.min_eq_left (by omega)] at htake
  refine ⟨(hkept _ h.since).trans h.kept, happ ▸ h.since, by rw [happ, hcommit]; exact h.due, ?_,
    by rw [hdir, hcommit]; exact h.stored, ?_, hcourse ▸ h.chain, by rw [hcourse, hdir]; exact h.last⟩
  · rw [List.length_take] at hlen
    omega
  · rw [hdb, h.db, happ, RaftNode.dbAt, RaftNode.dbAt, Nat.add_sub_cancel, commandsBetween, commandsBetween, hlog]

theorem chain_concat (h : Midway n m) {q : CrashPoint D} (hlog : q.log = m.log)
    (hcall : q.dir.db = m.dir.db ∨ q.dir.db = Storage.disk (n.dbAt m.log (m.lastApplied + 2)))
    (hsaved : q.dir.raftMeta = m.dir.raftMeta ∨ ∃ c t v, q.dir.raftMeta = [c, t, v] ++ m.dir.raftMeta.drop 3)
    (hle : m.commitIndex ≤ q.dir.commitIndex) : (n.course m ++ [q]).IsChain (FileStep n) := by
  rw [List.isChain_append]
  refine ⟨h.chain, List.isChain_singleton _, fun p hp q' hq' => ?_⟩
  obtain rfl := Option.some.inj hq'
  obtain ⟨p', hp', hdir⟩ := Option.map_eq_some_iff.mp h.last
  obtain rfl : p' = p := Option.some.inj (hp'.symm.trans hp)
  exact ⟨⟨_, by rw [hlog, hdir]; exact ⟨h.stands, hcall⟩⟩, hdir ▸ hsaved, by rw [hdir, h.stored]; exact hle⟩

/-- A file operation that is not a call of the database. The log in memory is changed after it, if at all. -/
theorem operate (h : Midway n m) (hlog : m'.log = m.log) (happ : m'.lastApplied = m.lastApplied)
    (hcommit : m.commitIndex ≤ m'.commitIndex) (hdb : m'.db = m.db)
    (hsaved : m'.dir.raftMeta = m.dir.raftMeta ∨ ∃ c t v, m'.dir.raftMeta = [c, t, v] ++ m.dir.raftMeta.drop 3)
    (hstored : m'.dir.commitIndex = m'.commitIndex) (hpoints : m'.crashPoints = m.crashPoints ++ [⟨m'.dir, m.log⟩]) :
    Midway n m' := by
  have hcourse : n.course m' = n.course m ++ [⟨m'.dir, m.log⟩] := by rw [course, hpoints]; rfl
  refine ⟨hlog ▸ h.kept, happ ▸ h.since, happ ▸ h.due.trans hcommit, by rw [hlog, happ]; exact h.bound, hstored,
    by rw [hdb, hlog, happ]; exact h.db, ?_, ?_⟩
  · rw [hcourse]
    exact h.chain_concat rfl (Or.inl (congrArg Storage.disk hdb)) hsaved (by rw [hstored]; exact hcommit)
  · rw [hcourse, List.getLast?_concat]
    rfl

theorem aside (h : Midway n m) (hk : m'.kernel = m.kernel) : Midway n m' := by
  have hdir : m'.dir = m.dir :=
    congrArg (fun k => (⟨k.logStore.file, k.metaStore.file, Storage.disk k.db⟩ : Dir D)) hk
  exact h.keep (by rw [show m'.log = m.log from congrArg Kernel.log hk]) (congrArg Kernel.lastApplied hk)
    (congrArg Kernel.commitIndex hk) (congrArg Kernel.db hk) hdir (congrArg Kernel.crashPoints hk)

theorem persistMeta (h : Midway n m) {k : Nat} (hk : m.commitIndex ≤ k) :
    Midway n ({ m with commitIndex := k }).persistMeta :=
  h.operate rfl rfl hk rfl (Or.inr ⟨_, _, _, rfl⟩) rfl rfl

theorem writeLog (h : Midway n m) (store : RaftLogStore) : Midway n ({ m with logStore := store }).mark :=
  h.operate rfl rfl le_rfl rfl (Or.inl rfl) h.stored rfl

theorem pushLogEntry [Bincode] (h : Midway n m) (e : LogEntry) : Midway n (m.pushLogEntry e) :=
  ((h.writeLog { m.logStore with file := m.logStore.file ++ RaftLogStore.frameLen e }).writeLog
    (m.logStore.append e)).keep (List.take_append_of_le_length h.bound) rfl rfl rfl rfl rfl

theorem truncateLog (h : Midway n m) {i : Nat} (hi : m.lastApplied < i) : Midway n (m.truncateLog i) := by
  refine (h.writeLog (m.logStore.truncateFrom i)).keep ?_ rfl rfl rfl rfl rfl
  change (m.log.take i).take (m.lastApplied + 1) = m.log.take (m.lastApplied + 1)
  rw [List.take_take, Nat.min_eq_left hi]

theorem appendLoop [Bincode] {es : List LogEntry} {i : Nat} (h : Midway n m)
    (hkeeps : ∀ j e old, es[j]? = some e → m.log[i + j]? = some old → i + j ≤ m.lastApplied → old.term = e.term) :
    Midway n (m.appendLoop i es) := by
  induction es generalizing m i with
  | nil => exact h
  | cons e es ih =>
    -- what is appended lies behind the applied entries
    have hrest : ∀ {b : RaftNode D}, b.lastApplied = m.lastApplied →
        b.log.take (m.lastApplied + 1) = m.log.take (m.lastApplied + 1) →
        ∀ j x old, es[j]? = some x → b.log[i + 1 + j]? = some old → i + 1 + j ≤ b.lastApplied →
          old.term = x.term := by
      intro b happ htake j x old hx hold hle
      rw [happ] at hle
      have hlt := Nat.lt_succ_of_le hle
      have hindex : i + (j + 1) = i + 1 + j := by omega
      refine hkeeps (j + 1) x old hx ?_ (by omega)
      rw [hindex, ← List.getElem?_take_of_lt hlt, ← htake, List.getElem?_take_of_lt hlt, hold]
    rw [RaftNode.appendLoop]
    cases hold : m.log[i]? with
    | none => exact ih (h.pushLogEntry e) (hrest rfl (List.take_append_of_le_length h.bound))
    | some old =>
      dsimp only
      split_ifs with hne
      · have hi : m.lastApplied < i := by
          by_contra hle
          exact hne (hkeeps 0 e old rfl hold (by omega))
        have hcut := (h.truncateLog hi).pushLogEntry e
        refine ih hcut (hrest rfl ?_)
        have hbound : m.lastApplied < (m.log.take i).length := (h.truncateLog hi).bound
        change (m.log.take i ++ [e]).take (m.lastApplied + 1) = _
        rw [List.take_append_of_le_length hbound, List.take_take, Nat.min_eq_left hi]
      · exact ih h (hrest rfl rfl)

theorem applyNext (h : Midway n m) (hlt : m.lastApplied < m.commitIndex) (hs : m.applyNext = some m') :
    Midway n m' := by
  obtain ⟨e, he, hlog, happ, hdb, -⟩ := applyNext_answers hs
  obtain ⟨_, _, -, hk, -⟩ := applyNext_kernel hs
  have hcommit : m'.commitIndex = m.commitIndex := congrArg Kernel.commitIndex hk
  have hdir : m'.dir = { m.dir with db := Storage.disk m'.db } :=
    congrArg (fun k => (⟨k.logStore.file, k.metaStore.file, Storage.disk m'.db⟩ : Dir D)) hk
  have hstored : m'.dir.commitIndex = m'.commitIndex := by
    rw [hdir, hcommit]
    exact h.stored
  have hdb' : m'.db = n.dbAt m'.log (m'.lastApplied + 1) := by
    rw [hdb, h.db, hlog, happ, RaftNode.dbAt, RaftNode.dbAt, Nat.add_sub_cancel, Nat.add_sub_cancel,
      commandsBetween_succ h.since he, Storage.runAll_append]
  have hbound : m'.lastApplied < m'.log.length := by
    rw [happ, hlog]
    exact (List.getElem?_eq_some_iff.mp he).1
  have hsince : n.lastApplied ≤ m'.lastApplied := happ ▸ h.since.trans (Nat.le_succ _)
  have hdue : m'.lastApplied ≤ m'.commitIndex := by omega
  rcases applyNext_points hs with ⟨hpoints, hsame⟩ | hpoints
  · have hcourse : n.course m' = n.course m := by rw [course, hpoints, course]
    refine ⟨hlog ▸ h.kept, hsince, hdue, hbound, hstored, hdb', hcourse ▸ h.chain, ?_⟩
    rw [hcourse, hdir, hsame]
    exact h.last
  · have hcourse : n.course m' = n.course m ++ [⟨m'.dir, m.log⟩] := by rw [course, hpoints, hdir]; rfl
    refine ⟨hlog ▸ h.kept, hsince, hdue, hbound, hstored, hdb', ?_, ?_⟩
    · rw [hcourse]
      refine h.chain_concat rfl (Or.inr ?_) (Or.inl (by rw [hdir])) (by rw [hstored, hcommit])
      rw [hdir, hdb', hlog, happ]
    · rw [hcourse, List.getLast?_concat]
      rfl

theorem settle (h : Midway n m) {k : Nat} (hk : m.commitIndex ≤ k)
    (hs : ({ m with commitIndex := k }).persistMeta.applyCommittedEntries = some m') : Midway n m' :=
  (applyCommittedEntries_induct hs (h.persistMeta hk) fun _ _ hb _ hlt hnext => hb.applyNext hlt hnext).1

theorem stepDown (h : Midway n m) (t : Nat) (now : Instant) : Midway n (m.stepDown t now) :=
  h.operate rfl rfl le_rfl rfl (Or.inr ⟨_, _, _, rfl⟩) rfl rfl

theorem observeTerm (h : Midway n m) (t : Nat) (now : Instant) : Midway n (m.observeTerm t now) := by
  unfold RaftNode.observeTerm
  split_ifs
  · exact h.stepDown t now
  · exact h

variable {input : Input} {now : Instant}

theorem move [FloatText] [Bincode] (h : Midway n m) (hno : ∀ ae, input ≠ .message (.appendEntries ae))
    (hm : Move input now m m') :
    Midway n m' := by
  cases hm with
  | aside hk => exact h.aside hk
  | stepDown => exact h.stepDown _ now
  | grant => exact h.operate rfl rfl le_rfl rfl (Or.inr ⟨_, _, _, rfl⟩) rfl rfl
  | push => exact h.pushLogEntry _
  | replace _ _ _ _ ha =>
    obtain ⟨ae, hi⟩ := ha
    exact absurd hi (hno ae)
  | settle _ _ hc hs =>
    rcases hc with ⟨-, hle⟩ | ⟨ae, hi, -⟩
    · exact h.settle hle hs
    · exact absurd hi (hno ae)
  | enqueue | follow | count | lead => exact h.keep rfl rfl rfl rfl rfl rfl

theorem handleAppendEntries [Bincode] {config : Config} (hlevel : Level config n) {ae : AppendEntries}
    {response : AppendEntriesResponse} (honwards : n.Onwards (.message (.appendEntries ae), now))
    (hs : ({ n with crashPoints := [] }).handleAppendEntries ae now = some (m', response)) : Midway n m' := by
  obtain ⟨hkeeps, hcommit⟩ := honwards
  simp only [RaftNode.handleAppendEntries] at hs
  split_ifs at hs with hterm
  · obtain ⟨rfl, -⟩ := Prod.mk.inj (Option.some.inj hs)
    exact .start hlevel
  have hfollow : Midway n (({ n with crashPoints := [] } : RaftNode D).observeTerm ae.term now |>.followLeader
      ae.leaderId now) := ((start hlevel).observeTerm ae.term now).keep rfl rfl rfl rfl rfl rfl
  obtain ⟨-, hlog, hci, happ⟩ := observeTerm_frame ({ n with crashPoints := [] } : RaftNode D) ae.term now
  have hlog' : (({ n with crashPoints := [] } : RaftNode D).observeTerm ae.term now |>.followLeader
      ae.leaderId now).log = n.log := hlog
  have hci' : (({ n with crashPoints := [] } : RaftNode D).observeTerm ae.term now |>.followLeader
      ae.leaderId now).commitIndex = n.commitIndex := hci
  have happ' : (({ n with crashPoints := [] } : RaftNode D).observeTerm ae.term now |>.followLeader
      ae.leaderId now).lastApplied = n.lastApplied := happ
  generalize (({ n with crashPoints := [] } : RaftNode D).observeTerm ae.term now).followLeader ae.leaderId now = b
    at hs hfollow hlog' hci' happ'
  rw [hlog'] at hs
  cases hprev : n.log[ae.prevLogIndex]? with
  | none =>
    rw [hprev] at hs
    obtain ⟨rfl, -⟩ := Prod.mk.inj (Option.some.inj hs)
    exact hfollow
  | some prev =>
    rw [hprev] at hs
    dsimp only at hs
    split_ifs at hs with hne
    · obtain ⟨rfl, -⟩ := Prod.mk.inj (Option.some.inj hs)
      exact hfollow
    · -- the request is accepted, so it knows of all that is committed
      have hle : n.commitIndex ≤ ae.leaderCommit :=
        hcommit ⟨Nat.not_lt.mp hterm, by rw [hprev, Option.map_some, not_not.mp hne]⟩
      have hloop : Midway n (b.appendLoop (ae.prevLogIndex + 1) ae.entries) :=
        hfollow.appendLoop fun j e old he hold hj => hkeeps j e old he (hlog' ▸ hold) (happ' ▸ hj)
      obtain ⟨c, hc, hres⟩ := Option.map_eq_some_iff.mp hs
      obtain ⟨rfl, -⟩ := Prod.mk.inj hres
      refine hloop.settle ?_ hc
      have hcore := (b.appendLoop_core (ae.prevLogIndex + 1) ae.entries).1
      have hcommit' : (b.appendLoop (ae.prevLogIndex + 1) ae.entries).commitIndex = b.commitIndex :=
        congrArg Core.commitIndex hcore
      have happ'' : (b.appendLoop (ae.prevLogIndex + 1) ae.entries).lastApplied = b.lastApplied :=
        congrArg Core.lastApplied hcore
      have hbound := hloop.bound
      have heven := hlevel.even
      omega

theorem process [FloatText] [Bincode] {config : Config} (hlevel : Level config n) (honwards : n.Onwards (input, now))
    (hs : n.process input now = some m') : Midway n m' := by
  by_cases hae : ∃ ae, input = .message (.appendEntries ae)
  · obtain ⟨ae, rfl⟩ := hae
    obtain ⟨⟨b, response⟩, hb, rfl⟩ := Option.map_eq_some_iff.mp hs
    exact (handleAppendEntries hlevel honwards hb).keep rfl rfl rfl rfl rfl rfl
  · have hno : ∀ ae, input ≠ .message (.appendEntries ae) := fun ae h => hae ⟨ae, h⟩
    have hopen : Midway n (n.opening input now) := by
      unfold RaftNode.opening
      dsimp only
      split_ifs
      · exact (start hlevel).operate rfl rfl le_rfl rfl (Or.inr ⟨_, _, _, rfl⟩) rfl rfl
      · exact start hlevel
    have hmoves := process_moves input now hs
    clear hs
    induction hmoves with
    | refl => exact hopen
    | tail _ hlast ih => exact ih.move hno hlast

end RaftNode.Midway

section Cut
variable {n n' : RaftNode D} {dir : Dir D} {k w : Nat}

/-- However much of a save has reached the file, the commit index there is the old one or the new one. -/
theorem load_overwrite {old new : List Nat} (h : new = old ∨ ∃ c t v, new = [c, t, v] ++ old.drop 3) (w : Nat) :
    (RaftMeta.load (overwrite w old new)).commitIndex = (RaftMeta.load old).commitIndex ∨
      (RaftMeta.load (overwrite w old new)).commitIndex = (RaftMeta.load new).commitIndex := by
  rcases h with rfl | ⟨c, t, v, rfl⟩
  · rw [overwrite, List.take_append_drop]
    exact Or.inl rfl
  rcases w with _ | _ | _ | w
  · exact Or.inl rfl
  · -- the first word is the commit index, and a file of less than three words counts for nothing
    rcases old with _ | ⟨_, _ | ⟨_, _ | ⟨_, old⟩⟩⟩
    · exact Or.inl rfl
    · exact Or.inl rfl
    · exact Or.inl rfl
    · exact Or.inr rfl
  · rcases old with _ | ⟨_, _ | ⟨_, _ | ⟨_, old⟩⟩⟩
    · exact Or.inl rfl
    · exact Or.inl rfl
    · exact Or.inl rfl
    · exact Or.inr rfl
  · exact Or.inr rfl

def RaftNode.logAt (n' : RaftNode D) (k : Nat) : List LogEntry :=
  (n'.crashPoints[k]?.map CrashPoint.log).getD n'.log

/-- Wherever a handler is cut off, it stands at some entry, and the next file operation is the database call
for the entry after that one, if it is a call at all. -/
theorem RaftNode.Midway.cut (h : Midway n n') (hdir : n.cutAt n' k w = some dir) :
    ∃ a, n.Stands (n'.logAt k) dir a ∧ ∀ next, n'.crashPoints[k]? = some next →
      next.dir.db = dir.db ∨ next.dir.db = Storage.disk (n.dbAt (n'.logAt k) (a + 2)) := by
  obtain ⟨before, hbefore, hdir⟩ := Option.bind_eq_some_iff.mp hdir
  have hbefore : ((n.course n').map CrashPoint.dir)[k]? = some before := hbefore
  rw [List.getElem?_map] at hbefore
  obtain ⟨p, hp, rfl⟩ := Option.map_eq_some_iff.mp hbefore
  cases hnext : n'.crashPoints[k]? with
  | none =>
    rw [hnext] at hdir
    obtain rfl := Option.some.inj hdir
    -- nothing is to be written any more
    have hlen : (n.course n').length - 1 = k := by
      have hlt := (List.getElem?_eq_some_iff.mp hp).1
      have hle := List.getElem?_eq_none_iff.mp hnext
      rw [course, List.length_cons] at hlt ⊢
      omega
    have hlast := h.last
    rw [List.getLast?_eq_getElem?, hlen, hp] at hlast
    have hlast : p.dir = n'.dir := Option.some.inj hlast
    refine ⟨n'.lastApplied, ?_, fun next hno => (Option.some_ne_none next hno.symm).elim⟩
    rw [logAt, hnext, hlast]
    exact h.stands
  | some next =>
    rw [hnext] at hdir
    obtain rfl := Option.some.inj hdir
    have hq : (n.course n')[k + 1]? = some next := hnext
    obtain ⟨hk, rfl⟩ := List.getElem?_eq_some_iff.mp hp
    obtain ⟨hk', rfl⟩ := List.getElem?_eq_some_iff.mp hq
    obtain ⟨⟨a, hstands, hcall⟩, hsaved, hle⟩ := List.isChain_iff_getElem.mp h.chain k hk'
    rw [logAt, hnext]
    refine ⟨a, ⟨hstands.kept, hstands.since, ?_, hstands.files⟩, fun next hsome => Option.some.inj hsome ▸ hcall⟩
    rcases load_overwrite hsaved w with heq | heq
    · exact hstands.due.trans_eq heq.symm
    · exact (hstands.due.trans hle).trans_eq heq.symm

end Cut

section Run
variable {config : Config} {n₀ n n' : RaftNode D} {input : Input} {now : Instant}

theorem RaftNode.Level.newInDir [FloatText] [Bincode] {id : NodeId} {ps : List NodeId}
    (hn : RaftNode.newInDir Dir.empty id ps config now = some n) : Level config n := by
  obtain ⟨b, hb, hcore, -⟩ := newInDir_empty (D := D) id ps config now
  obtain rfl := Option.some.inj (hb.symm.trans hn)
  obtain ⟨-, -, -, -, -, hmeta, -⟩ := newInDir_eq_some hn
  have hlog : b.log = [sentinel] := congrArg Core.log hcore
  have happ : b.lastApplied = 0 := congrArg Core.lastApplied hcore
  have hci : b.commitIndex = 0 := congrArg Core.commitIndex hcore
  refine ⟨by rw [happ, hlog]; exact Nat.one_pos, by rw [happ, hci], ?_, ?_⟩
  · rw [hci, Dir.commitIndex, RaftNode.dir, hmeta]
    rfl
  · rw [happ, commandsUpTo_zero]
    exact congrArg Core.db hcore

theorem RaftNode.Level.process [FloatText] [Bincode] (h : Level config n) (honwards : n.Onwards (input, now))
    (hs : n.process input now = some n') : Level config n' := by
  have hmid := Midway.process h honwards hs
  exact ⟨hmid.bound, (process_commit hs h.even hmid.bound).2 honwards.2, hmid.stored,
    hmid.db.trans (h.dbAt hmid.kept hmid.since)⟩

def RaftNode.RunsOnwards [FloatText] [Bincode] (n : RaftNode D) (steps : List (Input × Instant)) : Prop :=
  Fold.Along (fun b s => b.process s.1 s.2) Onwards n steps

theorem RaftNode.Level.exec [FloatText] [Bincode] {steps : List (Input × Instant)} (h : Level config n₀)
    (honwards : n₀.RunsOnwards steps) (hn : n₀.exec steps = some n) : Level config n :=
  Fold.foldlM_along hn honwards h fun _ _ _ _ hq hb hs => hb.process hq hs

end Run
end General

section Database
variable [FloatText] [Xxh3] [BloomSizing]

/-- A crash inside a handler that takes `n` to `n'`: after `k` of its file operations and, of the next one,
`w` words if it is a save, and `ops` changes of files if it is the database call for an entry. -/
structure Crash (n n' : RaftNode Database) where
  k : Nat
  w : Nat
  ops : Nat
  dir : Dir Database
  applied : Nat
  cut : n.cutAt n' k w = some dir
  stands : n.Stands (n'.logAt k) dir applied
  inside : ops ≠ 0 → n'.crashPoints[k]?.map (fun p => p.dir.db) =
    some (Storage.disk (n.dbAt (n'.logAt k) (applied + 2)))

namespace Crash
variable {n n' : RaftNode Database}

def log (x : Crash n n') : List LogEntry := n'.logAt x.k

/-- The changes of files of the call for the entry after the applied ones. -/
def journal (x : Crash n n') : List FileOp :=
  match x.log[x.applied + 1]?.bind LogEntry.command? with
  | some c => (Storage.run (n.dbAt x.log (x.applied + 1)) c).2.journal
  | none => []

def changes (x : Crash n n') : List FileOp := x.journal.take x.ops

def left (x : Crash n n') : Dir Database :=
  { x.dir with db := Disk.applyAll x.dir.db x.changes }

def called (x : Crash n n') : List Command :=
  commandsUpTo x.log (if x.ops = 0 then x.applied else x.applied + 1)

def committed (x : Crash n n') : List Command := commandsUpTo x.log x.dir.commitIndex

/-- A node opens on what is left, and its database stands for the map of the committed commands. -/
def Recovers [Bincode] (x : Crash n n') (id : NodeId) (ps : List NodeId) (config : Config) (now : Instant) : Prop :=
  ∃ r, RaftNode.newInDir x.left id ps config now = some r ∧
    ∀ key, r.db.get key = .ok (Storage.fold x.committed key)

/-- The calls up to the crash succeed, on keys and values that fit, and make their tables in order. -/
structure Succeeds (config : Config) (x : Crash n n') : Prop where
  fits : ∀ c ∈ x.called, c.Fits
  order : Database.RunCreatesIn Database.InOrder x.called (.fresh config)
  run : ∃ db, Database.execAll x.called (.fresh config) = .ok () db

variable {x : Crash n n'} {config : Config}

theorem recovers_iff_open [Bincode] {id : NodeId} {ps : List NodeId} {now : Instant} :
    x.Recovers id ps config now ↔ Database.Recovers config x.committed x.left.db := by
  have hnew : ∀ {db : Database}, Storage.openInDir x.left.db config = .ok db →
      ∃ r, RaftNode.newInDir x.left id ps config now = some r ∧ r.db = db := fun hopen => by
    obtain ⟨r, hr, -, hdb⟩ := newInDir_of_open ps id now hopen
    exact ⟨r, hr, hdb⟩
  constructor
  · rintro ⟨r, hr, hget⟩
    cases hopen : (Storage.openInDir x.left.db config : Except Fault Database) with
    | error e =>
      simp only [RaftNode.newInDir, hopen] at hr
      cases hr
    | ok db =>
      obtain ⟨r', hr', hdb⟩ := hnew hopen
      obtain rfl := Option.some.inj (hr.symm.trans hr')
      exact ⟨db, hopen, hdb ▸ hget⟩
  · rintro ⟨db, hopen, hget⟩
    obtain ⟨r, hr, hdb⟩ := hnew hopen
    exact ⟨r, hr, hdb ▸ hget⟩

theorem left_recovers (hlevel : 1 ≤ config.sstableLevel) (h : Level config n) (hx : x.Succeeds config) :
    Database.RecoversIff config x.called x.left.db (finished x.changes) := by
  obtain ⟨hfits, horder, db, hrun⟩ := hx
  have hat : n.dbAt x.log (x.applied + 1) = Storage.runAll (.fresh config) (commandsUpTo x.log x.applied) :=
    h.dbAt x.stands.kept x.stands.since
  have hfiles : x.dir.db = Database.disk (n.dbAt x.log (x.applied + 1)) := x.stands.files
  -- no call, and one that has changed nothing yet
  have hcalm : x.changes = [] → x.called = commandsUpTo x.log x.applied →
      Database.RecoversIff config x.called x.left.db (finished x.changes) := by
    intro hchanges hcalled
    have hleft : x.left.db = db.disk := by
      rw [left, hchanges]
      change x.dir.db = _
      rw [hfiles, hat, ← hcalled, runAll_of_execAll hrun]
    rw [hleft, hchanges]
    exact (fresh_recovers hlevel hfits horder hrun).iff rfl
  by_cases hops : x.ops = 0
  · exact hcalm (by rw [changes, hops, List.take_zero]) (by rw [called, if_pos hops])
  cases hnext : x.log[x.applied + 1]?.bind LogEntry.command? with
  | none =>
    refine hcalm ?_ ?_
    · rw [changes, journal, hnext, List.take_nil]
    · rw [called, if_neg hops, commandsUpTo_next, hnext, Option.toList_none, List.append_nil]
  | some c =>
    have hcalled : x.called = commandsUpTo x.log x.applied ++ [c] := by
      rw [called, if_neg hops, commandsUpTo_next, hnext, Option.toList_some]
    rw [hcalled] at hfits horder hrun ⊢
    obtain ⟨db₁, hfirst, hlast⟩ := Database.execAll_split hrun
    obtain ⟨db₂, hexec, -⟩ := Database.execAll_cons hlast
    have hdb : n.dbAt x.log (x.applied + 1) = db₁ := hat.trans (runAll_of_execAll hfirst)
    have hchanges : x.changes = db₂.journal.take x.ops := by
      rw [changes, journal, hnext]
      dsimp only
      rw [hdb, run_eq_call, Database.call_of_ok hexec]
    have hleft : x.left.db = db₁.disk.applyAll (db₂.journal.take x.ops) := by
      rw [left, hchanges, hfiles, hdb]
    rw [hleft, hchanges]
    exact fresh_points hlevel hfits horder hfirst hexec (Nat.one_le_iff_ne_zero.mpr hops)

theorem exists_of_cut (h : Midway n n') {k w ops : Nat} {dir : Dir Database} (hdir : n.cutAt n' k w = some dir)
    (hops : ops ≠ 0 → ∃ next, n'.crashPoints[k]? = some next ∧ next.dir.db ≠ dir.db) :
    ∃ x : Crash n n', x.k = k ∧ x.w = w ∧ x.ops = ops ∧ x.dir = dir := by
  obtain ⟨a, hstands, hcall⟩ := h.cut hdir
  refine ⟨⟨k, w, ops, dir, a, hdir, hstands, fun hne => ?_⟩, rfl, rfl, rfl, rfl⟩
  obtain ⟨next, hnext, hchanged⟩ := hops hne
  rw [hnext, Option.map_some]
  exact congrArg some ((hcall next hnext).resolve_left hchanged)

end Crash

/-- A node that is started again has the committed commands if and only if no table was before its final
header and the calls that had not reached the files would have changed nothing. -/
theorem committed_recovered_iff [Bincode] {config : Config} (hlevel : 1 ≤ config.sstableLevel) (id : NodeId)
    (ps : List NodeId) (now : Instant) {n₀ n n' : RaftNode Database}
    {steps : List (Input × Instant)} {input : Input} {t : Instant}
    (hn₀ : RaftNode.newInDir Dir.empty id ps config now = some n₀) (hn : n₀.exec steps = some n)
    (hs : n.process input t = some n') (honwards : n₀.RunsOnwards steps) (hlast : n.Onwards (input, t)) :
    (∀ k w ops dir, n.cutAt n' k w = some dir →
      (ops ≠ 0 → ∃ next, n'.crashPoints[k]? = some next ∧ next.dir.db ≠ dir.db) →
      ∃ x : Crash n n', x.k = k ∧ x.w = w ∧ x.ops = ops ∧ x.dir = dir) ∧
    ∀ (x : Crash n n') (restarted : Instant), x.Succeeds config →
      (x.Recovers id ps config restarted ↔
        finished x.changes = true ∧ Storage.fold x.called = Storage.fold x.committed) := by
  have hlevelled := (Level.newInDir hn₀).exec honwards hn
  refine ⟨fun k w ops dir hdir hops => Crash.exists_of_cut (.process hlevelled hlast hs) hdir hops,
    fun x restarted hx => ?_⟩
  exact Crash.recovers_iff_open.trans (Crash.left_recovers hlevel hlevelled hx _)

end Database

section Concrete
open scoped Concrete

/-- A leader without peers dies when it has written the commit index of its first command, and comes back
without the command. -/
theorem committed_command_lost : ∃ (n₀ n n' : RaftNode Database) (x : Crash n n'),
    RaftNode.newInDir Dir.empty 1 [] .default ⟨0, 0⟩ = some n₀ ∧ n₀.exec [(.message .timeout, ⟨0, 0⟩)] = some n ∧
    n.process (.message (.clientCommand (.set "a" (.int 1)))) ⟨0, 0⟩ = some n' ∧ x.k = 3 ∧ x.ops = 0 ∧
    x.dir.commitIndex = 1 ∧ x.committed = [.set "a" (.int 1)] ∧ ¬ x.Recovers 1 [] .default ⟨0, 0⟩ := by
  have hrun : ((RaftNode.newInDir Dir.empty 1 [] .default ⟨0, 0⟩ : Option (RaftNode Database)).bind fun n₀ =>
      (n₀.exec [(.message .timeout, ⟨0, 0⟩)]).bind fun n =>
      (n.process (.message (.clientCommand (.set "a" (.int 1)))) ⟨0, 0⟩).bind fun n' =>
      (n.cutAt n' 3 0).bind fun dir => (RaftNode.newInDir dir 1 [] .default ⟨0, 0⟩).map fun r =>
        (dir.commitIndex, commandsUpTo (n'.logAt 3) 1, (r.db.get "a").toOption)) =
      some (1, [.set "a" (.int 1)], some none) := by
    decide +kernel
  obtain ⟨n₀, hn₀, hrun⟩ := Option.bind_eq_some_iff.mp hrun
  obtain ⟨n, hn, hrun⟩ := Option.bind_eq_some_iff.mp hrun
  obtain ⟨n', hs, hrun⟩ := Option.bind_eq_some_iff.mp hrun
  obtain ⟨dir, hdir, hrun⟩ := Option.bind_eq_some_iff.mp hrun
  obtain ⟨r, hr, hrun⟩ := Option.map_eq_some_iff.mp hrun
  simp only [Prod.mk.injEq] at hrun
  obtain ⟨hcommit, hcommands, hget⟩ := hrun
  have honwards : n₀.RunsOnwards [(.message .timeout, ⟨0, 0⟩)] := ⟨⟨trivial, trivial⟩, fun _ _ => trivial⟩
  have hlast : n.Onwards (.message (.clientCommand (.set "a" (.int 1))), ⟨0, 0⟩) := ⟨trivial, trivial⟩
  have hmid := Midway.process ((Level.newInDir hn₀).exec honwards hn) hlast hs
  have hstill : (0 : Nat) ≠ 0 → ∃ next, n'.crashPoints[3]? = some next ∧ next.dir.db ≠ dir.db := fun h => absurd rfl h
  obtain ⟨x, hk, -, hops, rfl⟩ := Crash.exists_of_cut hmid hdir hstill
  have hcommitted : x.committed = [.set "a" (.int 1)] := by
    rw [Crash.committed, Crash.log, hk, hcommit, hcommands]
  refine ⟨n₀, n, n', x, hn₀, hn, hs, hk, hops, hcommit, hcommitted, ?_⟩
  rintro ⟨r', hr', hfold⟩
  have hleft : x.left = x.dir := by
    rw [Crash.left, Crash.changes, hops]
    rfl
  rw [hleft, hr] at hr'
  obtain rfl := Option.some.inj hr'
  rw [hfold, hcommitted] at hget
  revert hget
  decide

/-- When the call of the database has returned, it comes back with the command. -/
theorem committed_recovered_first_command : ∃ (n₀ n n' : RaftNode Database) (x : Crash n n'),
    RaftNode.newInDir Dir.empty 1 [] .default ⟨0, 0⟩ = some n₀ ∧ n₀.exec [(.message .timeout, ⟨0, 0⟩)] = some n ∧
    n.process (.message (.clientCommand (.set "a" (.int 1)))) ⟨0, 0⟩ = some n' ∧ x.k = 4 ∧
    x.committed = [.set "a" (.int 1)] ∧ x.Recovers 1 [] .default ⟨0, 0⟩ := by
  have hrun : ((RaftNode.newInDir Dir.empty 1 [] .default ⟨0, 0⟩ : Option (RaftNode Database)).bind fun n₀ =>
      (n₀.exec [(.message .timeout, ⟨0, 0⟩)]).bind fun n =>
      (n.process (.message (.clientCommand (.set "a" (.int 1)))) ⟨0, 0⟩).bind fun n' =>
      (n.cutAt n' 4 0).map fun dir => (n.lastApplied, decide (Disk.wal n.dir.db = Disk.wal dir.db),
        dir.commitIndex, commandsUpTo (n'.logAt 4) 1)) = some (0, false, 1, [.set "a" (.int 1)]) := by
    decide +kernel
  obtain ⟨n₀, hn₀, hrun⟩ := Option.bind_eq_some_iff.mp hrun
  obtain ⟨n, hn, hrun⟩ := Option.bind_eq_some_iff.mp hrun
  obtain ⟨n', hs, hrun⟩ := Option.bind_eq_some_iff.mp hrun
  obtain ⟨dir, hdir, hrun⟩ := Option.map_eq_some_iff.mp hrun
  simp only [Prod.mk.injEq] at hrun
  obtain ⟨happ, hwal, hcommit, hcommands⟩ := hrun
  have honwards : n₀.RunsOnwards [(.message .timeout, ⟨0, 0⟩)] := ⟨⟨trivial, trivial⟩, fun _ _ => trivial⟩
  obtain ⟨hexists, hiff⟩ := committed_recovered_iff (by decide) 1 [] ⟨0, 0⟩ hn₀ hn hs honwards
    ⟨trivial, trivial⟩
  obtain ⟨x, hk, -, hops, rfl⟩ := hexists 4 0 0 dir hdir fun hno => absurd rfl hno
  have hcommitted : x.committed = [.set "a" (.int 1)] := by
    rw [Crash.committed, Crash.log, hk, hcommit, hcommands]
  have happlied : x.applied = 1 := by
    have hdue := x.stands.due
    have hfiles := x.stands.files
    by_contra hne
    have hzero : x.applied = 0 := by omega
    rw [hzero, RaftNode.dbAt, happ, commandsBetween_self] at hfiles
    exact of_decide_eq_false hwal (congrArg Disk.wal hfiles.symm)
  have hcalled : x.called = [.set "a" (.int 1)] := by
    rw [Crash.called, if_pos hops, happlied, Crash.log, hk, hcommands]
  have hfits : ∀ c ∈ [Command.set "a" (.int 1)], c.Fits := by decide
  obtain ⟨db, -, hdb, -⟩ := Database.fresh_refines .default hfits (by decide +kernel) (by decide)
  have hsucceeds : x.Succeeds .default :=
    ⟨hcalled ▸ hfits, by rw [hcalled]; decide +kernel, db, hcalled ▸ hdb⟩
  refine ⟨n₀, n, n', x, hn₀, hn, hs, hk, hcommitted, (hiff x ⟨0, 0⟩ hsucceeds).mpr ⟨?_, ?_⟩⟩
  · rw [Crash.changes, hops]
    rfl
  · rw [hcalled, hcommitted]

end Concrete
end KvRaft
