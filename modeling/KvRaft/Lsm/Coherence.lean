import KvRaft.Lib.Fold
import KvRaft.Lsm.Refinement
import KvRaft.Lsm.Threads
import KvRaft.Lsm.TornWal

/-! The write-ahead log against the memtable while several threads write. A record and the change of
the memtable are two steps, so the log is ahead of the memtable by the records of the threads in
between. -/

namespace KvRaft
open LogRecord

section General
variable {T : Type} [DecidableEq T] [FloatText]

/-- The memtable that `Logger::new` and `recover` make of a log. -/
def Database.replay (wal : Bytes) : AList (fun _ : String => Entry) :=
  ((Logger.readRecords (Logger.openFile wal).1).map LogRecord.command).foldl put ∅

/-- The command that a thread has logged and not yet applied, and where its record begins. -/
def Phase.waiting : Phase → Option (Command × Nat)
  | .logged c offset => some (c, offset)
  | _ => none

/-- Neither in between the log and the memtable, nor between the two steps that empty them. -/
def Phase.plain : Phase → Bool
  | .logged .. | .truncated => false
  | _ => true

omit [FloatText] in
theorem Phase.plain_iff {p : Phase} : p.plain = true ↔ p.waiting = none ∧ p ≠ .truncated := by
  cases p <;> simp [plain, waiting]

/-- The memtable is changed in the order of the records of its keys, and the log is not truncated while
a thread is between its record and the memtable. -/
def Threads.MayPass (s : Threads T) : Phase → Prop
  | .logged c offset => ∀ t, ∀ p ∈ (s.phase t).waiting, p.1.key = c.key → offset ≤ p.2
  | .published => ∀ t, (s.phase t).waiting = none
  | _ => True

def Threads.Orderly (s : Threads T) : Event T → Prop
  | .call .. => True
  | .advance t => s.MayPass (s.phase t)

instance [Fintype T] (s : Threads T) : ∀ p, Decidable (s.MayPass p)
  | .logged c offset =>
    inferInstanceAs (Decidable (∀ t, ∀ p ∈ (s.phase t).waiting, p.1.key = c.key → offset ≤ p.2))
  | .published => inferInstanceAs (Decidable (∀ t, (s.phase t).waiting = none))
  | .idle | .updated | .full | .flushing _ | .truncated | .flushed | .compacting _ | .opened .. | .merging .. =>
    .isTrue trivial

instance [Fintype T] (s : Threads T) : ∀ e, Decidable (s.Orderly e)
  | .call .. => .isTrue trivial
  | .advance t => inferInstanceAs (Decidable (s.MayPass (s.phase t)))

theorem offset_lt {rs : List LogRecord} {i j : Nat} (hij : i < j) (hj : j ≤ rs.length) :
    (bytesOf (rs.take i)).length < (bytesOf (rs.take j)).length := by
  have hsplit : rs.take j = rs.take i ++ (rs.drop i).take (j - i) := by
    rw [← List.take_add, Nat.add_sub_cancel' hij.le]
  have hle := length_le_bytesOf ((rs.drop i).take (j - i))
  rw [List.length_take, List.length_drop] at hle
  rw [hsplit, bytesOf_append, List.length_append]
  omega

/-- The log is the bytes of `rs`, and `pos` tells where the records of the waiting threads are. Under
each key the memtable `view` is that of the records before some place, and behind it there are records
of waiting threads only. -/
structure Ahead (s : Threads T) (rs : List LogRecord) (pos : T → Nat)
    (view : AList (fun _ : String => Entry)) : Prop where
  wal : s.db.disk.wal = bytesOf rs
  logged : ∀ r ∈ rs, Logged r
  waits : ∀ t c offset, (s.phase t).waiting = some (c, offset) →
    offset = (bytesOf (rs.take (pos t))).length ∧ rs[pos t]?.map LogRecord.command = some c
  apart : ∀ t t', (s.phase t).waiting.isSome → (s.phase t').waiting.isSome → pos t = pos t' → t = t'
  data : (∀ t, s.phase t ≠ .truncated) → view = s.db.data
  cleared : ∀ t, s.phase t = .truncated → view = ∅
  settled : ∀ k, ∃ m ≤ rs.length, view.lookup k = lastEntry ((rs.take m).map LogRecord.command) k ∧
    (∀ t c offset, (s.phase t).waiting = some (c, offset) → c.key = k → m ≤ pos t) ∧
    ∀ j r, m ≤ j → rs[j]? = some r → r.command.key = k →
      ∃ t, (s.phase t).waiting.isSome ∧ pos t = j

namespace Ahead
variable {s s' : Threads T} {t : T} {rs : List LogRecord} {pos : T → Nat}
  {view : AList (fun _ : String => Entry)}

omit [DecidableEq T] in
theorem start (config : Config) : Ahead (Threads.start (T := T) (.fresh config)) [] (fun _ => 0) ∅ where
  wal := rfl
  logged := fun _ hr => absurd hr List.not_mem_nil
  waits := fun _ _ _ h => absurd h (Option.some_ne_none _).symm
  apart := fun _ _ h => absurd h Bool.false_ne_true
  data := fun _ => rfl
  cleared := fun _ _ => rfl
  settled := fun _ => ⟨0, le_rfl, rfl, fun _ _ _ h => absurd h (Option.some_ne_none _).symm,
    fun _ _ _ h => absurd h (Option.some_ne_none _).symm⟩

omit [DecidableEq T] in
theorem settled_of_waiting (h : Ahead s rs pos view)
    (hwaiting : ∀ t, (s'.phase t).waiting = (s.phase t).waiting) (k : String) :
    ∃ m ≤ rs.length, view.lookup k = lastEntry ((rs.take m).map LogRecord.command) k ∧
      (∀ t c offset, (s'.phase t).waiting = some (c, offset) → c.key = k → m ≤ pos t) ∧
      ∀ j r, m ≤ j → rs[j]? = some r → r.command.key = k →
        ∃ t, (s'.phase t).waiting.isSome ∧ pos t = j := by
  obtain ⟨m, hm, hview, hpos, hrest⟩ := h.settled k
  refine ⟨m, hm, hview, fun t c offset ht => hpos t c offset (hwaiting t ▸ ht), fun j r hj hr hk => ?_⟩
  obtain ⟨t, ht, hj⟩ := hrest j r hj hr hk
  exact ⟨t, (hwaiting t).symm ▸ ht, hj⟩

theorem frame (h : Ahead s rs pos view) {p : Phase} (hphase : s'.phase = Function.update s.phase t p)
    (hwal : s'.db.disk.wal = s.db.disk.wal) (hdata : s'.db.data = s.db.data)
    (hp : (s.phase t).plain = true) (hp' : p.plain = true) : Ahead s' rs pos view := by
  obtain ⟨hw, ht⟩ := Phase.plain_iff.mp hp
  obtain ⟨hw', ht'⟩ := Phase.plain_iff.mp hp'
  have hwaiting : ∀ t', (s'.phase t').waiting = (s.phase t').waiting := by
    intro t'
    rw [hphase]
    by_cases heq : t' = t
    · rw [heq, Function.update_self, hw, hw']
    · rw [Function.update_of_ne heq]
  have htrunc : ∀ t', s'.phase t' = .truncated ↔ s.phase t' = .truncated := by
    intro t'
    rw [hphase]
    by_cases heq : t' = t
    · rw [heq, Function.update_self]
      exact ⟨fun h => absurd h ht', fun h => absurd h ht⟩
    · rw [Function.update_of_ne heq]
  constructor
  · exact hwal.trans h.wal
  · exact h.logged
  · intro t' c offset ht'
    exact h.waits t' c offset (hwaiting t' ▸ ht')
  · intro t₁ t₂ h1 h2
    exact h.apart t₁ t₂ (hwaiting t₁ ▸ h1) (hwaiting t₂ ▸ h2)
  · intro hno
    exact (h.data fun t' ht' => hno t' ((htrunc t').mpr ht')).trans hdata.symm
  · intro t' ht'
    exact h.cleared t' ((htrunc t').mp ht')
  · exact h.settled_of_waiting hwaiting

theorem log (h : Ahead s rs pos view) (hp : s.phase t = .idle) {c : Command} (hc : c.Fits)
    {db : Database} {id : UInt64} (hwal : db.disk.wal = s.db.disk.wal ++ (LogRecord.new id c).writeTo)
    (hdata : db.data = s.db.data) :
    Ahead (s.goto t (.logged c s.db.disk.wal.length) db) (rs ++ [LogRecord.new id c])
      (Function.update pos t rs.length) view := by
  have hne : ∀ t' c offset, (s.phase t').waiting = some (c, offset) → t' ≠ t := by
    rintro t' c offset ht' rfl
    rw [hp] at ht'
    cases ht'
  have hold : ∀ t' c offset, (s.phase t').waiting = some (c, offset) → pos t' < rs.length := by
    intro t' c offset ht'
    obtain ⟨r, hr, -⟩ := Option.map_eq_some_iff.mp (h.waits t' c offset ht').2
    exact (List.getElem?_eq_some_iff.mp hr).1
  have hnew : ∀ t' c' offset, ((s.goto t (.logged c s.db.disk.wal.length) db).phase t').waiting =
      some (c', offset) → (t' = t ∧ c' = c ∧ offset = (bytesOf rs).length ∧
        Function.update pos t rs.length t' = rs.length) ∨ (t' ≠ t ∧
        (s.phase t').waiting = some (c', offset) ∧ Function.update pos t rs.length t' = pos t') := by
    intro t' c' offset ht'
    by_cases heq : t' = t
    · subst heq
      rw [Threads.goto_phase_self] at ht'
      cases ht'
      exact Or.inl ⟨rfl, rfl, by rw [h.wal], Function.update_self ..⟩
    · rw [Threads.goto_phase_ne heq] at ht'
      exact Or.inr ⟨heq, ht', Function.update_of_ne heq ..⟩
  have htrunc : ∀ t', (s.goto t (.logged c s.db.disk.wal.length) db).phase t' = .truncated ↔
      s.phase t' = .truncated := by
    intro t'
    by_cases heq : t' = t
    · rw [heq, Threads.goto_phase_self, hp]
      exact ⟨Phase.noConfusion, Phase.noConfusion⟩
    · rw [Threads.goto_phase_ne heq]
  constructor
  · rw [bytesOf_append, bytesOf_cons, ← h.wal]
    exact hwal.trans (by rw [bytesOf, List.flatMap_nil, List.append_nil])
  · intro r hr
    rcases List.mem_append.mp hr with hr | hr
    · exact h.logged r hr
    · exact ⟨id, c, List.mem_singleton.mp hr, hc⟩
  · intro t' c' offset ht'
    rcases hnew t' c' offset ht' with ⟨-, rfl, rfl, hpos⟩ | ⟨-, ht', hpos⟩
    · rw [hpos, List.take_left, List.getElem?_concat_length]
      exact ⟨rfl, rfl⟩
    · have hlt := hold t' c' offset ht'
      rw [hpos, List.take_append_of_le_length hlt.le, List.getElem?_append_left hlt]
      exact h.waits t' c' offset ht'
  · intro t₁ t₂ h1 h2 hpos
    obtain ⟨⟨c₁, o₁⟩, h1⟩ := Option.isSome_iff_exists.mp h1
    obtain ⟨⟨c₂, o₂⟩, h2⟩ := Option.isSome_iff_exists.mp h2
    rcases hnew t₁ c₁ o₁ h1 with ⟨ht1, -, -, hp1⟩ | ⟨-, h1, hp1⟩ <;>
      rcases hnew t₂ c₂ o₂ h2 with ⟨ht2, -, -, hp2⟩ | ⟨-, h2, hp2⟩ <;> rw [hp1, hp2] at hpos
    · exact ht1.trans ht2.symm
    · exact absurd (hold t₂ c₂ o₂ h2) hpos.not_gt
    · exact absurd (hold t₁ c₁ o₁ h1) hpos.not_lt
    · exact h.apart t₁ t₂ (Option.isSome_of_eq_some h1) (Option.isSome_of_eq_some h2) hpos
  · intro hno
    exact (h.data fun t' ht' => hno t' ((htrunc t').mpr ht')).trans hdata.symm
  · intro t' ht'
    exact h.cleared t' ((htrunc t').mp ht')
  · intro k
    obtain ⟨m, hm, hview, hpos, hrest⟩ := h.settled k
    refine ⟨m, ?_, ?_, fun t' c' offset ht' hk => ?_, fun j r hj hr hk => ?_⟩
    · rw [List.length_append]
      omega
    · rw [List.take_append_of_le_length hm, hview]
    · rcases hnew t' c' offset ht' with ⟨-, -, -, hp'⟩ | ⟨-, ht', hp'⟩
      · rw [hp']
        exact hm
      · rw [hp']
        exact hpos t' c' offset ht' hk
    · by_cases hlt : j < rs.length
      · rw [List.getElem?_append_left hlt] at hr
        obtain ⟨t', ht', rfl⟩ := hrest j r hj hr hk
        obtain ⟨⟨c', o⟩, ho⟩ := Option.isSome_iff_exists.mp ht'
        refine ⟨t', ?_, Function.update_of_ne (hne t' c' o ho) ..⟩
        rw [Threads.goto_phase_ne (hne t' c' o ho)]
        exact ht'
      · have hj' := (List.getElem?_eq_some_iff.mp hr).1
        rw [List.length_append, List.length_singleton] at hj'
        refine ⟨t, by rw [Threads.goto_phase_self]; rfl, ?_⟩
        rw [Function.update_self]
        omega

/-- A thread changes the memtable; no record of the key before its own is still waiting. -/
theorem put (h : Ahead s rs pos view) {c : Command} {offset : Nat} (hp : s.phase t = .logged c offset)
    (hfirst : ∀ t', ∀ p ∈ (s.phase t').waiting, p.1.key = c.key → offset ≤ p.2)
    (hno : ∀ t, s.phase t ≠ .truncated) :
    Ahead (s.goto t .updated { s.db with data := Database.put s.db.data c }) rs pos
      (Database.put view c) := by
  have hw : (s.phase t).waiting = some (c, offset) := by rw [hp]; rfl
  obtain ⟨hoffset, hrecord⟩ := h.waits t c offset hw
  obtain ⟨r₀, hr₀, hc⟩ := Option.map_eq_some_iff.mp hrecord
  have hlt := (List.getElem?_eq_some_iff.mp hr₀).1
  have hnew : ∀ t' c' o, ((s.goto t .updated { s.db with data := Database.put s.db.data c }).phase t').waiting =
      some (c', o) → t' ≠ t ∧ (s.phase t').waiting = some (c', o) := by
    intro t' c' o ht'
    by_cases heq : t' = t
    · rw [heq, Threads.goto_phase_self] at ht'
      cases ht'
    · rw [Threads.goto_phase_ne heq] at ht'
      exact ⟨heq, ht'⟩
  have hkeep : ∀ t', t' ≠ t → (s.phase t').waiting.isSome → ((s.goto t .updated
      { s.db with data := Database.put s.db.data c }).phase t').waiting.isSome := fun t' heq ht' => by
    rw [Threads.goto_phase_ne heq]
    exact ht'
  constructor
  · exact h.wal
  · exact h.logged
  · intro t' c' o ht'
    exact h.waits t' c' o (hnew t' c' o ht').2
  · intro t₁ t₂ h1 h2
    obtain ⟨⟨c₁, o₁⟩, h1⟩ := Option.isSome_iff_exists.mp h1
    obtain ⟨⟨c₂, o₂⟩, h2⟩ := Option.isSome_iff_exists.mp h2
    exact h.apart t₁ t₂ (Option.isSome_of_eq_some (hnew t₁ c₁ o₁ h1).2)
      (Option.isSome_of_eq_some (hnew t₂ c₂ o₂ h2).2)
  · intro _
    rw [h.data hno]
    rfl
  · intro t' ht'
    by_cases heq : t' = t
    · rw [heq, Threads.goto_phase_self] at ht'
      cases ht'
    · rw [Threads.goto_phase_ne heq] at ht'
      exact absurd ht' (hno t')
  · intro k
    obtain ⟨m, hm, hview, hpos, hrest⟩ := h.settled k
    by_cases hk : c.key = k
    · -- all records of the key up to that of `t` are in the memtable now
      refine ⟨pos t + 1, hlt, ?_, fun t' c' o ht' hk' => ?_, fun j r hj hr hk' => ?_⟩
      · have htake : rs.take (pos t + 1) = rs.take (pos t) ++ [r₀] := by
          rw [List.take_add_one, hr₀]
          rfl
        rw [htake, List.map_append, List.map_singleton, lastEntry_concat, hc, if_pos hk.symm, ← hk]
        exact AList.lookup_insert _
      · obtain ⟨hne, hw'⟩ := hnew t' c' o ht'
        have hle := hfirst t' (c', o) hw' (hk'.trans hk.symm)
        obtain ⟨ho, hrecord'⟩ := h.waits t' c' o hw'
        have hne' : pos t' ≠ pos t := fun heq => hne (h.apart t' t (Option.isSome_of_eq_some hw')
          (Option.isSome_of_eq_some hw) heq)
        by_contra hlt'
        have hlt'' : (bytesOf (rs.take (pos t'))).length < (bytesOf (rs.take (pos t))).length :=
          offset_lt (by omega) hlt.le
        dsimp only at hle
        omega
      · have hmt := hpos t c offset hw hk
        obtain ⟨t', ht', rfl⟩ := hrest j r (by omega) hr hk'
        have hne : t' ≠ t := by
          rintro rfl
          omega
        exact ⟨t', hkeep t' hne ht', rfl⟩
    · refine ⟨m, hm, ?_, fun t' c' o ht' => hpos t' c' o (hnew t' c' o ht').2, fun j r hj hr hk' => ?_⟩
      · rw [← hview]
        exact AList.lookup_insert_ne (Ne.symm hk)
      · obtain ⟨t', ht', rfl⟩ := hrest j r hj hr hk'
        have hne : t' ≠ t := by
          rintro rfl
          rw [hr₀] at hr
          obtain rfl := Option.some.inj hr
          exact hk (hc ▸ hk')
        exact ⟨t', hkeep t' hne ht', rfl⟩

theorem truncate (hnone : ∀ t', (s.phase t').waiting = none) {db : Database} (hwal : db.disk.wal = []) :
    Ahead (s.goto t .truncated db) [] pos ∅ := by
  have hwaiting : ∀ t', ((s.goto t .truncated db).phase t').waiting = none := by
    intro t'
    by_cases heq : t' = t
    · rw [heq, Threads.goto_phase_self]
      rfl
    · rw [Threads.goto_phase_ne heq, hnone]
  have hsome : ∀ t' p, ((s.goto t .truncated db).phase t').waiting ≠ some p := fun t' p => by
    rw [hwaiting]
    exact (Option.some_ne_none p).symm
  constructor
  · exact hwal
  · exact fun r hr => absurd hr List.not_mem_nil
  · exact fun t' c o ht' => absurd ht' (hsome t' _)
  · intro t' _ ht'
    rw [hwaiting] at ht'
    exact absurd ht' Bool.false_ne_true
  · exact fun hno => absurd (Threads.goto_phase_self ..) (hno t)
  · exact fun _ _ => rfl
  · exact fun k => ⟨0, le_rfl, rfl, fun t' c o ht' => absurd ht' (hsome t' _),
      fun j r _ hr => absurd hr (Option.some_ne_none r).symm⟩

theorem clear (h : Ahead s rs pos view) (hp : s.phase t = .truncated)
    (hphase : s'.phase = Function.update s.phase t .flushed) (hwal : s'.db.disk.wal = s.db.disk.wal)
    (hdata : s'.db.data = ∅) : Ahead s' rs pos view := by
  have hwaiting : ∀ t', (s'.phase t').waiting = (s.phase t').waiting := by
    intro t'
    rw [hphase]
    by_cases heq : t' = t
    · rw [heq, Function.update_self, hp]
      rfl
    · rw [Function.update_of_ne heq]
  constructor
  · exact hwal.trans h.wal
  · exact h.logged
  · intro t' c offset ht'
    exact h.waits t' c offset (hwaiting t' ▸ ht')
  · intro t₁ t₂ h1 h2
    exact h.apart t₁ t₂ (hwaiting t₁ ▸ h1) (hwaiting t₂ ▸ h2)
  · exact fun _ => (h.cleared t hp).trans hdata.symm
  · exact fun _ _ => h.cleared t hp
  · exact h.settled_of_waiting hwaiting

theorem step [Xxh3] [BloomSizing] (h : Ahead s rs pos view) (hl : s.LocksOk) {e : Event T} (hs : s.step e = some s')
    (ho : s.Orderly e) (hfits : ∀ c ∈ e.command, c.Fits) :
    ∃ rs' pos' view', Ahead s' rs' pos' view' := by
  cases Threads.step_move hs with
  | log c hp => exact ⟨_, _, _, h.log hp (hfits c rfl) rfl rfl⟩
  | @put t c offset hp hlock =>
    have hfirst : ∀ t', ∀ p ∈ (s.phase t').waiting, p.1.key = c.key → offset ≤ p.2 := by
      rw [Threads.Orderly, hp] at ho
      exact ho
    refine ⟨_, _, _, h.put hp hfirst fun t' ht' => ?_⟩
    exact absurd (hlock.symm.trans (hl.data t' (by rw [ht']; rfl))) (Option.some_ne_none t').symm
  | @check t _ hp hp' =>
    have hplain : (s.phase t).plain = true := by
      rcases hp with hp | hp
      · rw [hp]
        rfl
      · rw [hp]
        rfl
    rcases hp' with rfl | rfl
    · exact ⟨_, _, _, h.frame rfl rfl rfl hplain rfl⟩
    · exact ⟨_, _, _, h.frame rfl rfl rfl hplain rfl⟩
  | allocate hp => exact ⟨_, _, _, h.frame rfl rfl rfl (by rw [hp]; rfl) rfl⟩
  | publish hp _ _ hdb =>
    obtain ⟨tables, journal, rfl⟩ := hdb
    exact ⟨_, _, _, h.frame rfl rfl rfl (by rw [hp]; rfl) rfl⟩
  | noLevels hp _ hdb =>
    obtain ⟨tables, journal, rfl⟩ := hdb
    exact ⟨_, _, _, h.frame rfl rfl rfl (by rw [hp]; rfl) rfl⟩
  | truncate hp =>
    rw [Threads.Orderly, hp] at ho
    exact ⟨_, pos, _, truncate ho rfl⟩
  | clear hp => exact ⟨_, _, _, h.clear hp rfl rfl rfl⟩
  | choose hp => exact ⟨_, _, _, h.frame rfl rfl rfl (by rw [hp]; rfl) rfl⟩
  | finish hp => exact ⟨_, _, _, h.frame rfl rfl rfl (by rw [hp]; rfl) rfl⟩
  | skip hp => exact ⟨_, _, _, h.frame rfl rfl rfl (by rw [hp]; rfl) rfl⟩
  | openInputs hp => exact ⟨_, _, _, h.frame rfl rfl rfl (by rw [hp]; rfl) rfl⟩
  | allocateMerged hp =>
    exact ⟨_, _, _, h.frame rfl rfl rfl (by rw [hp]; rfl) rfl⟩
  | merge hp _ hdb =>
    obtain ⟨tables, journal, rfl⟩ := hdb
    exact ⟨_, _, _, h.frame rfl rfl rfl (by rw [hp]; rfl) rfl⟩

omit [DecidableEq T] in
theorem replay (h : Ahead s rs pos view) (hquiet : s.Quiet) (k : String) :
    (Database.replay s.db.disk.wal).lookup k = s.db.data.lookup k := by
  have hnone : ∀ t, (s.phase t).waiting.isSome = true → False := fun t ht => by
    rw [hquiet t] at ht
    exact Bool.false_ne_true ht
  have hview : view = s.db.data := h.data fun t ht => by
    rw [hquiet t] at ht
    cases ht
  obtain ⟨m, hm, hlookup, -, hrest⟩ := h.settled k
  -- no record of the key is behind `m`
  have hbehind : ∀ n, m + n ≤ rs.length → lastEntry ((rs.take (m + n)).map LogRecord.command) k =
      lastEntry ((rs.take m).map LogRecord.command) k := by
    intro n
    induction n with
    | zero => exact fun _ => rfl
    | succ n ih =>
      intro hn
      have hr := List.getElem?_eq_getElem (show m + n < rs.length by omega)
      have htake : rs.take (m + (n + 1)) = rs.take (m + n) ++ [rs[m + n]] := by
        rw [← Nat.add_assoc, List.take_add_one, hr]
        rfl
      have hkey : k ≠ rs[m + n].command.key := fun hk => by
        obtain ⟨t, ht, -⟩ := hrest (m + n) _ (Nat.le_add_right ..) hr hk.symm
        exact hnone t ht
      rw [htake, List.map_append, List.map_singleton, lastEntry_concat, if_neg hkey]
      exact ih (by omega)
  have hall := hbehind (rs.length - m) (by omega)
  rw [Nat.add_sub_cancel' hm, List.take_length] at hall
  rw [Database.replay, h.wal, readRecords_bytesOf h.logged, lookup_foldl_put, hall, ← hlookup, hview]

end Ahead

/-- In an orderly run the log holds what the memtable holds whenever no thread is at work. -/
theorem wal_coherent [Xxh3] [BloomSizing] (config : Config) {es : List (Event T)}
    (hfits : ∀ c ∈ es.filterMap Event.command, c.Fits)
    (ho : Fold.Along Threads.step Threads.Orderly (Threads.start (.fresh config)) es) {s : Threads T}
    (hs : Threads.exec (Threads.start (.fresh config)) es = some s) (hquiet : s.Quiet) (k : String) :
    (Database.replay s.db.disk.wal).lookup k = s.db.data.lookup k := by
  have hinv : s.LocksOk ∧ ∃ rs pos view, Ahead s rs pos view := by
    refine Fold.foldlM_along (P := fun s => s.LocksOk ∧ ∃ rs pos view, Ahead s rs pos view) hs ho
      ⟨.start _, _, _, _, .start config⟩ ?_
    rintro s e s' he ho ⟨hl, rs, pos, view, h⟩ hs
    refine ⟨(Threads.step_move hs).locksOk hl, h.step hl hs ho fun c hc => ?_⟩
    exact hfits c (List.mem_filterMap.mpr ⟨e, he, hc⟩)
  obtain ⟨-, rs, pos, view, h⟩ := hinv
  exact h.replay hquiet k

end General

section Concrete
open scoped Concrete

/-- The first thread flushes two keys, and before it has cleared the memtable the second thread logs
the next record. -/
def logDuringFlush : List (Event (Bool)) :=
  [[.call false (.set "a" (.int 1)), .call true (.set "b" (.int 2))], Event.advances true 4, Event.advances false 5,
    [.call true (.set "a" (.int 3))], Event.advances false 3, Event.advances true 4].flatten

theorem wal_coherent_flush : ∃ s, Threads.exec (.start (.fresh .default)) logDuringFlush = some s ∧
    s.db.newestFirst.length = 1 ∧ s.db.data.lookup "a" = some (.set (.int 3)) ∧
    ∀ k, (Database.replay s.db.disk.wal).lookup k = s.db.data.lookup k := by
  have hrun : ((Threads.exec (.start (.fresh .default)) logDuringFlush).map fun s =>
      (s.db.newestFirst.length, s.db.data.lookup "a", (s.phase false).isIdle && (s.phase true).isIdle)) =
      some (1, some (.set (.int 3)), true) := by
    decide +kernel
  obtain ⟨s, hs, hrun⟩ := Option.map_eq_some_iff.mp hrun
  simp only [Prod.mk.injEq, Bool.and_eq_true, Phase.isIdle_iff] at hrun
  obtain ⟨htables, hlookup, h0, h1⟩ := hrun
  have hquiet : s.Quiet := Threads.quiet_of_both h0 h1
  refine ⟨s, hs, htables, hlookup, fun k => ?_⟩
  have hcalls : logDuringFlush.filterMap Event.command =
      [.set "a" (.int 1), .set "b" (.int 2), .set "a" (.int 3)] := by
    decide +kernel
  have hfits : ∀ c ∈ logDuringFlush.filterMap Event.command, c.Fits := by
    rw [hcalls]
    decide
  exact wal_coherent .default hfits (by decide +kernel) hs hquiet k

/-- Two threads log the same key and change the memtable in the other order. -/
def overtaking : List (Event (Bool)) :=
  [[.call false (.set "a" (.int 1)), .call true (.set "a" (.int 2))], Event.advances true 4,
    Event.advances false 4].flatten

/-- The log says 2, the memtable 1. -/
theorem wal_overtaken : ∃ s, Threads.exec (.start (.fresh .default)) overtaking = some s ∧ s.Quiet ∧
    s.db.data.lookup "a" = some (.set (.int 1)) ∧
    (Database.replay s.db.disk.wal).lookup "a" = some (.set (.int 2)) := by
  have hrun : ((Threads.exec (.start (.fresh .default)) overtaking).map fun s => (s.db.data.lookup "a",
      (Database.replay s.db.disk.wal).lookup "a", (s.phase false).isIdle && (s.phase true).isIdle)) =
      some (some (.set (.int 1)), some (.set (.int 2)), true) := by
    decide +kernel
  obtain ⟨s, hs, hrun⟩ := Option.map_eq_some_iff.mp hrun
  simp only [Prod.mk.injEq, Bool.and_eq_true, Phase.isIdle_iff] at hrun
  obtain ⟨hdata, hreplay, h0, h1⟩ := hrun
  exact ⟨s, hs, Threads.quiet_of_both h0 h1, hdata, hreplay⟩

end Concrete
end KvRaft
