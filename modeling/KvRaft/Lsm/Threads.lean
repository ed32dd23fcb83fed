import KvRaft.Lsm.DatabaseSpec

/-! Several threads on one database. A step runs from one lock to the next: the work in between is
on files that no other thread touches. Only steps that succeed are modelled. -/

namespace KvRaft
open Outcome Table

namespace Database
variable [FloatText] [Xxh3] [BloomSizing]

/-- `flush_memory_to_disk` from the allocation of the id to the publication. -/
def writeTable (id : UInt32) (data : AList (fun _ : String => Entry)) : Op SSTable := do
  emit (.createTable id)
  emit (.appendTable id (writeHeader emptyHeader))
  emit (.createTable id)
  let c ← lift (write (sortedEntries data))
  writeContents id c
  let db ← EStateM.get
  let bloomFilter ← lift (loadBloomFilter (db.disk.contents id))
  return ⟨id, c.index, bloomFilter⟩

/-- Pushes a table to level 0, if there are levels. -/
def publish (t : SSTable) : Op Bool := do
  let db ← EStateM.get
  match db.leveledSstable with
  | [] => return false
  | level0 :: levels =>
    modify fun db => { db with leveledSstable := (level0 ++ [t]) :: levels }
    return true

/-- `Logger::truncate`. -/
def truncateLog : Op Unit := do
  emit .truncateWal
  modify fun db => { db with logLen := 0 }

def clearData : Op Unit := modify fun db => { db with data := ∅ }

/-- The two levels that `compact_level` reads, and the checks of its inputs. -/
def openInputs (level : Nat) : Op (Option (List SSTable × List SSTable × List Nat)) := do
  let db ← EStateM.get
  if db.leveledSstable.length ≤ level + 1 then return none
  let current := db.leveledSstable.getD level []
  let next := db.leveledSstable.getD (level + 1) []
  if current.isEmpty then return none
  let counts ← lift ((current ++ next).mapM (openReader db.disk))
  return some (current, next, counts)

/-- `compact_level` from the allocation of the id to the publication. -/
def mergeTables (id : UInt32) (current next : List SSTable) (counts : List Nat) : Op SSTable := do
  emit (.createTable id)
  let db ← EStateM.get
  let c ← lift (Merge.run current.length (readersOf db.disk (current ++ next) counts))
  writeContents id c
  let db ← EStateM.get
  let bloomFilter ← lift (loadBloomFilter (db.disk.contents id))
  return ⟨id, c.index, bloomFilter⟩

/-- The inputs are drained, the new table is pushed to the level below. -/
def publishMerged (level : Nat) (current next : List SSTable) (t : SSTable) : Op Unit :=
  modify fun db => { db with
    leveledSstable := (db.leveledSstable.modify level (·.drop current.length)).modify (level + 1)
      fun tables => tables.drop next.length ++ [t] }

def removeInputs (inputs : List SSTable) : Op Unit := inputs.forM fun t => removeFile t.id

end Database

/-- Where a thread is in an operation. -/
inductive Phase where
  | idle
  /-- The record is in the log, from the byte `offset` on, and not yet in the memtable. -/
  | logged (c : Command) (offset : Nat)
  | updated
  /-- `maybe_flush` has seen a full memtable. -/
  | full
  /-- Holds `flush_lock` and the memtable; the table has an id. -/
  | flushing (id : UInt32)
  | published
  | truncated
  /-- `maybe_flush` is over. -/
  | flushed
  /-- Holds `compaction_lock`; the levels are still to be compacted. -/
  | compacting (levels : List Nat)
  | opened (level : Nat) (current next : List SSTable) (counts levels : List Nat)
  | merging (id : UInt32) (level : Nat) (current next : List SSTable) (counts levels : List Nat)

def Phase.isIdle : Phase → Bool
  | .idle => true
  | _ => false

theorem Phase.isIdle_iff {p : Phase} : p.isIdle = true ↔ p = .idle := by
  cases p <;> simp [isIdle]

def Phase.afterOpen (level : Nat) (levels : List Nat) :
    Option (List SSTable × List SSTable × List Nat) → Phase
  | none => .compacting levels
  | some (current, next, counts) => .opened level current next counts levels

structure Threads (T : Type) where
  db : Database
  phase : T → Phase
  /-- The holder of `flush_lock` and of the write lock of `data`. -/
  dataLock : Option T
  compactionLock : Option T

/-- A thread enters `insert` or `delete`, or goes on to the next lock. -/
inductive Event (T : Type) where
  | call (t : T) (c : Command)
  | advance (t : T)

namespace Event
variable {T : Type}

def thread : Event T → T
  | .call t _ => t
  | .advance t => t

def command : Event T → Option Command
  | .call _ c => some c
  | .advance _ => none

def advances (t : T) (n : Nat) : List (Event T) := List.replicate n (.advance t)

end Event

namespace Threads
variable {T : Type} [DecidableEq T]

def start (db : Database) : Threads T := ⟨db, fun _ => .idle, none, none⟩

def goto (s : Threads T) (t : T) (p : Phase) (db : Database) : Threads T :=
  { s with db := db, phase := Function.update s.phase t p }

def succeed {α : Type} (x : Database.Op α) (db : Database) : Option (α × Database) :=
  match x db with
  | .ok a db' => some (a, db')
  | .error _ _ => none

/-- The next step of a thread; none while it waits for a lock. -/
def advance [FloatText] [Xxh3] [BloomSizing] (s : Threads T) (t : T) : Option (Threads T) :=
  match s.phase t with
  | .idle => none
  | .logged c _ =>
    if s.dataLock.isSome then none
    else some (s.goto t .updated { s.db with data := Database.put s.db.data c })
  | .updated =>
    if s.dataLock.isSome then none
    else some (s.goto t (if s.db.dataThreshold ≤ s.db.data.entries.length then .full else .flushed) s.db)
  | .full =>
    if s.dataLock.isSome then none
    else if s.db.data.entries.isEmpty then some (s.goto t .flushed s.db)
    else (succeed Database.allocateId s.db).map fun r =>
      { s.goto t (.flushing r.1) r.2 with dataLock := some t }
  | .flushing id =>
    (succeed (Database.writeTable id s.db.data >>= Database.publish) s.db).map fun r =>
      if r.1 then s.goto t .published r.2 else { s.goto t .flushed r.2 with dataLock := none }
  | .published => (succeed Database.truncateLog s.db).map fun r => s.goto t .truncated r.2
  | .truncated =>
    (succeed Database.clearData s.db).map fun r => { s.goto t .flushed r.2 with dataLock := none }
  | .flushed =>
    if s.compactionLock.isSome then none
    else some { s.goto t (.compacting s.db.levelsToCompact) s.db with compactionLock := some t }
  | .compacting [] => some { s.goto t .idle s.db with compactionLock := none }
  | .compacting (level :: levels) =>
    (succeed (Database.openInputs level) s.db).map fun r => s.goto t (.afterOpen level levels r.1) r.2
  | .opened level current next counts levels =>
    (succeed Database.allocateId s.db).map fun r =>
      s.goto t (.merging r.1 level current next counts levels) r.2
  | .merging id level current next counts levels =>
    (succeed (do
      let table ← Database.mergeTables id current next counts
      Database.publishMerged level current next table
      Database.removeInputs (current ++ next)) s.db).map fun r => s.goto t (.compacting levels) r.2

def step [FloatText] [Xxh3] [BloomSizing] (s : Threads T) : Event T → Option (Threads T)
  | .call t c => match s.phase t with
    | .idle => (succeed (Database.log c) s.db).map fun r => s.goto t (.logged c s.db.disk.wal.length) r.2
    | _ => none
  | .advance t => s.advance t

def exec [FloatText] [Xxh3] [BloomSizing] (s : Threads T) (es : List (Event T)) : Option (Threads T) := es.foldlM step s

def Quiet (s : Threads T) : Prop := ∀ t, s.phase t = .idle

theorem quiet_of_both {s : Threads (Bool)} (h0 : s.phase false = .idle) (h1 : s.phase true = .idle) :
    s.Quiet := fun t => by
  cases t with
  | false => exact h0
  | true => exact h1

end Threads

/-! What a step can do. -/

namespace Database

def TablesOnly (db db' : Database) : Prop :=
  ∃ tables journal, db' = { db with disk := { db.disk with tables := tables }, journal := journal }

theorem TablesOnly.refl (db : Database) : TablesOnly db db := ⟨db.disk.tables, db.journal, rfl⟩

theorem TablesOnly.trans {db db₁ db₂ : Database} (h : TablesOnly db db₁) (h' : TablesOnly db₁ db₂) :
    TablesOnly db db₂ := by
  obtain ⟨tables, journal, rfl⟩ := h
  obtain ⟨tables', journal', rfl⟩ := h'
  exact ⟨tables', journal', rfl⟩

theorem TablesOnly.emit {op : FileOp} (h : ∀ d : Disk, (d.apply op).wal = d.wal) (db : Database) :
    Runs (emit op) db True fun _ => TablesOnly db := by
  refine .of_ok rfl ⟨(db.disk.apply op).tables, db.journal ++ [op], ?_⟩
  have hdisk : db.disk.apply op = ⟨db.disk.wal, (db.disk.apply op).tables⟩ :=
    congrArg (Disk.mk · (db.disk.apply op).tables) (h db.disk)
  exact congrArg (fun d => { db with disk := d, journal := db.journal ++ [op] }) hdisk

theorem TablesOnly.forM {α : Type} {f : α → Op Unit} {l : List α} {db : Database}
    (h : ∀ a db, Runs (f a) db True fun _ => TablesOnly db) :
    Runs (l.forM f) db True fun _ => TablesOnly db :=
  Runs.forM (I := fun _ => TablesOnly db) (.refl db) fun _ a _ db' _ hdb' =>
    (h a db').mono fun _ _ h' => hdb'.trans h'

theorem lift_tablesOnly {α : Type} (x : Except Fault α) (db : Database) :
    Runs (lift x) db True fun _ db' => db' = db := by
  cases x with
  | ok a => exact .of_ok rfl rfl
  | error e => trivial

theorem writeContents_tablesOnly (id : UInt32) (c : Contents) (db : Database) :
    Runs (writeContents id c) db True fun _ => TablesOnly db := by
  refine (TablesOnly.forM fun bytes db => TablesOnly.emit (fun _ => rfl) db).bind fun _ db' h => ?_
  exact (TablesOnly.emit (fun _ => rfl) db').mono fun _ _ h' => h.trans h'

/-- The end that a flush and a compaction have in common: the table is written and read again. -/
theorem finishTable_tablesOnly (id : UInt32) (c : Contents) (db : Database) :
    Runs (do
      writeContents id c
      let db ← EStateM.get
      let bloomFilter ← lift (loadBloomFilter (db.disk.contents id))
      return (⟨id, c.index, bloomFilter⟩ : SSTable)) db True fun t db' => t.id = id ∧ TablesOnly db db' := by
  refine (writeContents_tablesOnly id c db).bind fun _ db' h => .step rfl ?_
  refine (lift_tablesOnly _ db').bind ?_
  rintro bloomFilter _ rfl
  exact .of_ok rfl ⟨rfl, h⟩

variable [FloatText] [Xxh3] [BloomSizing]

theorem writeTable_runs (id : UInt32) (data : AList (fun _ : String => Entry)) (db : Database) :
    Runs (writeTable id data) db True fun t db' => t.id = id ∧ TablesOnly db db' := by
  refine (TablesOnly.emit (fun _ => rfl) db).bind fun _ db₁ h₁ => ?_
  refine (TablesOnly.emit (fun _ => rfl) db₁).bind fun _ db₂ h₂ => ?_
  refine (TablesOnly.emit (fun _ => rfl) db₂).bind fun _ db₃ h₃ => ?_
  refine (lift_tablesOnly _ db₃).bind ?_
  rintro c _ rfl
  exact (finishTable_tablesOnly id c _).mono fun t db' ⟨hid, h⟩ => ⟨hid, ((h₁.trans h₂).trans h₃).trans h⟩

theorem mergeTables_runs (id : UInt32) (current next : List SSTable) (counts : List Nat) (db : Database) :
    Runs (mergeTables id current next counts) db True fun t db' => t.id = id ∧ TablesOnly db db' := by
  refine (TablesOnly.emit (fun _ => rfl) db).bind fun _ db₁ h₁ => .step rfl ?_
  refine (lift_tablesOnly _ db₁).bind ?_
  rintro c _ rfl
  exact (finishTable_tablesOnly id c _).mono fun t db' ⟨hid, h⟩ => ⟨hid, h₁.trans h⟩

omit [FloatText] [Xxh3] [BloomSizing] in
theorem removeInputs_runs (inputs : List SSTable) (db : Database) :
    Runs (removeInputs inputs) db True fun _ => TablesOnly db := by
  refine TablesOnly.forM fun t db => .step rfl ((lift_tablesOnly _ db).bind ?_)
  rintro _ _ rfl
  exact TablesOnly.emit (fun _ => rfl) _

end Database

namespace Threads
variable {T : Type} [DecidableEq T] [FloatText] {s s' : Threads T} {t : T}

omit [FloatText] in
theorem succeed_eq_some {α : Type} {x : Database.Op α} {db : Database} {r : α × Database}
    (h : succeed x db = some r) : x db = .ok r.1 r.2 := by
  unfold succeed at h
  split at h
  · next heq =>
    cases h
    exact heq
  · cases h

inductive Move (s : Threads T) : Event T → Threads T → Prop
  | log {t : T} (c : Command) (hp : s.phase t = .idle) : Move s (.call t c)
      (s.goto t (.logged c s.db.disk.wal.length) { s.db with
        disk := { s.db.disk with wal := s.db.disk.wal ++ (LogRecord.new s.db.logLen c).writeTo }
        journal := s.db.journal ++ [.appendWal (LogRecord.new s.db.logLen c).writeTo]
        logLen := s.db.logLen + 1 })
  | put {t : T} {c : Command} {offset : Nat} (hp : s.phase t = .logged c offset)
      (hlock : s.dataLock = none) :
      Move s (.advance t) (s.goto t .updated { s.db with data := Database.put s.db.data c })
  | check {t : T} {p : Phase} (hp : s.phase t = .updated ∨ s.phase t = .full)
      (hp' : p = .full ∨ p = .flushed) :
      Move s (.advance t) (s.goto t p s.db)
  | allocate {t : T} (hp : s.phase t = .full) (hlock : s.dataLock = none) : Move s (.advance t)
      { s.goto t (.flushing s.db.nextSstableId) { s.db with nextSstableId := s.db.nextSstableId + 1 } with
        dataLock := some t }
  | publish {t : T} {id : UInt32} {table : SSTable} {level0 : List SSTable} {levels : List (List SSTable)}
      {db : Database} (hp : s.phase t = .flushing id) (hid : table.id = id)
      (hlevels : s.db.leveledSstable = level0 :: levels)
      (hdb : Database.TablesOnly { s.db with leveledSstable := (level0 ++ [table]) :: levels } db) :
      Move s (.advance t) (s.goto t .published db)
  | noLevels {t : T} {id : UInt32} {db : Database} (hp : s.phase t = .flushing id)
      (hlevels : s.db.leveledSstable = []) (hdb : Database.TablesOnly s.db db) :
      Move s (.advance t) { s.goto t .flushed db with dataLock := none }
  | truncate {t : T} (hp : s.phase t = .published) : Move s (.advance t) (s.goto t .truncated { s.db with
      disk := { s.db.disk with wal := [] }
      journal := s.db.journal ++ [.truncateWal]
      logLen := 0 })
  | clear {t : T} (hp : s.phase t = .truncated) :
      Move s (.advance t) { s.goto t .flushed { s.db with data := ∅ } with dataLock := none }
  | choose {t : T} (hp : s.phase t = .flushed) (hlock : s.compactionLock = none) : Move s (.advance t)
      { s.goto t (.compacting s.db.levelsToCompact) s.db with compactionLock := some t }
  | finish {t : T} (hp : s.phase t = .compacting []) :
      Move s (.advance t) { s.goto t .idle s.db with compactionLock := none }
  | skip {t : T} {level : Nat} {levels : List Nat} (hp : s.phase t = .compacting (level :: levels)) :
      Move s (.advance t) (s.goto t (.compacting levels) s.db)
  | openInputs {t : T} {level : Nat} {counts levels : List Nat}
      (hp : s.phase t = .compacting (level :: levels))
      (hlevel : level + 1 < s.db.leveledSstable.length) : Move s (.advance t) (s.goto t
        (.opened level (s.db.leveledSstable.getD level []) (s.db.leveledSstable.getD (level + 1) []) counts
          levels) s.db)
  | allocateMerged {t : T} {level : Nat} {current next : List SSTable} {counts levels : List Nat}
      (hp : s.phase t = .opened level current next counts levels) : Move s (.advance t)
        (s.goto t (.merging s.db.nextSstableId level current next counts levels)
          { s.db with nextSstableId := s.db.nextSstableId + 1 })
  | merge {t : T} {id : UInt32} {table : SSTable} {level : Nat} {current next : List SSTable}
      {counts levels : List Nat} {db : Database}
      (hp : s.phase t = .merging id level current next counts levels) (hid : table.id = id)
      (hdb : Database.TablesOnly { s.db with
        leveledSstable := (s.db.leveledSstable.modify level (·.drop current.length)).modify (level + 1)
          fun tables => tables.drop next.length ++ [table] } db) :
      Move s (.advance t) (s.goto t (.compacting levels) db)

omit [FloatText] in
theorem lock_free {α : Type} {l : Option α} (h : ¬ l.isSome = true) : l = none :=
  Option.not_isSome_iff_eq_none.mp h

variable [Xxh3] [BloomSizing]

theorem flush_move {id : UInt32} (hp : s.phase t = .flushing id) {r : Bool × Database}
    (h : (Database.writeTable id s.db.data >>= Database.publish) s.db = .ok r.1 r.2) :
    Move s (.advance t) (if r.1 then s.goto t .published r.2
      else { s.goto t .flushed r.2 with dataLock := none }) := by
  refine Runs.of_eq_ok (E := True) (Q := fun ok db => Move s (.advance t)
    (if ok then s.goto t .published db else { s.goto t .flushed db with dataLock := none })) ?_ h
  refine (Database.writeTable_runs id s.db.data s.db).bind ?_
  rintro table _ ⟨hid, tables, journal, rfl⟩
  refine .step rfl ?_
  dsimp only
  cases hlevels : s.db.leveledSstable with
  | nil => exact .of_ok rfl (.noLevels hp hlevels ⟨tables, journal, by rw [hlevels]⟩)
  | cons level0 levels => exact .of_ok rfl (.publish hp hid hlevels ⟨tables, journal, rfl⟩)

theorem merge_move {id : UInt32} {level : Nat} {current next : List SSTable} {counts levels : List Nat}
    (hp : s.phase t = .merging id level current next counts levels) {r : Unit × Database}
    (h : (do
      let table ← Database.mergeTables id current next counts
      Database.publishMerged level current next table
      Database.removeInputs (current ++ next)) s.db = .ok r.1 r.2) :
    Move s (.advance t) (s.goto t (.compacting levels) r.2) := by
  refine Runs.of_eq_ok (E := True) (Q := fun _ db => Move s (.advance t) (s.goto t (.compacting levels) db)) ?_ h
  refine (Database.mergeTables_runs id current next counts s.db).bind ?_
  rintro table _ ⟨hid, tables, journal, rfl⟩
  refine .step rfl ((Database.removeInputs_runs _ _).mono fun _ db hdb => .merge hp hid ?_)
  exact Database.TablesOnly.trans ⟨tables, journal, rfl⟩ hdb

omit [Xxh3] [BloomSizing] in
theorem openInputs_move {level : Nat} {levels : List Nat} (hp : s.phase t = .compacting (level :: levels))
    {r : Option (List SSTable × List SSTable × List Nat) × Database}
    (h : Database.openInputs level s.db = .ok r.1 r.2) :
    Move s (.advance t) (s.goto t (.afterOpen level levels r.1) r.2) := by
  refine Runs.of_eq_ok (E := True) (Q := fun o db => Move s (.advance t) (s.goto t (.afterOpen level levels o) db)) ?_ h
  unfold Database.openInputs
  refine .step rfl ?_
  dsimp only
  have hskip : Move s (.advance t) (s.goto t (.compacting levels) s.db) := .skip hp
  split_ifs with hlevel
  · exact .of_ok rfl hskip
  · exact .of_ok rfl hskip
  · refine (Database.lift_tablesOnly _ s.db).bind ?_
    rintro counts _ rfl
    have hopen : Move s (.advance t) (s.goto t (.opened level _ _ counts levels) s.db) :=
      .openInputs hp (Nat.not_le.mp hlevel)
    exact .of_ok rfl hopen

theorem advance_move (h : s.advance t = some s') : Move s (.advance t) s' := by
  unfold advance at h
  split at h
  case h_1 => cases h
  case h_2 c offset hp =>
    split_ifs at h with hlock
    cases h
    exact .put hp (lock_free hlock)
  case h_3 hp =>
    split_ifs at h with hlock hfull
    · cases h
      exact .check (Or.inl hp) (Or.inl rfl)
    · cases h
      exact .check (Or.inl hp) (Or.inr rfl)
  case h_4 hp =>
    split_ifs at h with hlock hempty
    · cases h
      exact .check (Or.inr hp) (Or.inr rfl)
    · obtain ⟨r, hr, rfl⟩ := Option.map_eq_some_iff.mp h
      cases hr
      exact .allocate hp (lock_free hlock)
  case h_5 id hp =>
    obtain ⟨r, hr, rfl⟩ := Option.map_eq_some_iff.mp h
    exact flush_move hp (succeed_eq_some hr)
  case h_6 hp =>
    obtain ⟨r, hr, rfl⟩ := Option.map_eq_some_iff.mp h
    cases hr
    exact .truncate hp
  case h_7 hp =>
    obtain ⟨r, hr, rfl⟩ := Option.map_eq_some_iff.mp h
    cases hr
    exact .clear hp
  case h_8 hp =>
    split_ifs at h with hlock
    cases h
    exact .choose hp (lock_free hlock)
  case h_9 hp =>
    cases h
    exact .finish hp
  case h_10 level levels hp =>
    obtain ⟨r, hr, rfl⟩ := Option.map_eq_some_iff.mp h
    exact openInputs_move hp (succeed_eq_some hr)
  case h_11 level current next counts levels hp =>
    obtain ⟨r, hr, rfl⟩ := Option.map_eq_some_iff.mp h
    cases hr
    exact .allocateMerged hp
  case h_12 id level current next counts levels hp =>
    obtain ⟨r, hr, rfl⟩ := Option.map_eq_some_iff.mp h
    exact merge_move hp (succeed_eq_some hr)

theorem step_move {e : Event T} (h : s.step e = some s') : Move s e s' := by
  cases e with
  | call t c =>
    unfold step at h
    dsimp only at h
    split at h
    · next hp =>
      obtain ⟨r, hr, rfl⟩ := Option.map_eq_some_iff.mp h
      cases hr
      exact .log c hp
    · cases h
  | advance t => exact advance_move h

end Threads

/-- Holds `flush_lock` and the write lock of `data`. -/
def Phase.holdsData : Phase → Bool
  | .flushing _ | .published | .truncated => true
  | _ => false

/-- Holds `compaction_lock`. -/
def Phase.holdsCompaction : Phase → Bool
  | .compacting _ | .opened .. | .merging .. => true
  | _ => false

namespace Threads
variable {T : Type} [DecidableEq T] {s s' : Threads T} {t : T}

@[simp] theorem goto_phase_self (p : Phase) (db : Database) : (s.goto t p db).phase t = p :=
  Function.update_self (β := fun _ => Phase) t p s.phase

theorem goto_phase_ne {t' : T} (h : t' ≠ t) (p : Phase) (db : Database) :
    (s.goto t p db).phase t' = s.phase t' := Function.update_of_ne h ..

structure LocksOk (s : Threads T) : Prop where
  data : ∀ t, (s.phase t).holdsData = true → s.dataLock = some t
  compaction : ∀ t, (s.phase t).holdsCompaction = true → s.compactionLock = some t

omit [DecidableEq T] in
/-- Only one thread compacts. -/
theorem LocksOk.compacts_alone (h : s.LocksOk) {t' : T} (ht : (s.phase t).holdsCompaction = true)
    (ht' : (s.phase t').holdsCompaction = true) : t' = t :=
  Option.some.inj ((h.compaction t' ht').symm.trans (h.compaction t ht))

omit [DecidableEq T] in
theorem LocksOk.start (db : Database) : (start db : Threads T).LocksOk :=
  ⟨fun _ h => absurd h Bool.false_ne_true, fun _ h => absurd h Bool.false_ne_true⟩

theorem lock_update {holds : Phase → Bool} {l l' : Option T} {phase : T → Phase}
    (h : ∀ t, holds (phase t) = true → l = some t) {p : Phase} (hp : holds p = true → l' = some t)
    (hl : l' = l ∨ l = none ∨ l = some t) :
    ∀ t', holds (Function.update phase t p t') = true → l' = some t' := by
  intro t' ht'
  by_cases heq : t' = t
  · subst heq
    rw [Function.update_self] at ht'
    exact hp ht'
  · rw [Function.update_of_ne heq] at ht'
    have hlock := h t' ht'
    rcases hl with hl | hl | hl
    · exact hl.trans hlock
    · exact absurd (hl.symm.trans hlock) (Option.some_ne_none t').symm
    · exact absurd (Option.some.inj (hlock.symm.trans hl)) heq

variable [FloatText]

theorem Move.locksOk {e : Event T} (hs : Move s e s') (h : s.LocksOk) : s'.LocksOk := by
  have hd : ∀ {t : T} {p : Phase}, p.holdsData = false → ∀ t',
      (Function.update s.phase t p t').holdsData = true → s.dataLock = some t' := fun hp =>
    lock_update h.data (fun hp' => absurd (hp.symm.trans hp') Bool.false_ne_true) (Or.inl rfl)
  have hc : ∀ {t : T} {p : Phase}, p.holdsCompaction = false → ∀ t',
      (Function.update s.phase t p t').holdsCompaction = true → s.compactionLock = some t' := fun hp =>
    lock_update h.compaction (fun hp' => absurd (hp.symm.trans hp') Bool.false_ne_true) (Or.inl rfl)
  cases hs with
  | log c hp => exact ⟨hd rfl, hc rfl⟩
  | put hp hlock => exact ⟨hd rfl, hc rfl⟩
  | check hp hp' =>
    rcases hp' with rfl | rfl
    · exact ⟨hd rfl, hc rfl⟩
    · exact ⟨hd rfl, hc rfl⟩
  | allocate hp hlock => exact ⟨lock_update h.data (fun _ => rfl) (Or.inr (Or.inl hlock)), hc rfl⟩
  | publish hp => exact ⟨lock_update h.data (fun _ => h.data _ (by rw [hp]; rfl)) (Or.inl rfl), hc rfl⟩
  | noLevels hp =>
    exact ⟨lock_update h.data (fun hp' => absurd hp' Bool.false_ne_true)
      (Or.inr (Or.inr (h.data _ (by rw [hp]; rfl)))), hc rfl⟩
  | truncate hp => exact ⟨lock_update h.data (fun _ => h.data _ (by rw [hp]; rfl)) (Or.inl rfl), hc rfl⟩
  | clear hp =>
    exact ⟨lock_update h.data (fun hp' => absurd hp' Bool.false_ne_true)
      (Or.inr (Or.inr (h.data _ (by rw [hp]; rfl)))), hc rfl⟩
  | choose hp hlock => exact ⟨hd rfl, lock_update h.compaction (fun _ => rfl) (Or.inr (Or.inl hlock))⟩
  | finish hp =>
    exact ⟨hd rfl, lock_update h.compaction (fun hp' => absurd hp' Bool.false_ne_true)
      (Or.inr (Or.inr (h.compaction _ (by rw [hp]; rfl))))⟩
  | skip hp =>
    exact ⟨hd rfl, lock_update h.compaction (fun _ => h.compaction _ (by rw [hp]; rfl)) (Or.inl rfl)⟩
  | openInputs hp =>
    exact ⟨hd rfl, lock_update h.compaction (fun _ => h.compaction _ (by rw [hp]; rfl)) (Or.inl rfl)⟩
  | allocateMerged hp =>
    exact ⟨hd rfl, lock_update h.compaction (fun _ => h.compaction _ (by rw [hp]; rfl)) (Or.inl rfl)⟩
  | merge hp =>
    exact ⟨hd rfl, lock_update h.compaction (fun _ => h.compaction _ (by rw [hp]; rfl)) (Or.inl rfl)⟩

end Threads

/-! A thread alone does what the sequential model does. -/

namespace Database
variable [FloatText] [Xxh3] [BloomSizing]

theorem flushMemoryToDisk_eq : flushMemoryToDisk = (do
    let db ← EStateM.get
    if db.data.entries.isEmpty then return ()
    let id ← allocateId
    if ← writeTable id db.data >>= publish then
      truncateLog
      clearData) := by
  unfold flushMemoryToDisk writeTable publish truncateLog clearData
  refine bind_congr fun db => ?_
  split_ifs
  · rfl
  simp only [bind_assoc, pure_bind]
  refine bind_congr fun id => bind_congr fun _ => bind_congr fun _ => bind_congr fun _ => bind_congr fun c =>
    bind_congr fun _ => ?_
  funext db₁
  change (lift (loadBloomFilter (db₁.disk.contents id)) >>= _) db₁ =
    (lift (loadBloomFilter (db₁.disk.contents id)) >>= _) db₁
  cases loadBloomFilter (db₁.disk.contents id) with
  | error e => rfl
  | ok b =>
    change (match db₁.leveledSstable with
      | [] => _
      | level0 :: levels => _ : Op Unit) db₁ = EStateM.bind (match db₁.leveledSstable with
      | [] => _
      | level0 :: levels => _ : Op Bool) _ db₁
    cases db₁.leveledSstable with
    | nil => rfl
    | cons => rfl

theorem compactLevel_eq (level : Nat) : compactLevel level = (do
    match ← openInputs level with
    | none => return ()
    | some (current, next, counts) =>
      let id ← allocateId
      let table ← mergeTables id current next counts
      publishMerged level current next table
      removeInputs (current ++ next)) := by
  unfold compactLevel openInputs mergeTables publishMerged removeInputs
  simp only [bind_assoc, pure_bind]
  refine bind_congr fun db => ?_
  split_ifs
  · rfl
  · rfl
  · simp only [bind_assoc, pure_bind]

end Database

namespace Threads
variable {T : Type} [DecidableEq T]

def alone (t : T) (p : Phase) (db : Database) (dataLock compactionLock : Option T) : Threads T :=
  ⟨db, Function.update (fun _ => .idle) t p, dataLock, compactionLock⟩

def Leads [FloatText] [Xxh3] [BloomSizing] (t : T) (s s' : Threads T) : Prop :=
  ∃ es, (∀ e ∈ es, Event.thread e = t) ∧ exec s es = some s'

theorem Leads.refl [FloatText] [Xxh3] [BloomSizing] (t : T) (s : Threads T) : Leads t s s :=
    ⟨[], fun _ h => absurd h List.not_mem_nil, rfl⟩

theorem Leads.trans [FloatText] [Xxh3] [BloomSizing] {t : T} {s s' s'' : Threads T} (h : Leads t s s')
    (h' : Leads t s' s'') :
    Leads t s s'' := by
  obtain ⟨es, hes, hrun⟩ := h
  obtain ⟨es', hes', hrun'⟩ := h'
  refine ⟨es ++ es', fun e he => (List.mem_append.mp he).elim (hes e) (hes' e), ?_⟩
  rw [exec, List.foldlM_append]
  exact Option.bind_eq_some_iff.mpr ⟨s', hrun, hrun'⟩

theorem Leads.of_step [FloatText] [Xxh3] [BloomSizing] {e : Event T} {s s' : Threads T} (h : s.step e = some s') :
    Leads e.thread s s' := by
  refine ⟨[e], fun e' he' => congrArg Event.thread (List.mem_singleton.mp he'), ?_⟩
  rw [exec, List.foldlM_cons, h]
  rfl

theorem Leads.of_advance [FloatText] [Xxh3] [BloomSizing] {t : T} {s s' : Threads T} (h : s.advance t = some s') :
    Leads t s s' :=
  Leads.of_step (e := .advance t) h

section Alone
variable {t : T} {p : Phase} {db db' : Database} {dataLock compactionLock : Option T}

@[simp] theorem alone_db : (alone t p db dataLock compactionLock).db = db := rfl

@[simp] theorem alone_dataLock : (alone t p db dataLock compactionLock).dataLock = dataLock := rfl

@[simp] theorem alone_compactionLock :
    (alone t p db dataLock compactionLock).compactionLock = compactionLock := rfl

@[simp] theorem alone_phase : (alone t p db dataLock compactionLock).phase t = p :=
  Function.update_self (β := fun _ => Phase) t p fun _ => .idle

@[simp] theorem alone_goto (p' : Phase) : (alone t p db dataLock compactionLock).goto t p' db' =
    alone t p' db' dataLock compactionLock := by
  rw [alone, goto, alone, Function.update_idem]

theorem succeed_of_eq {α : Type} {x : Database.Op α} {a : α} (h : x db = .ok a db') :
    succeed x db = some (a, db') := by
  rw [succeed, h]

theorem start_eq_alone (t : T) (db : Database) : start db = alone t .idle db none none := by
  rw [start, alone, Function.update_eq_self]

theorem leads_flush [FloatText] [Xxh3] [BloomSizing] (h : Database.flushMemoryToDisk db = .ok () db') :
    Leads t (alone t .full db none none) (alone t .flushed db' none none) := by
  rw [Database.flushMemoryToDisk_eq] at h
  change (if db.data.entries.isEmpty then pure () else _ : Database.Op Unit) db = _ at h
  split_ifs at h with hempty
  · cases h
    refine .of_advance ?_
    simp only [advance, alone_phase, alone_dataLock, alone_db, alone_goto, hempty, Option.isSome_none,
      Bool.false_eq_true, if_false, if_true]
  have halloc : Leads t (alone t .full db none none)
      (alone t (.flushing db.nextSstableId) { db with nextSstableId := db.nextSstableId + 1 } (some t) none) := by
    refine .of_advance ?_
    simp only [advance, alone_phase, alone_dataLock, alone_db, alone_goto, hempty, Option.isSome_none,
      Bool.false_eq_true, if_false]
    rfl
  refine halloc.trans ?_
  change ((Database.writeTable db.nextSstableId db.data >>= Database.publish) >>= _)
    { db with nextSstableId := db.nextSstableId + 1 } = _ at h
  obtain ⟨ok, db₁, hwrite, hrest⟩ := Outcome.bind_eq_ok h
  have hpublish := succeed_of_eq hwrite
  cases ok with
  | false =>
    cases hrest
    refine .of_advance ?_
    simp only [advance, alone_phase, alone_db, alone_goto, hpublish, Option.map_some, Bool.false_eq_true,
      if_false]
    rfl
  | true =>
    have h1 : Leads t (alone t (.flushing db.nextSstableId)
        { db with nextSstableId := db.nextSstableId + 1 } (some t) none)
        (alone t .published db₁ (some t) none) := by
      refine .of_advance ?_
      simp only [advance, alone_phase, alone_db, alone_goto, hpublish, Option.map_some, if_true]
    obtain ⟨_, db₂, htruncate, hclear⟩ := Outcome.bind_eq_ok hrest
    have h2 : Leads t (alone t .published db₁ (some t) none) (alone t .truncated db₂ (some t) none) := by
      refine .of_advance ?_
      simp only [advance, alone_phase, alone_db, alone_goto, succeed_of_eq htruncate, Option.map_some]
    refine (h1.trans h2).trans (.of_advance ?_)
    simp only [advance, alone_phase, alone_db, alone_goto, succeed_of_eq hclear, Option.map_some]
    rfl

theorem leads_compactLevel [FloatText] [Xxh3] [BloomSizing] {level : Nat} {levels : List Nat}
    (h : Database.compactLevel level db = .ok () db') :
    Leads t (alone t (.compacting (level :: levels)) db none (some t))
      (alone t (.compacting levels) db' none (some t)) := by
  rw [Database.compactLevel_eq] at h
  obtain ⟨r, db₁, hopen, hrest⟩ := Outcome.bind_eq_ok h
  have h1 : Leads t (alone t (.compacting (level :: levels)) db none (some t))
      (alone t (.afterOpen level levels r) db₁ none (some t)) := by
    refine .of_advance ?_
    simp only [advance, alone_phase, alone_db, alone_goto, succeed_of_eq hopen, Option.map_some]
  cases r with
  | none =>
    cases hrest
    exact h1
  | some inputs =>
    obtain ⟨current, next, counts⟩ := inputs
    obtain ⟨id, db₂, halloc, hmerge⟩ := Outcome.bind_eq_ok hrest
    have h2 : Leads t (alone t (.opened level current next counts levels) db₁ none (some t))
        (alone t (.merging id level current next counts levels) db₂ none (some t)) := by
      refine .of_advance ?_
      simp only [advance, alone_phase, alone_db, alone_goto, succeed_of_eq halloc, Option.map_some]
    refine (h1.trans h2).trans (.of_advance ?_)
    simp only [advance, alone_phase, alone_db, alone_goto, succeed_of_eq hmerge, Option.map_some]

theorem leads_compactLevels [FloatText] [Xxh3] [BloomSizing] {levels : List Nat}
    (h : levels.forM Database.compactLevel db = .ok () db') :
    Leads t (alone t (.compacting levels) db none (some t))
      (alone t (.compacting []) db' none (some t)) := by
  induction levels generalizing db with
  | nil =>
    cases h
    exact .refl ..
  | cons level levels ih =>
    obtain ⟨_, db₁, hone, hrest⟩ := Outcome.bind_eq_ok h
    exact (leads_compactLevel hone).trans (ih hrest)

/-- Every call of the sequential model is a run of one thread while the others are idle. -/
theorem leads_perform [FloatText] [Xxh3] [BloomSizing] {c : Command} (h : Database.perform c db = .ok () db') :
    Leads t (start db) (start db') := by
  rw [start_eq_alone t, start_eq_alone t]
  obtain ⟨_, db₁, hlog, h⟩ := Outcome.bind_eq_ok h
  obtain ⟨_, db₂, hput, h⟩ := Outcome.bind_eq_ok h
  obtain ⟨_, db₃, hflush, hcompact⟩ := Outcome.bind_eq_ok h
  have hput : { db₁ with data := Database.put db₁.data c } = db₂ := by
    cases hput
    rfl
  have h1 : Leads t (alone t .idle db none none)
      (alone t (.logged c db.disk.wal.length) db₁ none none) := by
    refine Leads.of_step (e := .call t c) ?_
    simp only [step, alone_phase, alone_db, alone_goto, succeed_of_eq hlog, Option.map_some]
  have h2 : Leads t (alone t (.logged c db.disk.wal.length) db₁ none none)
      (alone t .updated db₂ none none) := by
    refine .of_advance ?_
    simp only [advance, alone_phase, alone_db, alone_dataLock, alone_goto, Option.isSome_none,
      Bool.false_eq_true, if_false, hput]
  have h3 : Leads t (alone t .updated db₂ none none) (alone t .flushed db₃ none none) := by
    change (if db₂.dataThreshold ≤ db₂.data.entries.length then Database.flushMemoryToDisk else pure () :
      Database.Op Unit) db₂ = _ at hflush
    split_ifs at hflush with hfull
    · refine Leads.trans (.of_advance ?_) (leads_flush hflush)
      simp only [advance, alone_phase, alone_db, alone_dataLock, alone_goto, Option.isSome_none,
        Bool.false_eq_true, if_false, hfull, if_true]
    · cases hflush
      refine .of_advance ?_
      simp only [advance, alone_phase, alone_db, alone_dataLock, alone_goto, Option.isSome_none,
        Bool.false_eq_true, if_false, hfull]
  have h4 : Leads t (alone t .flushed db₃ none none)
      (alone t (.compacting db₃.levelsToCompact) db₃ none (some t)) := by
    refine .of_advance ?_
    simp only [advance, alone_phase, alone_db, alone_compactionLock, alone_goto, Option.isSome_none,
      Bool.false_eq_true, if_false]
    rfl
  have h5 : Leads t (alone t (.compacting []) db' none (some t)) (alone t .idle db' none none) := by
    refine .of_advance ?_
    simp only [advance, alone_phase, alone_db, alone_goto]
    rfl
  exact (((h1.trans h2).trans h3).trans h4).trans ((leads_compactLevels hcompact).trans h5)

end Alone
end Threads
end KvRaft
