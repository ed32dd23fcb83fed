import KvRaft.Lsm.Threads

/-! Threads that look keys up while others write, flush and compact (`Database::get`). A lookup is in the
memtable first, under its read lock, and then in one table after the other, under the read lock of the
levels. Nothing is published meanwhile; all else goes on, and the inputs of a compaction are removed one by
one after the levels have been unlocked. -/

namespace KvRaft
open Outcome Table

/-- Where a thread is in `get`. The numbers are those of the commands that the memtable had taken. -/
inductive Reader where
  | idle
  | called (key : String) (since : Nat)
  /-- The key is not in the memtable. -/
  | missed (key : String) (since : Nat)
  /-- Holds the read lock of the levels; the tables are still to be looked at. -/
  | searching (key : String) (since : Nat) (todo : List SSTable)
  | done (key : String) (since till : Nat) (result : Except Fault (Option Value))

namespace Reader

/-- What a lookup has returned, with the moments of its call and its return. -/
def returned : Reader → Option (String × Nat × Nat × Option Value)
  | .done key since till (.ok v) => some (key, since, till, v)
  | _ => none

theorem returned_eq_some {reader : Reader} {key : String} {since till : Nat} {v : Option Value} :
    reader.returned = some (key, since, till, v) ↔ reader = .done key since till (.ok v) := by
  constructor
  · intro h
    unfold returned at h
    split at h
    · cases h
      rfl
    · cases h
  · rintro rfl
    rfl

end Reader

structure Lookups (T R : Type) where
  threads : Threads T
  /-- The inputs of a compaction that it has still to remove. -/
  removing : T → List SSTable
  reader : R → Reader
  /-- The holders of the read lock of the levels. -/
  levelsLock : List R
  /-- On record: the commands in the order in which the memtable took them. -/
  taken : List Command
  /-- On record: how many table ids were given out. -/
  allocated : Nat

namespace Lookups
variable {T R : Type}

inductive Event (T R : Type) where
  | write (t : T) (c : Command)
  | advance (t : T)
  | get (r : R) (key : String)
  | read (r : R)

def Event.command : Event T R → Option Command
  | .write _ c => some c
  | _ => none

def start (db : Database) : Lookups T R := ⟨.start db, fun _ => [], fun _ => .idle, [], [], 0⟩

end Lookups

namespace Threads
variable {T : Type}

def takes (s : Threads T) (t : T) : List Command :=
  match s.phase t with
  | .logged c _ => [c]
  | _ => []

def allocates (s : Threads T) (t : T) : Nat :=
  match s.phase t with
  | .full => if s.db.data.entries.isEmpty then 0 else 1
  | .opened .. => 1
  | _ => 0

end Threads

/-- The table that a thread has to publish, for which it needs the write lock of the levels. -/
def Phase.tableId : Phase → Option UInt32
  | .flushing id => some id
  | .merging id .. => some id
  | _ => none

namespace Lookups
variable {T R : Type} [DecidableEq T] [DecidableEq R] [FloatText] [Xxh3] [BloomSizing]

/-- The end of a compaction: the merged table is published, and the inputs are to be removed. -/
def merge (s : Lookups T R) (t : T) (id : UInt32) (level : Nat) (current next : List SSTable)
    (counts levels : List Nat) : Option (Lookups T R) :=
  (Threads.succeed (do
    let table ← Database.mergeTables id current next counts
    Database.publishMerged level current next table) s.threads.db).map fun r =>
      { s with
        threads := s.threads.goto t (.compacting levels) r.2
        removing := Function.update s.removing t (current ++ next) }

def advance (s : Lookups T R) (t : T) : Option (Lookups T R) :=
  match s.removing t with
  | input :: inputs => (Threads.succeed (Database.removeFile input.id) s.threads.db).map fun r =>
      { s with
        threads := { s.threads with db := r.2 }
        removing := Function.update s.removing t inputs }
  | [] =>
    if (s.threads.phase t).tableId.isSome ∧ s.levelsLock ≠ [] then none
    else match s.threads.phase t with
      | .merging id level current next counts levels => s.merge t id level current next counts levels
      | _ => (s.threads.advance t).map fun threads =>
          { s with
            threads := threads
            taken := s.taken ++ s.threads.takes t
            allocated := s.allocated + s.threads.allocates t }

def setReader (s : Lookups T R) (r : R) (reader : Reader) : Lookups T R :=
  { s with reader := Function.update s.reader r reader }

def answer (s : Lookups T R) (r : R) (key : String) (since : Nat) (result : Except Fault (Option Value)) :
    Lookups T R :=
  { s.setReader r (.done key since s.taken.length result) with levelsLock := s.levelsLock.erase r }

def read (s : Lookups T R) (r : R) : Option (Lookups T R) :=
  match s.reader r with
  | .idle | .done .. => none
  | .called key since =>
    if s.threads.dataLock.isSome then none
    else match s.threads.db.data.lookup key with
      | some entry => some (s.answer r key since (.ok (Database.visible (some entry))))
      | none => some (s.setReader r (.missed key since))
  | .missed key since =>
    some { s.setReader r (.searching key since s.threads.db.newestFirst) with levelsLock := r :: s.levelsLock }
  | .searching key since [] => some (s.answer r key since (.ok none))
  | .searching key since (table :: todo) =>
    match table.readEntry s.threads.db.disk key with
    | .error fault => some (s.answer r key since (.error fault))
    | .ok none => some (s.setReader r (.searching key since todo))
    | .ok (some entry) => some (s.answer r key since (.ok (Database.visible (some entry))))

def step (s : Lookups T R) : Event T R → Option (Lookups T R)
  | .write t c => (s.threads.step (.call t c)).map fun threads => { s with threads := threads }
  | .advance t => s.advance t
  | .get r key => match s.reader r with
    | .idle | .done .. => some (s.setReader r (.called key s.taken.length))
    | _ => none
  | .read r => s.read r

def exec (s : Lookups T R) (es : List (Event T R)) : Option (Lookups T R) := es.foldlM step s

end Lookups

/-! What a flush and a compaction do to the files, and that they can only fail for want of room. -/

namespace Database
variable [FloatText] [Xxh3] [BloomSizing]

theorem writeTable_stores {id : UInt32} {data : AList (fun _ : String => Entry)}
    (hfits : ∀ p ∈ (memRun data).entries, Fits p) {E : Prop}
    (hE : 2 ^ 64 ≤ tableSize (memRun data).entries.length (memRun data).entries → E) (db : Database) :
    Runs (writeTable id data) db E fun t db' => t = tableOf id (memRun data).entries.length (memRun data) ∧
      db' = db.after (flushOps id (memRun data)) ∧
      tableSize (memRun data).entries.length (memRun data).entries < 2 ^ 64 := by
  set r := memRun data
  unfold writeTable
  refine .step (emit_eq _ _) (.step (emit_eq _ _) (.step (emit_eq _ _) ?_))
  refine (lift_runs (write_returns hfits hE) _).bind ?_
  rintro _ _ ⟨rfl, rfl, hsize⟩
  refine .step (writeContents_eq _ _ _) ?_
  rw [after_after, after_after, after_after]
  change Runs _ (db.after (flushOps id r)) E _
  refine .step rfl ?_
  have hload : loadBloomFilter ((db.after (flushOps id r)).disk.contents id) =
      .ok (tableOf id r.entries.length r).bloomFilter := by
    rw [after, applyAll_flushOps, Disk.contents_store]
    exact (holds_encode hfits hsize id).loadBloomFilter
  exact .step (lift_eq hload _) (.of_ok rfl ⟨rfl, rfl, hsize⟩)

theorem writeTable_publish (id : UInt32) {db : Database} (hfits : ∀ p ∈ (memRun db.data).entries, Fits p) {E : Prop}
    (hE : 2 ^ 64 ≤ tableSize (memRun db.data).entries.length (memRun db.data).entries → E) :
    Runs (writeTable id db.data >>= publish) db E fun ok db' =>
      (ok = false ∧ db.leveledSstable = [] ∧ db' = db.after (flushOps id (memRun db.data))) ∨
      ∃ level0 levels, ok = true ∧ db.leveledSstable = level0 :: levels ∧
        tableSize (memRun db.data).entries.length (memRun db.data).entries < 2 ^ 64 ∧
        db' = { db.after (flushOps id (memRun db.data)) with
          leveledSstable := (level0 ++ [tableOf id (memRun db.data).entries.length (memRun db.data)]) :: levels } := by
  refine (writeTable_stores hfits hE db).bind ?_
  rintro _ _ ⟨rfl, rfl, hsize⟩
  refine .step rfl ?_
  dsimp only [after]
  cases hlevels : db.leveledSstable with
  | nil => exact .of_ok rfl (.inl ⟨rfl, rfl, rfl⟩)
  | cons level0 levels => exact .of_ok rfl (.inr ⟨level0, levels, rfl, rfl, hsize, rfl⟩)

omit [FloatText] [Xxh3] [BloomSizing] in
theorem removeFile_runs (id : UInt32) (db : Database) :
    Runs (removeFile id) db True fun _ db' => db' = db.after [.removeTable id] := by
  refine .step rfl ((lift_tablesOnly _ db).bind ?_)
  rintro _ _ rfl
  exact .of_ok rfl rfl

def mergeOps (id : UInt32) (r : Run String Entry) : List FileOp :=
  .createTable id :: contentOps id (contentsOf 1024 r.entries)

theorem applyAll_mergeOps (d : Disk) (id : UInt32) (r : Run String Entry) :
    d.applyAll (mergeOps id r) = d.store id (encode 1024 r.entries) :=
  applyAll_contentOps d id 1024 r.entries

theorem mergeTables_stores {db : Database} {runs : UInt32 → Run String Entry} {id : UInt32}
    {current next : List SSTable} (hnext : next.length ≤ 1)
    (hstored : ∀ t ∈ current ++ next, StoredIn db.disk t (runs t.id)) (hfree : ∀ t ∈ current ++ next, t.id ≠ id)
    {E : Prop} (hE : ∀ es : List (String × Entry), es.Pairwise (fun a b => a.1 < b.1) →
      (∀ p ∈ es, ∃ t ∈ current ++ next, p ∈ (runs t.id).entries) → 2 ^ 64 ≤ tableSize 1024 es → E) :
    Runs (mergeTables id current next ((current ++ next).map fun t => (runs t.id).entries.length)) db E
      fun t db' => ∃ r : Run String Entry, t = tableOf id 1024 r ∧ db' = db.after (mergeOps id r) ∧
        tableSize 1024 r.entries < 2 ^ 64 ∧ (∀ p ∈ r.entries, Fits p) ∧
        ∀ k, r.lookup k = Run.view ((current.reverse ++ next.reverse).map fun t => runs t.id) k := by
  have hstored' : ∀ t ∈ current ++ next, StoredIn (db.disk.store id []) t (runs t.id) := fun t ht =>
    (hstored t ht).store (hfree t ht) []
  unfold mergeTables
  refine .step (emit_eq _ _) (.step rfl ?_)
  refine (lift_runs (merge_returns hstored' hE) _).bind ?_
  rintro _ _ ⟨rfl, r, rfl, hsize, hfits, hselects⟩
  refine .step (writeContents_eq _ _ _) ?_
  rw [after_after]
  change Runs _ (db.after (mergeOps id r)) E _
  refine .step rfl ?_
  have hload : loadBloomFilter ((db.after (mergeOps id r)).disk.contents id) =
      .ok (tableOf id 1024 r).bloomFilter := by
    rw [after, applyAll_mergeOps, Disk.contents_store]
    exact (holds_encode hfits hsize id).loadBloomFilter
  refine .step (lift_eq hload _) (.of_ok rfl ⟨r, rfl, rfl, hsize, hfits, fun k => ?_⟩)
  rw [List.map_append, List.map_reverse, List.map_reverse]
  refine Merge.lookup_of_single ?_ (by rwa [List.length_map]) k
  rwa [List.length_map]

theorem mergeTables_publish {db : Database} {runs : UInt32 → Run String Entry} (id : UInt32) (level : Nat)
    {current next : List SSTable} (hnext : next.length ≤ 1)
    (hstored : ∀ t ∈ current ++ next, StoredIn db.disk t (runs t.id)) (hfree : ∀ t ∈ current ++ next, t.id ≠ id)
    {E : Prop} (hE : ∀ es : List (String × Entry), es.Pairwise (fun a b => a.1 < b.1) →
      (∀ p ∈ es, ∃ t ∈ current ++ next, p ∈ (runs t.id).entries) → 2 ^ 64 ≤ tableSize 1024 es → E) :
    Runs (do
      let table ← mergeTables id current next ((current ++ next).map fun t => (runs t.id).entries.length)
      publishMerged level current next table) db E fun _ db' => ∃ r : Run String Entry,
        db' = { db.after (mergeOps id r) with
          leveledSstable := (db.leveledSstable.modify level (·.drop current.length)).modify (level + 1)
            fun tables => tables.drop next.length ++ [tableOf id 1024 r] } ∧
        tableSize 1024 r.entries < 2 ^ 64 ∧ (∀ p ∈ r.entries, Fits p) ∧
        ∀ k, r.lookup k = Run.view ((current.reverse ++ next.reverse).map fun t => runs t.id) k := by
  refine (mergeTables_stores hnext hstored hfree hE).bind ?_
  rintro _ _ ⟨r, rfl, rfl, hrest⟩
  exact .of_ok rfl ⟨r, rfl, hrest⟩

end Database
end KvRaft
