import KvRaft.Lsm.MapRefinement

/-! The operations of the database when every access to a file may fail. The functions are those of the
database with each change of a file, and each read that a compaction makes, replaced by an attempt; what
is done before an attempt that fails stays. -/

namespace KvRaft
open Outcome Table

/-- How an access to a file goes. A change that fails leaves the file as it is, or with any contents. -/
inductive Attempt where
  | works
  | fails (error : Fault) (left : Option Bytes)
  deriving DecidableEq, Repr

def Disk.spoil (d : Disk) (op : FileOp) : Option Bytes → Disk
  | none => d
  | some left => match op with
    | .appendWal _ | .truncateWal => { d with wal := left }
    | .createTable id | .appendTable id _ | .finishTable id _ => { d with tables := d.tables.insert id left }
    | .removeTable id => { d with tables := d.tables.erase id }

/-- A database with what is to come of its accesses to files; when the list is used up they all work. -/
structure Disrupted where
  db : Database
  attempts : List Attempt
  /-- A table has been created under the name of a live one. -/
  clash : Bool

namespace Disrupted

abbrev Op := EStateM Fault Disrupted

def keep {α : Type} (x : Database.Op α) : Op α := fun s =>
  match x s.db with
  | .ok a db => .ok a { s with db := db }
  | .error e db => .error e { s with db := db }

def next : Op Attempt := fun s =>
  match s.attempts with
  | [] => .ok .works s
  | a :: rest => .ok a { s with attempts := rest }

def attempt (op : FileOp) : Op Unit := do
  match ← next with
  | .works => keep (Database.emit op)
  | .fails error left =>
    modify fun s => { s with db := { s.db with disk := s.db.disk.spoil op left } }
    throw error

def reading {α : Type} (x : Except Fault α) : Op α := do
  match ← next with
  | .works => keep (Database.lift x)
  | .fails error _ => throw error

def streaming {α : Type} (id : UInt32) (x : Except Fault α) : Op α := do
  match ← next with
  | .works => keep (Database.lift x)
  | .fails error left =>
    modify fun s => { s with db := { s.db with disk := s.db.disk.spoil (.appendTable id []) left } }
    throw error

def allocateId : Op UInt32 := do
  modify fun s => { s with clash := s.clash || s.db.newestFirst.any fun t => t.id = s.db.nextSstableId }
  keep Database.allocateId

def removeFile (id : UInt32) : Op Unit := do
  let db ← keep EStateM.get
  let _ ← keep (Database.lift (db.disk.read id))
  attempt (.removeTable id)

def writeContents (id : UInt32) (c : Contents) : Op Unit := do
  c.file.forM fun bytes => attempt (.appendTable id bytes)
  attempt (.finishTable id (writeHeader c.header))

def log [FloatText] (c : Command) : Op Unit := do
  let db ← keep EStateM.get
  attempt (.appendWal (LogRecord.new db.logLen c).writeTo)
  keep (modify fun db => { db with logLen := db.logLen + 1 })

/-- A flush, once it has the id of its table. -/
def flushTo [FloatText] [Xxh3] [BloomSizing] (data : AList (fun _ : String => Entry)) (id : UInt32) : Op Unit := do
  attempt (.createTable id)
  attempt (.appendTable id (writeHeader emptyHeader))
  attempt (.createTable id)
  let c ← keep (Database.lift (write (Database.sortedEntries data)))
  writeContents id c
  let db ← keep EStateM.get
  let bloomFilter ← reading (loadBloomFilter (db.disk.contents id))
  match db.leveledSstable with
  | [] => return ()
  | level0 :: levels =>
    keep (modify fun db => { db with
      leveledSstable := (level0 ++ [⟨id, c.index, bloomFilter⟩]) :: levels })
    attempt .truncateWal
    keep (modify fun db => { db with logLen := 0, data := ∅ })

def flushMemoryToDisk [FloatText] [Xxh3] [BloomSizing] : Op Unit := do
  let db ← keep EStateM.get
  if db.data.entries.isEmpty then return ()
  let id ← allocateId
  flushTo db.data id

def maybeFlush [FloatText] [Xxh3] [BloomSizing] : Op Unit := do
  let db ← keep EStateM.get
  if db.dataThreshold ≤ db.data.entries.length then flushMemoryToDisk else return ()

/-- A compaction, once it has the id of its table. -/
def compactTo [FloatText] [Xxh3] [BloomSizing] (level : Nat) (current next : List SSTable) (counts : List Nat)
    (id : UInt32) : Op Unit := do
  attempt (.createTable id)
  let db ← keep EStateM.get
  let c ← streaming id (Merge.run current.length (Database.readersOf db.disk (current ++ next) counts))
  writeContents id c
  let db ← keep EStateM.get
  let bloomFilter ← reading (loadBloomFilter (db.disk.contents id))
  keep (modify fun db => { db with
    leveledSstable := (db.leveledSstable.modify level (·.drop current.length)).modify (level + 1)
      fun tables => tables.drop next.length ++ [⟨id, c.index, bloomFilter⟩] })
  (current ++ next).forM fun t => removeFile t.id

def compactLevel [FloatText] [Xxh3] [BloomSizing] (level : Nat) : Op Unit := do
  let db ← keep EStateM.get
  if db.leveledSstable.length ≤ level + 1 then return ()
  let current := db.leveledSstable.getD level []
  let next := db.leveledSstable.getD (level + 1) []
  if current.isEmpty then return ()
  let counts ← reading ((current ++ next).mapM (Database.openReader db.disk))
  let id ← allocateId
  compactTo level current next counts id

def maybeCompact [FloatText] [Xxh3] [BloomSizing] : Op Unit := do
  let db ← keep EStateM.get
  db.levelsToCompact.forM compactLevel

def exec [FloatText] [Xxh3] [BloomSizing] (c : Command) : Op Unit := do
  keep (modify fun db => { db with journal := [] })
  log c
  keep (modify fun db => { db with data := Database.put db.data c })
  maybeFlush
  maybeCompact

def call [FloatText] [Xxh3] [BloomSizing] (s : Disrupted) (c : Command) (attempts : List Attempt) :
    Except Fault Unit × Disrupted :=
  match exec c { s with attempts := attempts } with
  | .ok _ s' => (.ok (), s')
  | .error e s' => (.error e, s')

/-! Without failures these are the operations of the database. -/

def Mirrors {α : Type} (x : Op α) (y : Database.Op α) : Prop :=
  ∀ db clash, ∃ clash', x ⟨db, [], clash⟩ = match y db with
    | .ok a db' => .ok a ⟨db', [], clash'⟩
    | .error e db' => .error e ⟨db', [], clash'⟩

section Mirrors
variable {α β : Type}

theorem Mirrors.keep (y : Database.Op α) : Mirrors (keep y) y := by
  intro db clash
  refine ⟨clash, ?_⟩
  rw [Disrupted.keep]

theorem Mirrors.bind {x : Op α} {y : Database.Op α} {f : α → Op β} {g : α → Database.Op β}
    (hx : Mirrors x y) (hf : ∀ a, Mirrors (f a) (g a)) : Mirrors (x >>= f) (y >>= g) := by
  intro db clash
  obtain ⟨clash₁, h1⟩ := hx db clash
  change ∃ clash', EStateM.bind x f _ = match EStateM.bind y g db with
    | .ok a db' => .ok a ⟨db', [], clash'⟩
    | .error e db' => .error e ⟨db', [], clash'⟩
  rw [EStateM.bind, EStateM.bind, h1]
  cases y db with
  | ok a db₁ => exact hf a db₁ clash₁
  | error e db₁ => exact ⟨clash₁, rfl⟩

theorem Mirrors.pure (a : α) : Mirrors (Pure.pure a) (Pure.pure a) := fun _ clash => ⟨clash, rfl⟩

theorem Mirrors.forM {f : α → Op PUnit} {g : α → Database.Op PUnit} (hf : ∀ a, Mirrors (f a) (g a))
    (l : List α) : Mirrors (l.forM f) (l.forM g) := by
  induction l with
  | nil => exact .pure _
  | cons a l ih => exact (hf a).bind fun _ => ih

theorem Mirrors.attempt (op : FileOp) : Mirrors (attempt op) (Database.emit op) :=
  fun db clash => Mirrors.keep (Database.emit op) db clash

theorem Mirrors.reading (x : Except Fault α) : Mirrors (reading x) (Database.lift x) :=
  fun db clash => Mirrors.keep (Database.lift x) db clash

theorem Mirrors.streaming (id : UInt32) (x : Except Fault α) : Mirrors (streaming id x) (Database.lift x) :=
  fun db clash => Mirrors.keep (Database.lift x) db clash

theorem Mirrors.allocateId : Mirrors allocateId Database.allocateId := fun _ _ => ⟨_, rfl⟩

theorem removeFile_mirrors (id : UInt32) : Mirrors (removeFile id) (Database.removeFile id) :=
  (Mirrors.keep _).bind fun _ => (Mirrors.keep _).bind fun _ => .attempt _

theorem writeContents_mirrors (id : UInt32) (c : Contents) :
    Mirrors (writeContents id c) (Database.writeContents id c) :=
  (Mirrors.forM (fun _ => .attempt _) _).bind fun _ => .attempt _

theorem flushMemoryToDisk_mirrors [FloatText] [Xxh3] [BloomSizing] :
    Mirrors flushMemoryToDisk Database.flushMemoryToDisk := by
  refine (Mirrors.keep _).bind fun db => ?_
  split_ifs
  · exact .pure _
  refine Mirrors.allocateId.bind fun id => (Mirrors.attempt _).bind fun _ => (Mirrors.attempt _).bind fun _ =>
    (Mirrors.attempt _).bind fun _ => (Mirrors.keep _).bind fun c => (writeContents_mirrors id c).bind fun _ =>
    (Mirrors.keep _).bind fun db => (Mirrors.reading _).bind fun bloomFilter => ?_
  cases db.leveledSstable with
  | nil => exact .pure _
  | cons level0 levels => exact (Mirrors.keep _).bind fun _ => (Mirrors.attempt _).bind fun _ => .keep _

theorem compactLevel_mirrors [FloatText] [Xxh3] [BloomSizing] (level : Nat) : Mirrors (compactLevel level)
    (Database.compactLevel level) := by
  refine (Mirrors.keep _).bind fun db => ?_
  split_ifs
  · exact .pure _
  dsimp only
  split_ifs
  · exact .pure _
  exact (Mirrors.reading _).bind fun counts => Mirrors.allocateId.bind fun id => (Mirrors.attempt _).bind fun _ =>
    (Mirrors.keep _).bind fun db => (Mirrors.streaming id _).bind fun c => (writeContents_mirrors id c).bind fun _ =>
    (Mirrors.keep _).bind fun db => (Mirrors.reading _).bind fun bloomFilter => (Mirrors.keep _).bind fun _ =>
    .forM (fun t : SSTable => removeFile_mirrors t.id) _

theorem exec_mirrors [FloatText] [Xxh3] [BloomSizing] (c : Command) : Mirrors (exec c) (Database.exec c) := by
  refine (Mirrors.keep _).bind fun _ => ?_
  change Mirrors _ (Database.log c >>= _)
  refine Mirrors.bind ?_ fun _ => (Mirrors.keep _).bind fun _ => Mirrors.bind ?_ fun _ => ?_
  · exact (Mirrors.keep _).bind fun _ => (Mirrors.attempt _).bind fun _ => .keep _
  · refine (Mirrors.keep _).bind fun db => ?_
    split_ifs
    · exact flushMemoryToDisk_mirrors
    · exact .pure _
  · exact (Mirrors.keep _).bind fun db => .forM compactLevel_mirrors _

end Mirrors

end Disrupted
end KvRaft
