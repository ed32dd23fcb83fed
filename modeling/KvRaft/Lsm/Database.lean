import KvRaft.Lsm.Compaction
import KvRaft.Lsm.Storage
import Mathlib.Data.List.AList
import Mathlib.Data.List.Sort

/-! The LSM database (`database/`, `lsm/wal/logger.rs`, `lsm/sstable/mod.rs`), as one thread uses it.
Every change of a file goes through `emit`, which also keeps a journal of the changes. -/

namespace KvRaft
open Table

/-- The directory: `database.log`, and the tables `sstable_{id}.sst` by their ids. -/
structure Disk where
  wal : Bytes
  tables : AList (fun _ : UInt32 => Bytes)

inductive FileOp where
  | appendWal (bytes : Bytes)
  | truncateWal
  /-- `File::create`, which empties a file that exists. -/
  | createTable (id : UInt32)
  | appendTable (id : UInt32) (bytes : Bytes)
  /-- The header written over the front of a file. -/
  | finishTable (id : UInt32) (header : Bytes)
  | removeTable (id : UInt32)
  deriving DecidableEq, Repr

namespace Disk

def empty : Disk := ⟨[], ∅⟩

def contents (d : Disk) (id : UInt32) : Bytes := (d.tables.lookup id).getD []

def apply (d : Disk) : FileOp → Disk
  | .appendWal bytes => { d with wal := d.wal ++ bytes }
  | .truncateWal => { d with wal := [] }
  | .createTable id => { d with tables := d.tables.insert id [] }
  | .appendTable id bytes => { d with tables := d.tables.insert id (d.contents id ++ bytes) }
  | .finishTable id header =>
    { d with tables := d.tables.insert id (header ++ (d.contents id).drop header.length) }
  | .removeTable id => { d with tables := d.tables.erase id }

def applyAll (d : Disk) (ops : List FileOp) : Disk := ops.foldl apply d

/-- `File::open` and reading. -/
def read (d : Disk) (id : UInt32) : Except Fault Bytes :=
  match d.tables.lookup id with
  | some file => .ok file
  | none => .error (.io .notFound "No such file or directory (os error 2)")

end Disk

structure SSTable where
  id : UInt32
  index : Index
  bloomFilter : BloomFilter

structure Database where
  data : AList (fun _ : String => Entry)
  /-- The id of the next write-ahead record. -/
  logLen : UInt64
  leveledSstable : List (List SSTable)
  dataThreshold : Nat
  sstableThreshold : Nat
  nextSstableId : UInt32
  disk : Disk
  /-- The changes of files since the running operation began. -/
  journal : List FileOp

namespace SSTable
variable [FloatText]

def openFile (d : Disk) (id : UInt32) : Except Fault SSTable := do
  let file ← d.read id
  let bloomFilter ← loadBloomFilter file
  let index ← loadIndex file
  return ⟨id, index, bloomFilter⟩

variable [Xxh3]

def readEntry (d : Disk) (t : SSTable) (key : String) : Except Fault (Option Entry) :=
  if ¬ t.bloomFilter.mayContain key then .ok none
  else do
    let file ← d.read t.id
    Table.readEntry file t.index key

end SSTable

namespace Logger
variable [FloatText]

/-- The records of a log up to the first corrupt one, and the bytes from that one on. -/
def scan : Nat → Bytes → List LogRecord × Option Bytes
  | 0, _ => ([], none)
  | fuel + 1, bs => match LogRecord.readFrom bs with
    | .ok none => ([], none)
    | .error _ => ([], some bs)
    | .ok (some (record, rest)) =>
      let (records, bad) := scan fuel rest
      (record :: records, bad)

/-- `Logger::new`: the log without its corrupt end, and the next record id. -/
def openFile (wal : Bytes) : Bytes × UInt64 :=
  let (records, bad) := scan wal.length wal
  let len := match records.getLast? with
    | some record => record.id + 1
    | none => 0
  match bad with
  | some bad => (wal.take (wal.length - bad.length), len)
  | none => (wal, len)

/-- `Logger::read_records`; after `Logger::new` there is nothing more to cut off. -/
def readRecords (wal : Bytes) : List LogRecord := (scan wal.length wal).1

end Logger

/-- What the memtable and the tables hold under the key of a command. -/
def Command.entry : Command → Entry
  | .set _ v => .set v
  | .delete _ => .delete

namespace Database

/-- An operation on a database; when it fails, what it has done so far stays. -/
abbrev Op := EStateM Fault Database

def lift {α : Type} : Except Fault α → Op α
  | .ok a => pure a
  | .error e => throw e

def emit (op : FileOp) : Op Unit :=
  modify fun db => { db with disk := db.disk.apply op, journal := db.journal ++ [op] }

/-- `next_sstable_id.fetch_add(1)`, which wraps around. -/
def allocateId : Op UInt32 := do
  let db ← EStateM.get
  modify fun db => { db with nextSstableId := db.nextSstableId + 1 }
  return db.nextSstableId

/-- `fs::remove_file`. -/
def removeFile (id : UInt32) : Op Unit := do
  let db ← EStateM.get
  let _ ← lift (db.disk.read id)
  emit (.removeTable id)

/-- Writes a table file that has just been created, its header last. -/
def writeContents (id : UInt32) (c : Contents) : Op Unit := do
  c.file.forM fun bytes => emit (.appendTable id bytes)
  emit (.finishTable id (writeHeader c.header))

def fresh (config : Config) : Database where
  data := ∅
  logLen := 0
  leveledSstable := List.replicate config.sstableLevel []
  dataThreshold := config.dataThreshold
  sstableThreshold := config.sstableThreshold
  nextSstableId := 0
  disk := .empty
  journal := []

variable [FloatText]

/-- `Logger::log`. -/
def log (c : Command) : Op Unit := do
  let db ← EStateM.get
  emit (.appendWal (LogRecord.new db.logLen c).writeTo)
  modify fun db => { db with logLen := db.logLen + 1 }

variable [Xxh3]

/-- The tables in the order in which `get` looks at them. -/
def newestFirst (db : Database) : List SSTable := (db.leveledSstable.map List.reverse).flatten

/-- The two nested loops of `get`. -/
def findEntry (d : Disk) (key : String) : List SSTable → Except Fault (Option Entry)
  | [] => .ok none
  | t :: ts => do
    match ← t.readEntry d key with
    | some entry => return some entry
    | none => findEntry d key ts

/-- What a caller sees of an entry. -/
def visible : Option Entry → Option Value
  | some (.set v) => some v
  | _ => none

def get (db : Database) (key : String) : Except Fault (Option Value) :=
  match db.data.lookup key with
  | some entry => .ok (visible (some entry))
  | none => (findEntry db.disk key db.newestFirst).map visible

def put (data : AList (fun _ : String => Entry)) (c : Command) : AList (fun _ : String => Entry) :=
  data.insert c.key c.entry

def sortedEntries (data : AList (fun _ : String => Entry)) : List (String × Entry) :=
  (data.entries.map fun p => (p.1, p.2)).insertionSort fun a b => a.1 ≤ b.1

variable [BloomSizing]

def flushMemoryToDisk : Op Unit := do
  let db ← EStateM.get
  if db.data.entries.isEmpty then return ()
  let id ← allocateId
  -- `SSTable::new` leaves a file with an empty header
  emit (.createTable id)
  emit (.appendTable id (writeHeader emptyHeader))
  -- `write_entries` empties it and writes it whole
  emit (.createTable id)
  let c ← lift (write (sortedEntries db.data))
  writeContents id c
  let db ← EStateM.get
  let bloomFilter ← lift (loadBloomFilter (db.disk.contents id))
  match db.leveledSstable with
  | [] => return ()
  | level0 :: levels =>
    modify fun db => { db with leveledSstable := (level0 ++ [⟨id, c.index, bloomFilter⟩]) :: levels }
    emit .truncateWal
    modify fun db => { db with logLen := 0, data := ∅ }

def maybeFlush : Op Unit := do
  let db ← EStateM.get
  if db.dataThreshold ≤ db.data.entries.length then flushMemoryToDisk else return ()

/-- The check of one input of a compaction, and its number of entries. -/
def openReader (d : Disk) (t : SSTable) : Except Fault Nat := do
  let file ← d.read t.id
  SequentialReader.openFile file

/-- The records are read once the output has been created. -/
def readersOf (d : Disk) (tables : List SSTable) (counts : List Nat) : List SequentialReader :=
  tables.zipWith (fun t count => ⟨(d.contents t.id).drop headerSize, 0, count⟩) counts

def compactLevel (level : Nat) : Op Unit := do
  let db ← EStateM.get
  if db.leveledSstable.length ≤ level + 1 then return ()
  let current := db.leveledSstable.getD level []
  let next := db.leveledSstable.getD (level + 1) []
  if current.isEmpty then return ()
  let counts ← lift ((current ++ next).mapM (openReader db.disk))
  let id ← allocateId
  emit (.createTable id)
  let db ← EStateM.get
  let c ← lift (Merge.run current.length (readersOf db.disk (current ++ next) counts))
  writeContents id c
  let db ← EStateM.get
  let bloomFilter ← lift (loadBloomFilter (db.disk.contents id))
  modify fun db => { db with
    leveledSstable := (db.leveledSstable.modify level (·.drop current.length)).modify (level + 1)
      fun tables => tables.drop next.length ++ [⟨id, c.index, bloomFilter⟩] }
  (current ++ next).forM fun t => removeFile t.id

/-- The levels to compact, chosen before the first of them is. -/
def levelsToCompact (db : Database) : List Nat :=
  (List.range (db.leveledSstable.length - 1)).filter fun level =>
    db.sstableThreshold ≤ (db.leveledSstable.getD level []).length

def maybeCompact : Op Unit := do
  let db ← EStateM.get
  db.levelsToCompact.forM compactLevel

/-- The common course of `insert` and `delete`. -/
def perform (c : Command) : Op Unit := do
  log c
  modify fun db => { db with data := put db.data c }
  maybeFlush
  maybeCompact

/-- One call of `insert` or `delete`, with a journal of its own. -/
def exec (c : Command) : Op Unit := do
  modify fun db => { db with journal := [] }
  perform c

def insert (key : String) (value : Value) : Op Unit := exec (.set key value)

def delete (key : String) : Op Unit := exec (.delete key)

def execAll (cs : List Command) : Op Unit := cs.forM exec

/-- `load_sstables` for one file: every table goes to level 0. -/
def loadTable (db : Database) (id : UInt32) : Except Fault Database :=
  match db.leveledSstable with
  | [] => .ok db
  | level0 :: levels => do
    let t ← SSTable.openFile db.disk id
    return { db with
      leveledSstable := (level0 ++ [t]) :: levels
      nextSstableId := max db.nextSstableId (id + 1) }

def loadSstables (db : Database) : Except Fault Database :=
  (db.disk.tables.keys.insertionSort (· ≤ ·)).foldlM loadTable db

def recover (db : Database) : Database :=
  let records := Logger.readRecords db.disk.wal
  { db with data := (records.map LogRecord.command).foldl put db.data }

def openInDir (disk : Disk) (config : Config) : Except Fault Database := do
  let (wal, len) := Logger.openFile disk.wal
  let db := { fresh config with logLen := len, disk := { disk with wal := wal } }
  let db ← db.loadSstables
  return db.recover

end Database
end KvRaft
