import KvRaft.Lib.BinarySearch
import KvRaft.Lsm.Bloom
import Mathlib.Data.String.Basic

/-! The SSTable file: header, records, Bloom filter and index, with the writers and readers of it
(`lsm/sstable/format.rs`, `index.rs`, `writer.rs`, `reader.rs`). -/

namespace KvRaft
open Bytes LogRecord

inductive Entry where
  | set (value : Value)
  | delete
  deriving DecidableEq, Repr

namespace Table

structure Header where
  indexOffset : Nat
  indexLen : Nat
  entryCount : Nat
  bloomOffset : Nat
  bloomLen : Nat
  deriving DecidableEq, Repr

/-- `b"SST1"`. -/
def magic : Bytes := [83, 83, 84, 49]

def version : UInt8 := 2

def headerSize : Nat := 45

def emptyHeader : Header := ⟨0, 0, 0, 0, 0⟩

def writeHeader (h : Header) : Bytes :=
  magic ++ [version] ++ leBytes 8 h.indexOffset ++ leBytes 8 h.indexLen ++ leBytes 8 h.entryCount ++
    leBytes 8 h.bloomOffset ++ leBytes 8 h.bloomLen

def readU64 (bs : Bytes) : Except Fault (Nat × Bytes) := do
  let (w, bs) ← readBytes 8 bs
  return (leNat w, bs)

def readHeader (bs : Bytes) : Except Fault Header := do
  let (m, bs) ← readBytes 4 bs
  if m ≠ magic then throw (.invalidData "invalid SSTable magic")
  let (v, bs) ← readU8 bs
  if v ≠ version then
    throw (.invalidData s!"unsupported SSTable version: expected {version}, found {v}")
  let (indexOffset, bs) ← readU64 bs
  let (indexLen, bs) ← readU64 bs
  let (entryCount, bs) ← readU64 bs
  let (bloomOffset, bs) ← readU64 bs
  let (bloomLen, _) ← readU64 bs
  return ⟨indexOffset, indexLen, entryCount, bloomOffset, bloomLen⟩

section Records
variable [FloatText]

def entryType : Entry → UInt8
  | .set _ => 0
  | .delete => 1

def valueType : Entry → UInt8
  | .set value => value.dataType.asU8
  | .delete => 0

def valueBytes : Entry → Bytes
  | .set value => value.asBytes
  | .delete => []

/-- The layout of a record: ten bytes in front, then the key and the value. -/
def recordBytes (p : String × Entry) : Bytes :=
  [entryType p.2, valueType p.2] ++ (leBytes 4 (utf8 p.1).length ++ leBytes 4 (valueBytes p.2).length) ++
    (utf8 p.1 ++ valueBytes p.2)

def writeRecord (key : String) (entry : Entry) : Except Fault Bytes :=
  if 2 ^ 32 ≤ (utf8 key).length then .error (.io .invalidInput "key is too large")
  else if 2 ^ 32 ≤ (valueBytes entry).length then .error (.io .invalidInput "value is too large")
  else .ok (recordBytes (key, entry))

/-- A short read of the ten bytes in front is the end of the file. -/
def readRecord (bs : Bytes) : Except Fault (Option ((String × Entry) × Bytes)) :=
  match readExact 10 bs with
  | none => .ok none
  | some (header, bs) => do
    let type := header.getD 0 0
    let keyLen := leNat ((header.drop 2).take 4)
    let valueLen := leNat ((header.drop 6).take 4)
    let (keyBytes, bs) ← readBytes keyLen bs
    match fromUtf8 keyBytes with
    | none => throw (.invalidData "invalid UTF-8 key in SSTable")
    | some key =>
      if type = 0 then
        let (valueBytes, bs) ← readBytes valueLen bs
        let dataType ← DataType.fromU8 (header.getD 1 0)
        let value ← Value.fromBytes dataType valueBytes
        return some ((key, .set value), bs)
      else if type = 1 then
        if valueLen ≠ 0 then throw (.invalidData "delete record contains a value")
        return some ((key, .delete), bs)
      else throw (.invalidData "invalid SSTable entry type")

end Records

/-- The keys of a table with the file offsets of their records. -/
abbrev Index := List (String × Nat)

/-- `binary_search_by` on the keys. -/
def Index.find (index : Index) (key : String) : Option Nat :=
  let position := BinarySearch.narrow (fun i => compare (index.getD i default).1 key) index.length 0
    index.length
  match index[position]? with
  | some (k, offset) => if k = key then some offset else none
  | none => none

def writeIndex : Index → Except Fault Bytes
  | [] => .ok []
  | (key, offset) :: index =>
    if 2 ^ 32 ≤ (utf8 key).length then .error (.io .invalidInput "key is too large")
    else do
      let bytes ← writeIndex index
      return leBytes 4 (utf8 key).length ++ utf8 key ++ leBytes 8 offset ++ bytes

/-- The loop of `read_index`, with the bytes it leaves. -/
def readIndexEntries : Nat → Bytes → Except Fault (Index × Bytes)
  | 0, bs => .ok ([], bs)
  | count + 1, bs => do
    let (keyLen, bs) ← readU32 bs
    let (keyBytes, bs) ← readBytes keyLen bs
    match fromUtf8 keyBytes with
    | none => throw (.invalidData "invalid UTF-8 key in SSTable index")
    | some key =>
      let (offset, bs) ← readU64 bs
      let (index, bs) ← readIndexEntries count bs
      return ((key, offset) :: index, bs)

def Index.sorted (index : Index) : Bool := (index.zip index.tail).all fun p => p.1.1 < p.2.1

/-- `read_index` on a file whose position is `start`. -/
def readIndex (file : Bytes) (start indexLen entryCount : Nat) : Except Fault Index :=
  if 2 ^ 64 ≤ start + indexLen then .error (.invalidData "invalid index length")
  else do
    let (index, rest) ← readIndexEntries entryCount (file.drop start)
    if start + ((file.drop start).length - rest.length) ≠ start + indexLen then
      throw (.invalidData "SSTable index length mismatch")
    if ¬ Index.sorted index then throw (.invalidData "SSTable index is not sorted")
    return index

/-! Writing. -/

/-- What a writer holds: the writes it has made to its file, in order, and the index, the filter and
the offset it keeps up. -/
structure StreamingWriter where
  file : List Bytes
  index : Index
  bloomFilter : BloomFilter
  offset : Nat

/-- `offset.checked_add(len)`. -/
def checkedAdd (offset len : Nat) : Except Fault Nat :=
  if offset + len < 2 ^ 64 then .ok (offset + len)
  else .error (.invalidData "SSTable offset overflow")

section Write
variable [FloatText] [Xxh3] [BloomSizing]

def StreamingWriter.start (expectedItems : Nat) : StreamingWriter :=
  ⟨[writeHeader emptyHeader], [], BloomFilter.new expectedItems, headerSize⟩

/-- One record goes to the file, the index and the filter. -/
def StreamingWriter.record (w : StreamingWriter) (key : String) (entry : Entry) :
    Except Fault StreamingWriter := do
  let bytes ← writeRecord key entry
  let offset ← checkedAdd w.offset bytes.length
  return ⟨w.file ++ [bytes], w.index ++ [(key, w.offset)], w.bloomFilter.insert key, offset⟩

/-- `StreamingWriter::write_entry`. -/
def StreamingWriter.writeEntry (w : StreamingWriter) (key : String) (entry : Entry) :
    Except Fault StreamingWriter :=
  match w.index.getLast? with
  | some last =>
    if key ≤ last.1 then .error (.io .invalidInput "SSTable entries must be sorted")
    else w.record key entry
  | none => w.record key entry

/-- A file that is complete but for its header: the writes that make it up, the header to put at its
front, and its index. -/
structure Contents where
  file : List Bytes
  header : Header
  index : Index

def StreamingWriter.finish (w : StreamingWriter) : Except Fault Contents := do
  let bloomBytes := w.bloomFilter.toBytes
  let indexOffset ← checkedAdd w.offset bloomBytes.length
  let indexBytes ← writeIndex w.index
  let _ ← checkedAdd indexOffset indexBytes.length
  return ⟨w.file ++ [bloomBytes, indexBytes],
    ⟨indexOffset, indexBytes.length, w.index.length, w.offset, bloomBytes.length⟩, w.index⟩

/-- The writer of a flush, which does not check the order of the entries. -/
def write (entries : List (String × Entry)) : Except Fault Contents := do
  let w ← entries.foldlM (fun w p => w.record p.1 p.2) (StreamingWriter.start entries.length)
  w.finish

end Write

/-! Reading. -/

def validateHeader (fileLen : Nat) (h : Header) : Except Fault Unit :=
  if 2 ^ 64 ≤ h.indexOffset + h.indexLen then .error (.invalidData "SSTable index range overflows")
  else if h.indexOffset < headerSize then .error (.invalidData "invalid SSTable index offset")
  else if fileLen < h.indexOffset + h.indexLen then
    .error (.invalidData "SSTable index exceeds file size")
  else .ok ()

def loadIndex (file : Bytes) : Except Fault Index := do
  let h ← readHeader file
  validateHeader file.length h
  readIndex file h.indexOffset h.indexLen h.entryCount

def loadBloomFilter (file : Bytes) : Except Fault BloomFilter := do
  let h ← readHeader file
  if h.bloomLen = 0 then
    .error (.invalidData "SSTable does not contain a persisted Bloom filter")
  else if 2 ^ 64 ≤ h.bloomOffset + h.bloomLen then .error (.invalidData "Bloom filter offset overflow")
  else if h.bloomOffset < headerSize ∨ file.length < h.bloomOffset + h.bloomLen then
    .error (.invalidData "Bloom filter points outside the SSTable")
  else
    let (bytes, _) ← readBytes h.bloomLen (file.drop h.bloomOffset)
    BloomFilter.fromBytes bytes

variable [FloatText]

/-- `reader::read_entry`: the record at the offset of the key is taken for that of the key. -/
def readEntry (file : Bytes) (index : Index) (key : String) : Except Fault (Option Entry) :=
  match index.find key with
  | none => .ok none
  | some offset => do
    match ← readRecord (file.drop offset) with
    | some ((_, entry), _) => return some entry
    | none => return none

/-- A reader of the records in a file: what is ahead of it, and how many records it has read and is
to read. -/
structure SequentialReader where
  file : Bytes
  entriesRead : Nat
  entryCount : Nat

/-- The checks of `SequentialReader::open`, with the number of entries. -/
def SequentialReader.openFile (file : Bytes) : Except Fault Nat := do
  let h ← readHeader file
  validateHeader file.length h
  return h.entryCount

def SequentialReader.next (r : SequentialReader) :
    Except Fault (Option (String × Entry) × SequentialReader) :=
  if r.entryCount ≤ r.entriesRead then .ok (none, r)
  else do
    match ← readRecord r.file with
    | none => throw (.io .unexpectedEof "SSTable data ended before entry_count")
    | some (entry, file) => return (some entry, { r with file := file, entriesRead := r.entriesRead + 1 })

end Table
end KvRaft
