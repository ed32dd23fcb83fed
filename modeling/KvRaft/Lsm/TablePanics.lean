import KvRaft.Lsm.BloomSpec
import KvRaft.Lsm.Faults
import KvRaft.Lsm.TableFormat
import KvRaft.Lsm.TornWal

/-! The readers of an SSTable on arbitrary bytes, with every place at which they could panic: indices
and slices, the allocations, the arithmetic that is not checked. -/

namespace KvRaft.Table
open Bytes LogRecord Outcome

/-- `isize::MAX`, the largest allocation and the largest file offset. -/
def isizeMax : Nat := 2 ^ 63 - 1

/-- The bytes of a file. Its length is an `off_t`. -/
structure DiskFile where
  bytes : Bytes
  length_le : bytes.length ≤ isizeMax

namespace Checked

def withCapacity (count size : Nat) : Except Fault Unit :=
  if isizeMax < count * size then .error (.panic "capacity overflow") else .ok ()

/-- `vec![0u8; n]` filled by `read_exact`. -/
def readVec (n : Nat) (bs : Bytes) : Except Fault (Bytes × Bytes) := do
  withCapacity n 1
  readBytes n bs

def byteAt (bs : Bytes) (i : Nat) : Except Fault UInt8 :=
  match bs[i]? with
  | some b => .ok b
  | none => .error (.panic "index out of bounds")

/-- `bs[i..j]`. -/
def slice (bs : Bytes) (i j : Nat) : Except Fault Bytes :=
  if i ≤ j ∧ j ≤ bs.length then .ok ((bs.drop i).take (j - i))
  else .error (.panic "range out of bounds")

/-- `seek(SeekFrom::Start(offset))`, which may go past the end of the file. -/
def seek (file : Bytes) (offset : Nat) : Except Fault Bytes :=
  if isizeMax < offset then .error (.io .invalidInput "Invalid argument") else .ok (file.drop offset)

/-- `BloomFilter::from_bytes`. On a 64-bit target the conversions to `usize` cannot fail. -/
def fromBytes (bytes : Bytes) : Except Fault BloomFilter.Raw := do
  if bytes.length < BloomFilter.headerSize then
    throw (.invalidData "truncated Bloom filter header")
  let algorithm ← byteAt bytes 0
  if algorithm ≠ BloomFilter.algorithm then
    throw (.invalidData "unsupported Bloom filter hash algorithm")
  let numBits ← slice bytes 1 9
  let numHashes ← slice bytes 9 17
  let bitsLen ← slice bytes 17 25
  if leNat numBits = 0 ∨ leNat numHashes = 0 then
    throw (.invalidData "Bloom filter dimensions must be nonzero")
  if 100 < leNat numHashes then throw (.invalidData "Bloom filter hash count exceeds limit")
  if leNat bitsLen ≠ (leNat numBits + 7) / 8 then
    throw (.invalidData "Bloom filter bit and byte counts disagree")
  if 2 ^ 64 ≤ BloomFilter.headerSize + leNat bitsLen then
    throw (.invalidData "Bloom filter length overflow")
  if bytes.length ≠ BloomFilter.headerSize + leNat bitsLen then
    throw (.invalidData "Bloom filter payload length mismatch")
  let bits ← slice bytes BloomFilter.headerSize bytes.length
  return ⟨bits, leNat numBits, leNat numHashes⟩

def loadBloomFilter (file : DiskFile) : Except Fault BloomFilter.Raw := do
  let h ← readHeader file.bytes
  if h.bloomLen = 0 then throw (.invalidData "SSTable does not contain a persisted Bloom filter")
  if 2 ^ 64 ≤ h.bloomOffset + h.bloomLen then throw (.invalidData "Bloom filter offset overflow")
  if h.bloomOffset < headerSize ∨ file.bytes.length < h.bloomOffset + h.bloomLen then
    throw (.invalidData "Bloom filter points outside the SSTable")
  let rest ← seek file.bytes h.bloomOffset
  let (bytes, _) ← readVec h.bloomLen rest
  fromBytes bytes

/-- The size of an `IndexEntry`: a `String` and a `u64`. -/
def indexEntrySize : Nat := 32

def readIndexEntries : Nat → Bytes → Except Fault (Index × Bytes)
  | 0, bs => .ok ([], bs)
  | count + 1, bs => do
    let (keyLen, bs) ← readU32 bs
    let (keyBytes, bs) ← readVec keyLen bs
    match fromUtf8 keyBytes with
    | none => throw (.invalidData "invalid UTF-8 key in SSTable index")
    | some key =>
      let (offset, bs) ← readU64 bs
      let (index, bs) ← readIndexEntries count bs
      return ((key, offset) :: index, bs)

/-- `read_index` on a file whose position is `start`. The number of entries comes from the header as it
is, and the room for them is asked for before any of them is read. -/
def readIndex (file : Bytes) (start indexLen entryCount : Nat) : Except Fault Index := do
  if 2 ^ 64 ≤ start + indexLen then throw (.invalidData "invalid index length")
  withCapacity entryCount indexEntrySize
  let (index, rest) ← readIndexEntries entryCount (file.drop start)
  if start + ((file.drop start).length - rest.length) ≠ start + indexLen then
    throw (.invalidData "SSTable index length mismatch")
  if ¬ Index.sorted index then throw (.invalidData "SSTable index is not sorted")
  return index

def loadIndex (file : DiskFile) : Except Fault Index := do
  let h ← readHeader file.bytes
  validateHeader file.bytes.length h
  let _ ← seek file.bytes h.indexOffset
  readIndex file.bytes h.indexOffset h.indexLen h.entryCount

/-- `binary_search_by` on the keys: the position of the key, if it is there. -/
def position (index : Index) (key : String) : Option Nat :=
  let position := BinarySearch.narrow (fun i => compare (index.getD i default).1 key) index.length 0
    index.length
  match index[position]? with
  | some (k, _) => if k = key then some position else none
  | none => none

def find (index : Index) (key : String) : Except Fault (Option Nat) :=
  match position index key with
  | none => .ok none
  | some i => match index[i]? with
    | some (_, offset) => .ok (some offset)
    | none => .error (.panic "index out of bounds")

section Records
variable [FloatText]

def readRecord (bs : Bytes) : Except Fault (Option ((String × Entry) × Bytes)) :=
  match readExact 10 bs with
  | none => .ok none
  | some (header, bs) => do
    let type ← byteAt header 0
    let valueType ← byteAt header 1
    let keyLen ← slice header 2 6
    let valueLen ← slice header 6 10
    let (keyBytes, bs) ← readVec (leNat keyLen) bs
    match fromUtf8 keyBytes with
    | none => throw (.invalidData "invalid UTF-8 key in SSTable")
    | some key =>
      if type = 0 then
        let (valueBytes, bs) ← readVec (leNat valueLen) bs
        let dataType ← DataType.fromU8 valueType
        let value ← Value.fromBytes dataType valueBytes
        return some ((key, .set value), bs)
      else if type = 1 then
        if leNat valueLen ≠ 0 then throw (.invalidData "delete record contains a value")
        return some ((key, .delete), bs)
      else throw (.invalidData "invalid SSTable entry type")

/-- `SequentialReader::next`, with the overflow of its counter. -/
def next (r : SequentialReader) : Except Fault (Option (String × Entry) × SequentialReader) :=
  if r.entryCount ≤ r.entriesRead then .ok (none, r)
  else do
    match ← readRecord r.file with
    | none => throw (.io .unexpectedEof "SSTable data ended before entry_count")
    | some (entry, file) =>
      if 2 ^ 64 ≤ r.entriesRead + 1 then throw (.panic "attempt to add with overflow")
      return (some entry, { r with file := file, entriesRead := r.entriesRead + 1 })

def collect : Nat → SequentialReader → Except Fault (List (String × Entry))
  | 0, _ => .ok []
  | fuel + 1, r => do
    match ← next r with
    | (none, _) => return []
    | (some entry, r) =>
      let entries ← collect fuel r
      return entry :: entries

def loadEntriesSequential (file : DiskFile) : Except Fault (List (String × Entry)) := do
  let count ← SequentialReader.openFile file.bytes
  let rest ← seek file.bytes headerSize
  collect count ⟨rest, 0, count⟩

structure OpenTable where
  bloomFilter : BloomFilter.Raw
  index : Index

/-- `SSTable::open`. -/
def openFile (file : DiskFile) : Except Fault OpenTable := do
  let bloomFilter ← loadBloomFilter file
  let index ← loadIndex file
  return ⟨bloomFilter, index⟩

/-- `SSTable::read_entry`. -/
def readEntry [Xxh3] (t : OpenTable) (file : DiskFile) (key : String) : Except Fault (Option Entry) := do
  if ¬ (← t.bloomFilter.mayContain key) then return none
  match ← find t.index key with
  | none => return none
  | some offset =>
    let rest ← seek file.bytes offset
    match ← readRecord rest with
    | some ((_, entry), _) => return some entry
    | none => return none

end Records

section Agreement

theorem withCapacity_of_le {count size : Nat} (h : count * size ≤ isizeMax) : withCapacity count size = .ok () :=
  if_neg (Nat.not_lt.mpr h)

theorem readVec_eq {n : Nat} (h : n ≤ isizeMax) (bs : Bytes) : readVec n bs = readBytes n bs := by
  rw [readVec, withCapacity_of_le (by rwa [Nat.mul_one])]
  rfl

theorem byteAt_eq {bs : Bytes} {i : Nat} (h : i < bs.length) : byteAt bs i = .ok (bs.getD i 0) := by
  simp [byteAt, h]

theorem slice_eq {bs : Bytes} {i j : Nat} (hij : i ≤ j) (h : j ≤ bs.length) :
    slice bs i j = .ok ((bs.drop i).take (j - i)) := if_pos ⟨hij, h⟩

theorem seek_eq {file : Bytes} {offset : Nat} (h : offset ≤ isizeMax) : seek file offset = .ok (file.drop offset) :=
  if_neg (Nat.not_lt.mpr h)

theorem header_add_lt (bs : Bytes) : BloomFilter.headerSize + (leNat ((bs.drop 1).take 8) + 7) / 8 < 2 ^ 64 := by
  have hlt := leNat_lt ((bs.drop 1).take 8)
  have hle : 256 ^ ((bs.drop 1).take 8).length ≤ 256 ^ 8 :=
    Nat.pow_le_pow_right (by decide) (List.length_take_le 8 _)
  simp only [BloomFilter.headerSize]
  omega

theorem fromBytes_eq (bytes : Bytes) : fromBytes bytes = (BloomFilter.fromBytes bytes).map BloomFilter.raw := by
  unfold fromBytes BloomFilter.fromBytes
  by_cases hshort : bytes.length < BloomFilter.headerSize
  · simp [hshort]
    rfl
  have hlen : 25 ≤ bytes.length := Nat.not_lt.mp hshort
  have hhead : bytes.head? = some (bytes.getD 0 0) := by
    cases bytes with
    | nil => simp at hlen
    | cons b bs => rfl
  rw [byteAt_eq (by omega), slice_eq (by decide) (by omega), slice_eq (by decide) (by omega),
    slice_eq (by decide) (by omega), slice_eq (by exact hlen) le_rfl, hhead, if_neg hshort, if_neg hshort]
  have hbits : (bytes.drop BloomFilter.headerSize).take (bytes.length - BloomFilter.headerSize) =
      bytes.drop BloomFilter.headerSize := by
    rw [← List.length_drop]
    exact List.take_length
  -- the check of the sum is never the one that fails
  have hroom : leNat ((bytes.drop 17).take 8) = (leNat ((bytes.drop 1).take 8) + 7) / 8 →
      ¬ 2 ^ 64 ≤ BloomFilter.headerSize + leNat ((bytes.drop 17).take 8) := by
    intro hcount
    rw [hcount]
    exact Nat.not_le.mpr (header_add_lt bytes)
  simp only [bind, Except.bind, pure, Except.pure, throw, throwThe, MonadExceptOf.throw, ne_eq,
    Option.some.injEq, Nat.reduceSub, hbits]
  by_cases hcount : leNat ((bytes.drop 17).take 8) = (leNat ((bytes.drop 1).take 8) + 7) / 8
  · simp only [hroom hcount, if_false]
    split_ifs <;> rfl
  · split_ifs <;> rfl

theorem loadBloomFilter_eq (file : DiskFile) :
    loadBloomFilter file = (Table.loadBloomFilter file.bytes).map BloomFilter.raw := by
  unfold loadBloomFilter Table.loadBloomFilter
  cases readHeader file.bytes with
  | error e => rfl
  | ok h =>
    simp only [bind, Except.bind, throw, throwThe, MonadExceptOf.throw]
    split_ifs with hzero hover hout
    · rfl
    · rfl
    · rfl
    · -- the section lies within the file, so neither the seek nor the allocation is too large
      have hle := file.length_le
      obtain ⟨-, hend⟩ := not_or.mp hout
      rw [seek_eq (by omega)]
      dsimp only
      rw [readVec_eq (by omega)]
      cases readBytes h.bloomLen (file.bytes.drop h.bloomOffset) with
      | error e => rfl
      | ok r => exact fromBytes_eq r.1

theorem readU32_lt {bs rest : Bytes} {n : Nat} (h : readU32 bs = .ok (n, rest)) : n < 2 ^ 32 := by
  unfold readU32 readBytes at h
  cases hread : readExact 4 bs with
  | none =>
    rw [hread] at h
    cases h
  | some r =>
    rw [hread] at h
    cases h
    have hlt := leNat_lt r.1
    rwa [(readExact_eq_some hread).2] at hlt

theorem readIndexEntries_eq (count : Nat) (bs : Bytes) :
    readIndexEntries count bs = Table.readIndexEntries count bs := by
  induction count generalizing bs with
  | zero => rfl
  | succ count ih =>
    have hrest : readIndexEntries count = Table.readIndexEntries count := funext ih
    rw [readIndexEntries, Table.readIndexEntries, hrest]
    cases hlen : readU32 bs with
    | error e => rfl
    | ok r =>
      obtain ⟨keyLen, rest⟩ := r
      have hlt := readU32_lt hlen
      have hle : keyLen ≤ isizeMax := by
        simp only [isizeMax]
        omega
      change (readVec keyLen rest >>= _) = (readBytes keyLen rest >>= _)
      exact congrArg₂ bind (readVec_eq hle rest) rfl

theorem readIndex_eq {count : Nat} (h : count < 2 ^ 58) (file : Bytes) (start len : Nat) :
    readIndex file start len count = Table.readIndex file start len count := by
  unfold readIndex Table.readIndex
  rw [withCapacity_of_le (by simp only [isizeMax, indexEntrySize]; omega), readIndexEntries_eq]
  split_ifs <;> rfl

theorem readIndex_panics {count : Nat} (h : 2 ^ 58 ≤ count) (file : Bytes) {start len : Nat}
    (hend : start + len < 2 ^ 64) :
    readIndex file start len count = .error (.panic "capacity overflow") := by
  have hcap : isizeMax < count * indexEntrySize := by
    simp only [isizeMax, indexEntrySize]
    omega
  rw [readIndex, if_neg (Nat.not_le.mpr hend), withCapacity, if_pos hcap]
  rfl

theorem find_eq (index : Index) (key : String) : find index key = .ok (index.find key) := by
  unfold find position Index.find
  dsimp only
  generalize BinarySearch.narrow _ _ _ _ = i
  cases hi : index[i]? with
  | none => rfl
  | some p =>
    dsimp only
    split_ifs
    · simp [hi]
    · rfl

theorem leNat_four_le (bs : Bytes) (i : Nat) : leNat ((bs.drop i).take 4) ≤ isizeMax := by
  have hlt := leNat_lt ((bs.drop i).take 4)
  have hle : 256 ^ ((bs.drop i).take 4).length ≤ 256 ^ 4 :=
    Nat.pow_le_pow_right (by decide) (List.length_take_le 4 _)
  simp only [isizeMax]
  omega

variable [FloatText]

/-- The ten bytes in front are there when they are looked at, and the lengths in them are `u32`s. -/
theorem readRecord_eq (bs : Bytes) : readRecord bs = Table.readRecord bs := by
  unfold readRecord Table.readRecord
  cases hread : readExact 10 bs with
  | none => rfl
  | some r =>
    obtain ⟨header, rest⟩ := r
    have hlen : header.length = 10 := (readExact_eq_some hread).2
    dsimp only
    rw [byteAt_eq (show 0 < header.length by omega), byteAt_eq (show 1 < header.length by omega),
      slice_eq (show 2 ≤ 6 by decide) (show 6 ≤ header.length by omega),
      slice_eq (show 6 ≤ 10 by decide) (show 10 ≤ header.length by omega)]
    refine congrArg₂ bind (readVec_eq (leNat_four_le ..) _) (funext fun key => ?_)
    obtain ⟨keyBytes, rest⟩ := key
    dsimp only
    cases fromUtf8 keyBytes with
    | none => rfl
    | some key =>
      dsimp only
      split_ifs
      · exact congrArg₂ bind (readVec_eq (leNat_four_le ..) _) rfl
      · rfl
      · rfl
      · rfl

theorem next_eq {r : SequentialReader} (h : r.entryCount < 2 ^ 64) : next r = r.next := by
  unfold next SequentialReader.next
  by_cases hdone : r.entryCount ≤ r.entriesRead
  · rw [if_pos hdone, if_pos hdone]
  · have hroom : ¬ 2 ^ 64 ≤ r.entriesRead + 1 := by omega
    rw [if_neg hdone, if_neg hdone, readRecord_eq]
    refine congrArg (Table.readRecord r.file >>= ·) (funext fun record => ?_)
    cases record with
    | none => rfl
    | some p => exact if_neg hroom

theorem next_entryCount {r r' : SequentialReader} {p : Option (String × Entry)} (h : r.next = .ok (p, r')) :
    r'.entryCount = r.entryCount := by
  unfold SequentialReader.next at h
  split_ifs at h
  · cases h
    rfl
  · cases hread : Table.readRecord r.file with
    | error e =>
      rw [hread] at h
      cases h
    | ok found =>
      rw [hread] at h
      cases found <;> cases h
      rfl

theorem collect_eq (fuel : Nat) {r : SequentialReader} (h : r.entryCount < 2 ^ 64) :
    collect fuel r = r.collect fuel := by
  induction fuel generalizing r with
  | zero => rfl
  | succ fuel ih =>
    rw [collect, SequentialReader.collect, next_eq h]
    cases hnext : r.next with
    | error e => rfl
    | ok x =>
      obtain ⟨p, r'⟩ := x
      cases p with
      | none => rfl
      | some p =>
        simp only [bind, Except.bind, ih (show r'.entryCount < 2 ^ 64 by rwa [next_entryCount hnext])]

end Agreement

section Headers

theorem readU64_eq_ok {bs rest : Bytes} {n : Nat} (h : readU64 bs = .ok (n, rest)) :
    n < 2 ^ 64 ∧ bs = leBytes 8 n ++ rest := by
  obtain ⟨⟨w, rest'⟩, hw, h⟩ := bind_eq_ok h
  cases h
  obtain ⟨rfl, hlen⟩ := readBytes_eq_ok hw
  have hlt := leNat_lt w
  have hback := leBytes_leNat w
  rw [hlen] at hlt hback
  exact ⟨hlt, by rw [hback]⟩

theorem readHeader_eq_ok {bs : Bytes} {h : Header} (hread : readHeader bs = .ok h) :
    h.Fits ∧ writeHeader h <+: bs := by
  obtain ⟨⟨m, bs₁⟩, hm, hread⟩ := bind_eq_ok hread
  dsimp only at hread
  split_ifs at hread with hmagic
  · cases hread
  obtain ⟨⟨v, bs₂⟩, hv, hread⟩ := bind_eq_ok hread
  dsimp only at hread
  split_ifs at hread with hversion
  · cases hread
  obtain ⟨⟨indexOffset, bs₃⟩, h1, hread⟩ := bind_eq_ok hread
  obtain ⟨⟨indexLen, bs₄⟩, h2, hread⟩ := bind_eq_ok hread
  obtain ⟨⟨entryCount, bs₅⟩, h3, hread⟩ := bind_eq_ok hread
  obtain ⟨⟨bloomOffset, bs₆⟩, h4, hread⟩ := bind_eq_ok hread
  obtain ⟨⟨bloomLen, rest⟩, h5, hread⟩ := bind_eq_ok hread
  cases hread
  obtain ⟨rfl, -⟩ := readBytes_eq_ok hm
  obtain rfl := readU8_eq_ok hv
  obtain ⟨hl1, rfl⟩ := readU64_eq_ok h1
  obtain ⟨hl2, rfl⟩ := readU64_eq_ok h2
  obtain ⟨hl3, rfl⟩ := readU64_eq_ok h3
  obtain ⟨hl4, rfl⟩ := readU64_eq_ok h4
  obtain ⟨hl5, rfl⟩ := readU64_eq_ok h5
  refine ⟨⟨hl1, hl2, hl3, hl4, hl5⟩, rest, ?_⟩
  simp [writeHeader, not_not.mp hmagic, not_not.mp hversion]

structure HasFilter (file : Bytes) (h : Header) (f : BloomFilter) : Prop where
  start : headerSize ≤ h.bloomOffset
  length_eq : h.bloomLen = f.toBytes.length
  bytes : f.toBytes <+: file.drop h.bloomOffset

theorem hasFilter_of_load {file : Bytes} {h : Header} {f : BloomFilter} (hread : readHeader file = .ok h)
    (hload : Table.loadBloomFilter file = .ok f) : HasFilter file h f := by
  rw [Table.loadBloomFilter, hread] at hload
  simp only [bind, Except.bind] at hload
  split_ifs at hload with hzero hover hout
  obtain ⟨⟨bytes, rest⟩, hbytes, hfrom⟩ := bind_eq_ok hload
  obtain ⟨hsplit, hlen⟩ := readBytes_eq_ok hbytes
  have hback : f.toBytes = bytes := BloomFilter.toBytes_of_fromBytes hfrom
  refine ⟨?_, ?_, ?_⟩
  · exact Nat.not_lt.mp (not_or.mp hout).1
  · rw [hback, hlen]
  · rw [hback, hsplit]
    exact List.prefix_append _ _

theorem HasFilter.load {file : Bytes} {h : Header} {f : BloomFilter} (hf : HasFilter file h f)
    (hfile : file.length < 2 ^ 64) (hread : readHeader file = .ok h) :
    Table.loadBloomFilter file = .ok f := by
  obtain ⟨rest, hrest⟩ := hf.bytes
  have hpos : 0 < f.toBytes.length := by simp [BloomFilter.toBytes]
  have hend : h.bloomOffset + h.bloomLen ≤ file.length := by
    have hlen := congrArg List.length hrest
    rw [List.length_append, List.length_drop] at hlen
    have hle := hf.length_eq
    omega
  have hstart := hf.start
  have hlen := hf.length_eq
  rw [Table.loadBloomFilter, hread]
  simp only [bind, Except.bind]
  rw [if_neg (by omega), if_neg (by omega), if_neg (by omega), ← hrest, hlen, readBytes_append rfl]
  exact BloomFilter.fromBytes_toBytes f

end Headers

section Panics

theorem safe_readIndexEntries (count : Nat) (bs : Bytes) : Safe (Table.readIndexEntries count bs) := by
  induction count generalizing bs with
  | zero => trivial
  | succ count ih =>
    rw [Table.readIndexEntries]
    apply (safe_readU32 bs).bind
    rintro ⟨keyLen, bs⟩ -
    apply (safe_readBytes bs keyLen).bind
    rintro ⟨keyBytes, bs⟩ -
    dsimp only
    split
    · trivial
    · exact (safe_readU64 bs).bind fun _ _ => (ih _).bind fun _ _ => trivial

theorem safe_readIndex (file : Bytes) (start len count : Nat) : Safe (Table.readIndex file start len count) := by
  unfold Table.readIndex
  split_ifs
  · trivial
  · apply (safe_readIndexEntries count _).bind
    rintro ⟨index, rest⟩ -
    dsimp only
    split_ifs <;> trivial

/-- A file on which `open` gets as far as the index and is told to make room for `2 ^ 58` entries or
more. -/
structure Overclaims (file : DiskFile) (h : Header) (f : BloomFilter) : Prop where
  fits : h.Fits
  front : writeHeader h <+: file.bytes
  filter : HasFilter file.bytes h f
  index_start : headerSize ≤ h.indexOffset
  index_end : h.indexOffset + h.indexLen ≤ file.bytes.length
  many : 2 ^ 58 ≤ h.entryCount

theorem length_lt (file : DiskFile) : file.bytes.length < 2 ^ 64 := by
  have hle := file.length_le
  simp only [isizeMax] at hle
  omega

theorem validateHeader_eq_ok {n : Nat} (hn : n < 2 ^ 64) (h : Header) :
    validateHeader n h = .ok () ↔ headerSize ≤ h.indexOffset ∧ h.indexOffset + h.indexLen ≤ n := by
  unfold validateHeader
  constructor
  · intro hok
    split_ifs at hok
    omega
  · rintro ⟨hstart, hend⟩
    rw [if_neg (by omega), if_neg (by omega), if_neg (by omega)]

theorem Overclaims.openFile {file : DiskFile} {h : Header} {f : BloomFilter} (ho : Overclaims file h f) :
    Checked.openFile file = .error (.panic "capacity overflow") := by
  have hread : readHeader file.bytes = .ok h := by
    obtain ⟨rest, hrest⟩ := ho.front
    rw [← hrest]
    exact readHeader_writeHeader ho.fits rest
  have hvalid := (validateHeader_eq_ok (length_lt file) h).mpr ⟨ho.index_start, ho.index_end⟩
  have hend := ho.index_end
  have hle := file.length_le
  have hlt := length_lt file
  have hindex : loadIndex file = .error (.panic "capacity overflow") := by
    simp only [loadIndex, hread, hvalid, bind, Except.bind]
    rw [seek_eq (by omega)]
    exact readIndex_panics ho.many _ (by omega)
  simp only [Checked.openFile, loadBloomFilter_eq, ho.filter.load hlt hread, hindex, bind, Except.bind,
    Except.map]

theorem safe_loadIndex {file : DiskFile} {f : BloomFilter} (hload : Table.loadBloomFilter file.bytes = .ok f)
    (hno : ∀ h, ¬ Overclaims file h f) : Safe (loadIndex file) := by
  unfold loadIndex
  cases hread : readHeader file.bytes with
  | error e =>
    have hsafe := safe_readHeader file.bytes
    rw [hread] at hsafe
    exact hsafe
  | ok h =>
    obtain ⟨hfits, hfront⟩ := readHeader_eq_ok hread
    simp only [bind, Except.bind]
    cases hvalid : validateHeader file.bytes.length h with
    | error e =>
      unfold validateHeader at hvalid
      split_ifs at hvalid <;> cases hvalid <;> trivial
    | ok u =>
      obtain ⟨hstart, hend⟩ := (validateHeader_eq_ok (length_lt file) h).mp hvalid
      have hfew : h.entryCount < 2 ^ 58 := by
        by_contra hmany
        exact hno h ⟨hfits, hfront, hasFilter_of_load hread hload, hstart, hend, Nat.not_lt.mp hmany⟩
      have hle := file.length_le
      rw [seek_eq (by omega)]
      simp only [readIndex_eq hfew]
      exact safe_readIndex ..

theorem safe_openFile_iff (file : DiskFile) : Safe (openFile file) ↔ ¬ ∃ h f, Overclaims file h f := by
  constructor
  · rintro hsafe ⟨h, f, ho⟩
    rw [ho.openFile] at hsafe
    exact hsafe
  · intro hno
    rw [openFile, loadBloomFilter_eq]
    cases hload : Table.loadBloomFilter file.bytes with
    | error e =>
      have hsafe := safe_loadBloomFilter file.bytes
      rw [hload] at hsafe
      exact hsafe
    | ok f =>
      simp only [Except.map, bind, Except.bind]
      have hindex := safe_loadIndex hload fun h ho => hno ⟨h, f, ho⟩
      cases hx : loadIndex file with
      | error e =>
        rw [hx] at hindex
        exact hindex
      | ok index => trivial

variable [FloatText]

theorem safe_collect (fuel : Nat) (r : SequentialReader) : Safe (r.collect fuel) := by
  induction fuel generalizing r with
  | zero => trivial
  | succ fuel ih =>
    rw [SequentialReader.collect]
    apply (safe_next r).bind
    rintro ⟨p, r'⟩ -
    cases p with
    | none => trivial
    | some p => exact (ih r').bind fun _ _ => trivial

theorem safe_loadEntriesSequential (file : DiskFile) : Safe (loadEntriesSequential file) := by
  unfold loadEntriesSequential
  cases hopen : SequentialReader.openFile file.bytes with
  | error e =>
    have hsafe := safe_openFile file.bytes
    rw [hopen] at hsafe
    exact hsafe
  | ok count =>
    obtain ⟨h, hread, hcount⟩ := bind_eq_ok hopen
    obtain ⟨u, -, hcount⟩ := bind_eq_ok hcount
    cases hcount
    have hlt : h.entryCount < 2 ^ 64 := (readHeader_eq_ok hread).1.entryCount
    simp only [seek_eq (show headerSize ≤ isizeMax by decide), bind, Except.bind]
    rw [collect_eq _ hlt]
    exact safe_collect ..

variable [Xxh3]

theorem safe_readEntry {file : DiskFile} {t : OpenTable} (hopen : openFile file = .ok t) (key : String) :
    Safe (readEntry t file key) := by
  obtain ⟨bloomFilter, hbloom, hopen⟩ := bind_eq_ok hopen
  obtain ⟨index, -, hopen⟩ := bind_eq_ok hopen
  cases hopen
  rw [loadBloomFilter_eq] at hbloom
  obtain ⟨f, hf, hraw⟩ : ∃ f, Table.loadBloomFilter file.bytes = .ok f ∧ BloomFilter.raw f = bloomFilter := by
    cases hx : Table.loadBloomFilter file.bytes with
    | error e =>
      rw [hx] at hbloom
      cases hbloom
    | ok f =>
      rw [hx] at hbloom
      exact ⟨f, rfl, Except.ok.inj hbloom⟩
  subst hraw
  unfold readEntry
  simp only [BloomFilter.mayContain_raw, find_eq, readRecord_eq]
  refine Ends.bind (Q := fun _ => True) trivial fun found _ => ?_
  split_ifs
  · refine Ends.bind (Q := fun _ => True) trivial fun offset _ => ?_
    cases offset with
    | none => trivial
    | some offset =>
      have hseek : Safe (seek file.bytes offset) := by
        unfold seek
        split_ifs <;> trivial
      refine hseek.bind fun rest _ => (safe_readRecord rest).bind fun p _ => ?_
      cases p <;> trivial
  · trivial

def NeverPanics (file : DiskFile) : Prop :=
  Safe (openFile file) ∧ ∀ t, openFile file = .ok t →
    (∀ key, Safe (readEntry t file key)) ∧ Safe (loadEntriesSequential file)

theorem neverPanics_iff (file : DiskFile) : NeverPanics file ↔ ¬ ∃ h f, Overclaims file h f := by
  constructor
  · intro hnever
    exact (safe_openFile_iff file).mp hnever.1
  · intro hno
    refine ⟨(safe_openFile_iff file).mpr hno, fun t hopen => ⟨safe_readEntry hopen, ?_⟩⟩
    exact safe_loadEntriesSequential file

end Panics

def hugeTable : DiskFile where
  bytes := writeHeader ⟨71, 0, 2 ^ 60, 45, 26⟩ ++
    ([1] ++ leBytes 8 8 ++ leBytes 8 1 ++ leBytes 8 1 ++ [0])
  length_le := by decide

open scoped Concrete in
theorem hugeTable_panics : ¬ NeverPanics hugeTable := by
  intro hnever
  have hopen : openFile hugeTable = .error (.panic "capacity overflow") := by rfl
  have hsafe := hnever.1
  rw [hopen] at hsafe
  exact hsafe

end Checked
end KvRaft.Table
