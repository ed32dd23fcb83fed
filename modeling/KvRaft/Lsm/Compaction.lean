import KvRaft.Lib.KWayMerge
import KvRaft.Lsm.Table

/-! The k-way merge of a compaction (`database/compact.rs`). -/

namespace KvRaft
open Table

abbrev MergeItem := KWayMerge.Item String Entry

/-- The tables of the level being compacted come before those of the next one, and within a level
the later ones before the earlier ones. -/
def mergePriority (currentLen source : Nat) : Nat :=
  if source < currentLen then source + currentLen else source - currentLen

structure Merge where
  heap : List MergeItem
  readers : List SequentialReader
  writer : StreamingWriter

namespace Merge
variable [FloatText]

def pushNext (currentLen : Nat) (m : Merge) (source : Nat) : Except Fault Merge :=
  match m.readers[source]? with
  | none => .error (.panic "index out of bounds")
  | some reader => do
    let (item, reader) ← reader.next
    let readers := m.readers.set source reader
    match item with
    | none => return { m with readers := readers }
    | some (key, entry) =>
      return { m with
        heap := ⟨key, entry, source, mergePriority currentLen source⟩ :: m.heap
        readers := readers }

/-- How many entries are still to be popped; each round of the loops pops one. -/
def pending (m : Merge) : Nat :=
  m.heap.length + (m.readers.map fun r => r.entryCount - r.entriesRead).sum

/-- `while let Some(next) = heap.peek()`: consumes the versions of `key` of lower priority. -/
def skipDuplicates (currentLen : Nat) (key : String) : Nat → Merge → Except Fault Merge
  | 0, m => .ok m
  | fuel + 1, m => match KWayMerge.pop m.heap with
    | none => .ok m
    | some (next, heap) =>
      if next.key ≠ key then .ok m
      else do
        let m ← pushNext currentLen { m with heap := heap } next.source
        skipDuplicates currentLen key fuel m

variable [Xxh3]

/-- `while let Some(item) = heap.pop()`. -/
def loop (currentLen : Nat) : Nat → Merge → Except Fault Merge
  | 0, m => .ok m
  | fuel + 1, m => match KWayMerge.pop m.heap with
    | none => .ok m
    | some (item, heap) => do
      let writer ← m.writer.writeEntry item.key item.entry
      let m ← pushNext currentLen { m with heap := heap, writer := writer } item.source
      let m ← skipDuplicates currentLen item.key m.pending m
      loop currentLen fuel m

variable [BloomSizing]

/-- The merge of the sources in `readers`, of which the first `currentLen` are of the level being
compacted. -/
def run (currentLen : Nat) (readers : List SequentialReader) : Except Fault Contents := do
  let m ← (List.range readers.length).foldlM (pushNext currentLen) ⟨[], readers, .start 1024⟩
  let m ← loop currentLen m.pending m
  m.writer.finish

end Merge
end KvRaft
