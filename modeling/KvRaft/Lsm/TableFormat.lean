import KvRaft.Lsm.Refinement

/-! The tables of a flush and those of a compaction, to all the readers. -/

namespace KvRaft
open Outcome

namespace Table
variable [FloatText]

/-- The loop of `load_entries_sequential`; there are as many entries ahead as the fuel says. -/
def SequentialReader.collect : Nat → SequentialReader → Except Fault (List (String × Entry))
  | 0, _ => .ok []
  | fuel + 1, r => do
    match ← r.next with
    | (none, _) => return []
    | (some entry, r) =>
      let entries ← collect fuel r
      return entry :: entries

def loadEntriesSequential (file : Bytes) : Except Fault (List (String × Entry)) := do
  let count ← SequentialReader.openFile file
  SequentialReader.collect count ⟨file.drop headerSize, 0, count⟩

variable [Xxh3] [BloomSizing]

def stream (entries : List (String × Entry)) : Except Fault Contents := do
  let w ← entries.foldlM (fun w p => w.writeEntry p.1 p.2) (StreamingWriter.start 1024)
  w.finish

/-- The file, its header written over the front last. -/
def Contents.bytes (c : Contents) : Bytes :=
  writeHeader c.header ++ c.file.flatten.drop (writeHeader c.header).length

/-- `SSTable::open` takes the file, with the index that its writer has returned, and the readers find in
it the entries `es`. -/
structure Contents.ReadsBack (c : Contents) (es : List (String × Entry)) : Prop where
  entries : loadEntriesSequential c.bytes = .ok es
  index : loadIndex c.bytes = .ok c.index
  opens : ∀ (d : Disk) id, d.tables.lookup id = some c.bytes → ∃ t, SSTable.openFile d id = .ok t ∧
    ∀ k, t.readEntry d k = .ok (es.lookup k)

section Readers
variable {es : List (String × Entry)}

omit [Xxh3] [BloomSizing] in
theorem collect_of_reads {r : SequentialReader} (h : Reads r es) : r.collect es.length = .ok es := by
  induction es generalizing r with
  | nil => rfl
  | cons p es ih =>
    obtain ⟨r', hnext, hr'⟩ := h.next_cons
    simp only [List.length_cons, SequentialReader.collect, hnext, ih hr', bind, Except.bind]
    rfl

variable {file : Bytes} {index : Index} {bloom : BloomFilter} {r : Run String Entry}

theorem Holds.loadEntries (h : Holds file index bloom r) : loadEntriesSequential file = .ok r.entries := by
  obtain ⟨tail, htail⟩ := h.drop_header
  have hreads : Reads ⟨file.drop headerSize, 0, r.entries.length⟩ r.entries :=
    ⟨⟨tail, htail⟩, Nat.sub_zero _, h.fits⟩
  rw [loadEntriesSequential, h.openFile]
  exact collect_of_reads hreads

theorem Holds.opens (h : Holds file index bloom r) {d : Disk} {id : UInt32}
    (hfile : d.tables.lookup id = some file) : SSTable.openFile d id = .ok ⟨id, index, bloom⟩ ∧
      ∀ k, (⟨id, index, bloom⟩ : SSTable).readEntry d k = .ok (r.lookup k) := by
  refine ⟨?_, Database.readEntry_stored (t := ⟨id, index, bloom⟩) ⟨file, hfile, h⟩⟩
  have hread : d.read id = .ok file := by rw [Disk.read, hfile]
  rw [SSTable.openFile, hread]
  simp only [bind, Except.bind, h.loadBloomFilter, h.loadIndex]
  rfl

theorem contentsOf_readsBack {n : Nat} (hes : es.Pairwise fun a b => a.1 < b.1) (hfits : ∀ p ∈ es, Fits p)
    (hsize : tableSize n es < 2 ^ 64) : (contentsOf n es).ReadsBack es := by
  have hbytes : (contentsOf n es).bytes = encode n es := finished_eq_encode n es
  have h : Holds (encode n es) (indexFrom headerSize es) (bloomOf n es) ⟨es, hes⟩ :=
    ⟨⟨n, rfl, rfl, hsize⟩, rfl, hfits⟩
  refine ⟨?_, ?_, fun d id hfile => ?_⟩
  · rw [hbytes]
    exact h.loadEntries
  · rw [hbytes]
    exact h.loadIndex
  · rw [hbytes] at hfile
    exact ⟨_, h.opens hfile⟩

end Readers

section Writers
variable {es : List (String × Entry)}

theorem stream_returns (hes : es.Pairwise fun a b => a.1 < b.1) (hfits : ∀ p ∈ es, Fits p) {E : Prop}
    (hE : 2 ^ 64 ≤ tableSize 1024 es → E) :
    Returns (stream es) E fun c => c = contentsOf 1024 es ∧ tableSize 1024 es < 2 ^ 64 := by
  exact (Merge.emit_returns hes hfits hE).bind fun w hw => hw ▸ finish_writerOf hfits hE

theorem readsBack_of_returns {x : Except Fault Contents} {n : Nat} (hes : es.Pairwise fun a b => a.1 < b.1)
    (hfits : ∀ p ∈ es, Fits p)
    (hx : Returns x (2 ^ 64 ≤ tableSize n es) fun c => c = contentsOf n es ∧ tableSize n es < 2 ^ 64) :
    (∀ c, x = .ok c → c.ReadsBack es) ∧ ((∃ c, x = .ok c) ↔ tableSize n es < 2 ^ 64) := by
  cases x with
  | ok c =>
    obtain ⟨rfl, hsize⟩ := hx
    refine ⟨fun c hc => ?_, fun _ => hsize, fun _ => ⟨_, rfl⟩⟩
    cases hc
    exact contentsOf_readsBack hes hfits hsize
  | error e =>
    refine ⟨fun c hc => ?_, fun ⟨c, hc⟩ => ?_, fun hsize => absurd hsize (Nat.not_lt.mpr hx)⟩
    · cases hc
    · cases hc

end Writers
end Table

section Claim
open Table
variable [FloatText] [Xxh3] [BloomSizing]

/-- Both writers fail only if the offsets do not fit into 64 bits, and what they write is read back. -/
theorem table_round_trip {es : List (String × Entry)} (hes : es.Pairwise fun a b => a.1 < b.1)
    (hfits : ∀ p ∈ es, Fits p) :
    ((∀ c, write es = .ok c → c.ReadsBack es) ∧ ((∃ c, write es = .ok c) ↔ tableSize es.length es < 2 ^ 64)) ∧
    ((∀ c, stream es = .ok c → c.ReadsBack es) ∧ ((∃ c, stream es = .ok c) ↔ tableSize 1024 es < 2 ^ 64)) :=
  ⟨readsBack_of_returns hes hfits (write_returns hfits id),
    readsBack_of_returns hes hfits (stream_returns hes hfits id)⟩

end Claim

section Concrete
open Table
open scoped Concrete

theorem table_round_trip_pair :
    let es : List (String × Entry) := [("a", .set (.int 1)), ("b", .delete)]
    (∃ c, write es = .ok c ∧ c.ReadsBack es) ∧ ∃ c, stream es = .ok c ∧ c.ReadsBack es := by
  intro es
  have hfits : ∀ p ∈ es, Fits p := by decide
  have hes : es.Pairwise fun a b => a.1 < b.1 := by decide +kernel
  obtain ⟨⟨hwrite, hwrites⟩, hstream, hstreams⟩ := table_round_trip hes hfits
  obtain ⟨c, hc⟩ := hwrites.mpr (by decide +kernel)
  obtain ⟨c', hc'⟩ := hstreams.mpr (by decide +kernel)
  exact ⟨⟨c, hc, hwrite c hc⟩, c', hc', hstream c' hc'⟩

end Concrete
end KvRaft
