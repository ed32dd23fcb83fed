import KvRaft.Raft.BincodeFormat
import KvRaft.Raft.LogFile

/-! The log store on an open file: the bytes, the position of the next write and the offsets table,
and the list of entries they stand for over any sequence of operations. -/

namespace KvRaft
open Bytes

structure OpenFile where
  bytes : Bytes
  cursor : Nat
  deriving DecidableEq, Repr

namespace OpenFile

/-- `set_len`: cut off, or filled up with zeros. The cursor stays where it is. -/
def setLen (f : OpenFile) (n : Nat) : OpenFile :=
  { f with bytes := f.bytes.take n ++ List.replicate (n - f.bytes.length) 0 }

def seekEnd (f : OpenFile) : OpenFile := { f with cursor := f.bytes.length }

/-- `write_all` at the cursor: what is there is overwritten, a gap before the cursor reads as zeros. -/
def writeAll (f : OpenFile) (bs : Bytes) : OpenFile where
  bytes := f.bytes.take f.cursor ++ List.replicate (f.cursor - f.bytes.length) 0 ++ bs ++
    f.bytes.drop (f.cursor + bs.length)
  cursor := f.cursor + bs.length

theorem setLen_of_le {f : OpenFile} {n : Nat} (h : n ≤ f.bytes.length) :
    f.setLen n = { f with bytes := f.bytes.take n } := by
  simp [setLen, Nat.sub_eq_zero_of_le h]

theorem writeAll_of_end {f : OpenFile} (h : f.cursor = f.bytes.length) (bs : Bytes) :
    f.writeAll bs = ⟨f.bytes ++ bs, (f.bytes ++ bs).length⟩ := by
  simp [writeAll, h]

end OpenFile

/-- `RaftLogStore` as the source has it: an open file and the offset of every entry in it. -/
structure LogHandle where
  file : OpenFile
  offsets : List Nat
  deriving DecidableEq, Repr

namespace LogHandle

section Store
variable [Bincode]

/-- `open` on a file of these bytes. `left` is where the buffered reader leaves the cursor; it is
overwritten by the `seek` at the end. -/
def openFile (file : Bytes) (left : Nat) : LogHandle × List LogEntry :=
  let (entries, offsets, truncateAt) := RaftLogStore.openLoop (file.length + 1) 0 file
  let f : OpenFile := ⟨file, left⟩
  let f := match truncateAt with
    | some trunc => f.setLen trunc
    | none => f
  (⟨f.seekEnd, offsets⟩, entries)

/-- The offset noted is the position of the cursor, wherever that is. -/
def append (h : LogHandle) (e : LogEntry) : LogHandle where
  file := (h.file.writeAll (RaftLogStore.frameLen e)).writeAll (Bincode.serialize e)
  offsets := h.offsets ++ [h.file.cursor]

def truncateFrom (h : LogHandle) (start : Nat) : LogHandle :=
  if hstart : start < h.offsets.length then
    ⟨(h.file.setLen h.offsets[start]).seekEnd, h.offsets.take start⟩
  else h

def len (h : LogHandle) : Nat := h.offsets.length

/-- The operations of the store. Closing keeps the bytes only. -/
inductive Op where
  | append (e : LogEntry)
  | truncateFrom (n : Nat)
  | reopen (left : Nat)

def step (h : LogHandle) : Op → LogHandle
  | .append e => h.append e
  | .truncateFrom n => h.truncateFrom n
  | .reopen left => (openFile h.file.bytes left).1

def run (h : LogHandle) (ops : List Op) : LogHandle := ops.foldl step h

def Op.onList (es : List LogEntry) : Op → List LogEntry
  | .append e => es ++ [e]
  | .truncateFrom n => es.take n
  | .reopen _ => es

def listRun (ops : List Op) : List LogEntry := ops.foldl Op.onList []

def Op.Fits : Op → Prop
  | .append e => RaftLogStore.Fits e
  | _ => True

section Alignment

def store (h : LogHandle) : RaftLogStore := ⟨h.file.bytes, h.offsets⟩

structure Aligned (h : LogHandle) (es : List LogEntry) : Prop where
  holds : h.store.Holds es
  cursor_eq : h.file.cursor = h.file.bytes.length
  fits : ∀ e ∈ es, RaftLogStore.Fits e

variable {h : LogHandle} {es : List LogEntry}

theorem Aligned.len_eq (ha : Aligned h es) : h.len = es.length := by
  have hoffsets : h.offsets = RaftLogStore.starts 0 es := congrArg RaftLogStore.offsets ha.holds
  rw [len, hoffsets, RaftLogStore.starts_length]

theorem Aligned.bytes_eq (ha : Aligned h es) : h.file.bytes = RaftLogStore.frames es :=
  congrArg RaftLogStore.file ha.holds

theorem append_store (hc : h.file.cursor = h.file.bytes.length) (e : LogEntry) :
    (h.append e).store = h.store.append e ∧
      (h.append e).file.cursor = (h.append e).file.bytes.length := by
  simp [append, store, RaftLogStore.append, RaftLogStore.frame, OpenFile.writeAll_of_end, hc]

theorem Aligned.append (ha : Aligned h es) {e : LogEntry} (he : RaftLogStore.Fits e) :
    Aligned (h.append e) (es ++ [e]) := by
  obtain ⟨hstore, hcursor⟩ := append_store ha.cursor_eq e
  constructor
  · rw [hstore]
    exact ha.holds.append e
  · exact hcursor
  · simpa [or_imp, forall_and] using ⟨ha.fits, he⟩

theorem Aligned.offset_le (ha : Aligned h es) {k : Nat} (hk : k < h.offsets.length) :
    h.offsets[k] ≤ h.file.bytes.length := by
  have hlen : k < es.length := ha.len_eq ▸ hk
  have hoffsets : h.offsets = RaftLogStore.starts 0 es := congrArg RaftLogStore.offsets ha.holds
  have hat : h.offsets[k] = (RaftLogStore.frames (es.take k)).length := by
    apply Option.some.inj
    rw [← List.getElem?_eq_getElem hk, hoffsets, RaftLogStore.starts_getElem? hlen]
  have hsub := congrArg List.length (RaftLogStore.frames_take es k)
  rw [List.length_take] at hsub
  rw [hat, ha.bytes_eq]
  exact min_eq_left_iff.mp hsub

theorem Aligned.truncateFrom (ha : Aligned h es) (n : Nat) : Aligned (h.truncateFrom n) (es.take n) := by
  have hstore : (h.truncateFrom n).store = h.store.truncateFrom n := by
    unfold LogHandle.truncateFrom
    split_ifs with hn
    · simp [RaftLogStore.truncateFrom, store, OpenFile.setLen_of_le (ha.offset_le hn), OpenFile.seekEnd,
        List.getElem?_eq_getElem hn]
    · -- an index past the end leaves everything as it is
      simp [RaftLogStore.truncateFrom, store, List.getElem?_eq_none (Nat.not_lt.mp hn)]
  constructor
  · rw [hstore]
    exact ha.holds.truncateFrom n
  · unfold LogHandle.truncateFrom
    split_ifs
    · rfl
    · exact ha.cursor_eq
  · intro e he
    exact ha.fits e (List.mem_of_mem_take he)

theorem Aligned.openFile (ha : Aligned h es) (left : Nat) :
    (LogHandle.openFile h.file.bytes left).2 = es ∧
      Aligned (LogHandle.openFile h.file.bytes left).1 es := by
  have hbytes := ha.bytes_eq
  obtain ⟨cut, hloop, hcut⟩ := RaftLogStore.openLoop_frames es ha.fits (Or.inl rfl) 0
    (h.file.bytes.length + 1) (by
      rw [hbytes]
      exact Nat.lt_succ_of_le (RaftLogStore.length_le_frames es))
  rw [List.append_nil, ← hbytes] at hloop
  have hopen : LogHandle.openFile h.file.bytes left =
      (⟨⟨h.file.bytes, h.file.bytes.length⟩, RaftLogStore.starts 0 es⟩, es) := by
    rw [LogHandle.openFile, hloop]
    rcases hcut with ⟨-, rfl⟩ | rfl
    · rfl
    · simp [← hbytes, OpenFile.setLen, OpenFile.seekEnd]
  rw [hopen]
  refine ⟨rfl, ?_, rfl, ha.fits⟩
  exact congrArg₂ RaftLogStore.mk hbytes rfl

end Alignment

section Runs
variable {h : LogHandle} {es : List LogEntry}

theorem Aligned.step (ha : Aligned h es) {op : Op} (hop : op.Fits) : Aligned (h.step op) (op.onList es) := by
  cases op with
  | append e => exact ha.append hop
  | truncateFrom n => exact ha.truncateFrom n
  | reopen left => exact (ha.openFile left).2

theorem Aligned.run (ha : Aligned h es) {ops : List Op} (hops : ∀ op ∈ ops, op.Fits) :
    Aligned (h.run ops) (ops.foldl Op.onList es) := by
  induction ops generalizing h es with
  | nil => exact ha
  | cons op ops ih =>
    apply ih (ha.step (hops op (List.mem_cons_self ..)))
    intro op' hop'
    exact hops op' (List.mem_cons_of_mem op hop')

theorem aligned_empty (left : Nat) : Aligned (openFile [] left).1 [] := by
  constructor
  · rfl
  · rfl
  · simp

/-- A store on a file that was empty at first is a list: `len` is its length, and opening the file,
at any point and from any position of the reader, gives back its entries. -/
theorem open_run (first : Nat) (ops : List Op) (hops : ∀ op ∈ ops, op.Fits) :
    ((openFile [] first).1.run ops).len = (listRun ops).length ∧
      ∀ left, (openFile ((openFile [] first).1.run ops).file.bytes left).2 = listRun ops := by
  have ha := (aligned_empty first).run hops
  exact ⟨ha.len_eq, fun left => (ha.openFile left).1⟩

end Runs

end Store

open scoped Concrete

/-- A cut in the middle, a cut past the end, and a reopening between two appends. -/
def cutOps : List Op := [.append ⟨1, .removeNode 2⟩, .append ⟨1, .removeNode 3⟩, .truncateFrom 1,
  .reopen 5, .append ⟨2, .removeNode 4⟩, .truncateFrom 9]

theorem cutOps_fit : ∀ op ∈ cutOps, op.Fits := by
  have hfits : ∀ t n : Nat, t < 3 → n < 5 → RaftLogStore.Fits ⟨t, .removeNode n⟩ := by
    intro t n ht hn
    show (Format.logEntry.enc ⟨t, .removeNode n⟩).length ≤ RaftLogStore.maxEntrySize
    interval_cases t <;> interval_cases n <;> decide
  simp [cutOps, Op.Fits, hfits]

theorem open_run_cut : listRun cutOps = [⟨1, .removeNode 2⟩, ⟨2, .removeNode 4⟩] ∧
    (openFile ((openFile [] 0).1.run cutOps).file.bytes 0).2 = listRun cutOps :=
  ⟨rfl, (open_run 0 cutOps cutOps_fit).2 0⟩

end LogHandle
end KvRaft
