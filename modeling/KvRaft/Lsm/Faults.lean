import KvRaft.Lsm.NodeStorage

/-! The database fails only with `io::Error`s: the one index it takes without a check, that of a source
of a merge, is always in range. -/

namespace KvRaft
open Outcome LogRecord Table Bytes

def Fault.IsIo : Fault → Prop
  | .io .. => True
  | .panic _ => False

abbrev Safe {α : Type} (x : Except Fault α) : Prop := Ends x Fault.IsIo fun _ => True

section Readers
variable (bs : Bytes)

theorem safe_readBytes (k : Nat) : Safe (readBytes k bs) := by
  unfold readBytes
  split
  · trivial
  · trivial

theorem safe_readU8 : Safe (readU8 bs) := by
  unfold readU8
  split
  · trivial
  · trivial

theorem safe_readU32 : Safe (readU32 bs) := (safe_readBytes bs 4).bind fun _ _ => trivial

theorem safe_readU64 : Safe (readU64 bs) := (safe_readBytes bs 8).bind fun _ _ => trivial

theorem safe_readHeader : Safe (readHeader bs) := by
  unfold readHeader
  refine (safe_readBytes bs 4).bind fun _ _ => ?_
  split
  dsimp only
  split_ifs
  · trivial
  refine (safe_readU8 _).bind fun _ _ => ?_
  split_ifs
  · trivial
  exact (safe_readU64 _).bind fun _ _ => (safe_readU64 _).bind fun _ _ => (safe_readU64 _).bind fun _ _ =>
    (safe_readU64 _).bind fun _ _ => (safe_readU64 _).bind fun _ _ => trivial

theorem safe_fromU8 (c : UInt8) : Safe (DataType.fromU8 c) := by
  unfold DataType.fromU8
  split_ifs <;> trivial

theorem safe_bloom : Safe (BloomFilter.fromBytes bs) := by
  unfold BloomFilter.fromBytes
  dsimp only
  split_ifs <;> trivial

theorem safe_loadBloomFilter : Safe (loadBloomFilter bs) := by
  unfold loadBloomFilter
  refine (safe_readHeader bs).bind fun h _ => ?_
  split_ifs
  · trivial
  · trivial
  · trivial
  · exact (safe_readBytes _ _).bind fun p _ => safe_bloom p.1

theorem safe_openFile : Safe (SequentialReader.openFile bs) := by
  unfold SequentialReader.openFile
  refine (safe_readHeader bs).bind fun h _ => Ends.bind (Q := fun _ => True) ?_ fun _ _ => trivial
  unfold validateHeader
  split_ifs <;> trivial

variable [FloatText]

theorem safe_fromBytes (t : DataType) : Safe (Value.fromBytes t bs) := by
  unfold Value.fromBytes
  split
  · split
    · trivial
    · split <;> trivial
  · split
    · trivial
    · split <;> trivial
  · split <;> trivial

theorem safe_readRecord : Safe (readRecord bs) := by
  unfold readRecord
  split
  · trivial
  refine (safe_readBytes _ _).bind fun _ _ => ?_
  split
  dsimp only
  split
  · trivial
  split_ifs
  · exact (safe_readBytes _ _).bind fun _ _ => (safe_fromU8 _).bind fun _ _ =>
      (safe_fromBytes _ _).bind fun _ _ => trivial
  · trivial
  · trivial
  · trivial

theorem safe_next (r : SequentialReader) : Safe r.next := by
  unfold SequentialReader.next
  split_ifs
  · trivial
  · refine (safe_readRecord r.file).bind fun x _ => ?_
    split <;> trivial

end Readers

section Writers

theorem safe_checkedAdd (offset len : Nat) : Safe (checkedAdd offset len) := by
  unfold checkedAdd
  split_ifs <;> trivial

theorem safe_writeIndex (index : Index) : Safe (writeIndex index) := by
  induction index with
  | nil => trivial
  | cons p index ih =>
    rw [writeIndex]
    split_ifs
    · trivial
    · exact ih.bind fun _ _ => trivial

variable [FloatText] [Xxh3]

theorem safe_record (w : StreamingWriter) (key : String) (entry : Entry) : Safe (w.record key entry) := by
  unfold StreamingWriter.record
  refine Ends.bind (Q := fun _ => True) ?_ fun _ _ => (safe_checkedAdd _ _).bind fun _ _ => trivial
  unfold writeRecord
  split_ifs <;> trivial

theorem safe_writeEntry (w : StreamingWriter) (key : String) (entry : Entry) : Safe (w.writeEntry key entry) := by
  unfold StreamingWriter.writeEntry
  split
  · split_ifs
    · trivial
    · exact safe_record w key entry
  · exact safe_record w key entry

omit [FloatText] [Xxh3] in
theorem safe_finish (w : StreamingWriter) : Safe w.finish :=
  (safe_checkedAdd _ _).bind fun _ _ => (safe_writeIndex _).bind fun _ _ =>
    (safe_checkedAdd _ _).bind fun _ _ => trivial

variable [BloomSizing]

theorem safe_write (entries : List (String × Entry)) : Safe (write entries) :=
  (Ends.foldlM (I := fun _ => True) trivial fun w p _ _ => safe_record w p.1 p.2).bind fun w _ => safe_finish w

end Writers

namespace Merge
variable [FloatText]

def InRange (len : Nat) (m : Merge) : Prop := m.readers.length = len ∧ ∀ item ∈ m.heap, item.source < len

theorem pushNext_inRange {currentLen len : Nat} {m : Merge} (h : m.InRange len) {source : Nat}
    (hs : source < len) : Ends (pushNext currentLen m source) Fault.IsIo (InRange len) := by
  have hlt : source < m.readers.length := h.1 ▸ hs
  unfold pushNext
  rw [List.getElem?_eq_getElem hlt]
  refine (safe_next _).bind fun x _ => ?_
  obtain ⟨item, reader⟩ := x
  have hlen : (m.readers.set source reader).length = len := by rw [List.length_set, h.1]
  cases item with
  | none => exact ⟨hlen, h.2⟩
  | some p =>
    refine ⟨hlen, fun x hx => ?_⟩
    rcases List.mem_cons.mp hx with rfl | hx
    · exact hs
    · exact h.2 x hx

omit [FloatText] in
theorem InRange.pop {len : Nat} {m : Merge} (h : m.InRange len) {item : MergeItem} {heap : List MergeItem}
    (hpop : KWayMerge.pop m.heap = some (item, heap)) :
    item.source < len ∧ ∀ x ∈ heap, x.source < len := by
  obtain ⟨hperm, -⟩ := KWayMerge.pop_eq_some hpop
  exact ⟨h.2 item (hperm.mem_iff.mpr List.mem_cons_self),
    fun x hx => h.2 x (hperm.mem_iff.mpr (List.mem_cons_of_mem item hx))⟩

theorem skipDuplicates_inRange {currentLen len : Nat} {key : String} (fuel : Nat) {m : Merge} (h : m.InRange len) :
    Ends (skipDuplicates currentLen key fuel m) Fault.IsIo (InRange len) := by
  induction fuel generalizing m with
  | zero => exact h
  | succ fuel ih =>
    rw [skipDuplicates]
    split
    · exact h
    · next next heap hpop =>
      obtain ⟨hsource, hheap⟩ := h.pop hpop
      split_ifs
      · exact h
      · have hrest : InRange len { m with heap := heap } := ⟨h.1, hheap⟩
        exact (pushNext_inRange hrest hsource).bind fun m' hm' => ih hm'

variable [Xxh3]

theorem loop_inRange {currentLen len : Nat} (fuel : Nat) {m : Merge} (h : m.InRange len) :
    Ends (loop currentLen fuel m) Fault.IsIo (InRange len) := by
  induction fuel generalizing m with
  | zero => exact h
  | succ fuel ih =>
    rw [loop]
    split
    · exact h
    · next item heap hpop =>
      obtain ⟨hsource, hheap⟩ := h.pop hpop
      refine (safe_writeEntry _ _ _).bind fun writer _ => ?_
      have hrest : InRange len { m with heap := heap, writer := writer } := ⟨h.1, hheap⟩
      exact (pushNext_inRange hrest hsource).bind fun m₁ h₁ => (skipDuplicates_inRange _ h₁).bind
        fun m₂ h₂ => ih h₂

variable [BloomSizing]

theorem safe_run (currentLen : Nat) (readers : List SequentialReader) : Safe (run currentLen readers) := by
  unfold run
  refine Ends.bind (Q := InRange readers.length) (Ends.foldlM ⟨rfl, fun _ h => (nomatch h)⟩
    fun m source hs hm => pushNext_inRange hm (List.mem_range.mp hs)) fun m hm => ?_
  exact (loop_inRange _ hm).bind fun m' _ => safe_finish m'.writer

end Merge

namespace Database

theorem failsOnly_lift {α : Type} {x : Except Fault α} (h : Safe x) : FailsOnly (lift x) Fault.IsIo := by
  cases x with
  | ok a => exact .pure a
  | error e =>
    intro s e' s' heq
    cases heq
    exact h

theorem failsOnly_get : FailsOnly (EStateM.get : Op Database) Fault.IsIo := nofun

theorem failsOnly_modify (f : Database → Database) : FailsOnly (modify f : Op Unit) Fault.IsIo := nofun

theorem failsOnly_emit (op : FileOp) : FailsOnly (emit op) Fault.IsIo := failsOnly_modify _

theorem failsOnly_allocateId : FailsOnly allocateId Fault.IsIo := nofun

theorem safe_read (d : Disk) (id : UInt32) : Safe (d.read id) := by
  unfold Disk.read
  split <;> trivial

theorem failsOnly_removeFile (id : UInt32) : FailsOnly (removeFile id) Fault.IsIo :=
  failsOnly_get.bind fun db => (failsOnly_lift (safe_read db.disk id)).bind fun _ => failsOnly_emit _

theorem failsOnly_writeContents (id : UInt32) (c : Contents) : FailsOnly (writeContents id c) Fault.IsIo :=
  (FailsOnly.forM (fun _ => failsOnly_emit _) c.file).bind fun _ => failsOnly_emit _

variable [FloatText] [Xxh3] [BloomSizing]

theorem failsOnly_flushMemoryToDisk : FailsOnly flushMemoryToDisk Fault.IsIo := by
  refine failsOnly_get.bind fun db => ?_
  split_ifs
  · exact .pure ()
  refine failsOnly_allocateId.bind fun id => (failsOnly_emit _).bind fun _ => (failsOnly_emit _).bind fun _ =>
    (failsOnly_emit _).bind fun _ => (failsOnly_lift (safe_write _)).bind fun c =>
    (failsOnly_writeContents id c).bind fun _ => failsOnly_get.bind fun db' =>
    (failsOnly_lift (safe_loadBloomFilter _)).bind fun bloomFilter => ?_
  split
  · exact .pure ()
  · exact (failsOnly_modify _).bind fun _ => (failsOnly_emit _).bind fun _ => failsOnly_modify _

theorem failsOnly_compactLevel (level : Nat) : FailsOnly (compactLevel level) Fault.IsIo := by
  refine failsOnly_get.bind fun db => ?_
  split_ifs
  · exact .pure ()
  dsimp only
  split_ifs
  · exact .pure ()
  have hopen : ∀ t : SSTable, Safe (openReader db.disk t) := fun t =>
    (safe_read db.disk t.id).bind fun file _ => safe_openFile file
  exact (failsOnly_lift (Ends.mapM hopen _)).bind fun counts => failsOnly_allocateId.bind fun id =>
    (failsOnly_emit _).bind fun _ => failsOnly_get.bind fun db' => (failsOnly_lift (Merge.safe_run _ _)).bind fun c =>
    (failsOnly_writeContents id c).bind fun _ => failsOnly_get.bind fun db'' =>
    (failsOnly_lift (safe_loadBloomFilter _)).bind fun bloomFilter => (failsOnly_modify _).bind fun _ =>
    FailsOnly.forM (fun t : SSTable => failsOnly_removeFile t.id) _

theorem failsOnly_exec (c : Command) : FailsOnly (exec c) Fault.IsIo := by
  have hlog : FailsOnly (log c) Fault.IsIo :=
    failsOnly_get.bind fun db => (failsOnly_emit _).bind fun _ => failsOnly_modify _
  have hflush : FailsOnly maybeFlush Fault.IsIo := by
    refine failsOnly_get.bind fun db => ?_
    split_ifs
    · exact failsOnly_flushMemoryToDisk
    · exact .pure ()
  have hcompact : FailsOnly maybeCompact Fault.IsIo :=
    failsOnly_get.bind fun db => FailsOnly.forM failsOnly_compactLevel _
  exact (failsOnly_modify _).bind fun _ => hlog.bind fun _ => (failsOnly_modify _).bind fun _ =>
    hflush.bind fun _ => hcompact

end Database

theorem database_never_panics [FloatText] [Xxh3] [BloomSizing] (db : Database) (c : Command) (m : String) :
    (Storage.run db c).1 ≠ .error (.panic m) := by
  rw [run_eq_call, Database.call]
  cases h : Database.exec c db with
  | ok _ db' =>
    intro heq
    cases heq
  | error e db' =>
    intro heq
    have hio := Database.failsOnly_exec c db e db' h
    rw [Except.error.inj heq] at hio
    exact hio

end KvRaft
