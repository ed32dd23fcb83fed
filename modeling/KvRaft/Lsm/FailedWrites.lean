import KvRaft.Lsm.Disruptions
import KvRaft.Lsm.Levels

/-! A call that fails leaves the map of the calls before it, or that map with its own write. -/

namespace KvRaft
open Outcome Table

def FileOp.table : FileOp → Option UInt32
  | .createTable id | .appendTable id _ | .finishTable id _ | .removeTable id => some id
  | .appendWal _ | .truncateWal => none

namespace Disk
variable {d : Disk} {op : FileOp} {id : UInt32}

theorem lookup_apply (h : op.table ≠ some id) : (d.apply op).tables.lookup id = d.tables.lookup id := by
  have hne : ∀ i, some i ≠ some id → id ≠ i := fun i hi heq => hi (heq ▸ rfl)
  cases op with
  | appendWal bytes => rfl
  | truncateWal => rfl
  | createTable i => exact AList.lookup_insert_ne (hne i h)
  | appendTable i bytes => exact AList.lookup_insert_ne (hne i h)
  | finishTable i header => exact AList.lookup_insert_ne (hne i h)
  | removeTable i => exact AList.lookup_erase_ne (hne i h)

theorem lookup_spoil (h : op.table ≠ some id) (left : Option Bytes) :
    (d.spoil op left).tables.lookup id = d.tables.lookup id := by
  have hne : ∀ i, some i ≠ some id → id ≠ i := fun i hi heq => hi (heq ▸ rfl)
  cases left with
  | none => rfl
  | some left =>
    cases op with
    | appendWal bytes => rfl
    | truncateWal => rfl
    | createTable i => exact AList.lookup_insert_ne (hne i h)
    | appendTable i bytes => exact AList.lookup_insert_ne (hne i h)
    | finishTable i header => exact AList.lookup_insert_ne (hne i h)
    | removeTable i => exact AList.lookup_erase_ne (hne i h)

end Disk

namespace Disrupted

/-! What an attempt does not touch. -/

/-- Nothing has changed that `get` looks at, but for the file of the table `t`. -/
structure Off (t : Option UInt32) (s s' : Disrupted) : Prop where
  data : s'.db.data = s.db.data
  levels : s'.db.leveledSstable = s.db.leveledSstable
  tables : ∀ id, t ≠ some id → s'.db.disk.tables.lookup id = s.db.disk.tables.lookup id
  clash : s'.clash = s.clash

theorem Off.refl (t : Option UInt32) (s : Disrupted) : Off t s s := ⟨rfl, rfl, fun _ _ => rfl, rfl⟩

theorem Off.trans {t : Option UInt32} {s s' s'' : Disrupted} (h : Off t s s') (h' : Off t s' s'') :
    Off t s s'' where
  data := h'.data.trans h.data
  levels := h'.levels.trans h.levels
  tables id hid := (h'.tables id hid).trans (h.tables id hid)
  clash := h'.clash.trans h.clash

structure Reached (t : Option UInt32) (s : Disrupted) (ops : List FileOp) (s' : Disrupted) : Prop where
  db : s'.db = s.db.after ops
  off : Off t s s'

section Attempts
variable {t : Option UInt32} {s₀ s : Disrupted} {ops : List FileOp}
  {E : Disrupted → Prop}

theorem get_step {α : Type} {f : Database → Op α} {Q : α → Disrupted → Prop} (hf : Leaves (f s.db) s E Q) :
    Leaves (keep EStateM.get >>= f) s E Q := .step rfl hf

theorem modify_step {α : Type} {g : Database → Database} {f : PUnit → Op α} {Q : α → Disrupted → Prop}
    (hf : Leaves (f ()) { s with db := g s.db } E Q) : Leaves (keep (modify g) >>= f) s E Q := .step rfl hf

theorem Reached.refl (t : Option UInt32) (s : Disrupted) : Reached t s [] s where
  db := by
    rw [Database.after, Disk.applyAll, List.foldl_nil, List.append_nil]
  off := .refl t s

theorem Reached.next (h : Reached t s₀ ops s) (rest : List Attempt) :
    Reached t s₀ ops { s with attempts := rest } where
  db := h.db
  off := h.off.trans ⟨rfl, rfl, fun _ _ => rfl, rfl⟩

theorem Reached.spoil (h : Reached t s₀ ops s) (op : FileOp) (hop : op.table = t) (left : Option Bytes) :
    Off t s₀ { s with db := { s.db with disk := s.db.disk.spoil op left } } :=
  h.off.trans ⟨rfl, rfl, fun _ hid => Disk.lookup_spoil (hop ▸ hid) left, rfl⟩

theorem Reached.emit (h : Reached t s₀ ops s) {op : FileOp} (hop : op.table = t) :
    Reached t s₀ (ops ++ [op]) { s with db := s.db.after [op] } where
  db := by
    rw [h.db, Database.after_after]
  off := h.off.trans ⟨rfl, rfl, fun _ hid => Disk.lookup_apply (hop ▸ hid), rfl⟩

theorem attempt_leaves (h : Reached t s₀ ops s) (op : FileOp) (hop : op.table = t)
    (hE : ∀ s', Off t s₀ s' → E s') : Leaves (attempt op) s E fun _ => Reached t s₀ (ops ++ [op]) := by
  obtain ⟨db, attempts, clash⟩ := s
  cases attempts with
  | nil => exact .of_ok rfl (h.emit hop)
  | cons a rest =>
    cases a with
    | works => exact .of_ok rfl ((h.next rest).emit hop)
    | fails error left => exact .of_error (e := error) rfl (hE _ ((h.next rest).spoil op hop left))

theorem lift_leaves {α : Type} (h : Reached t s₀ ops s) (x : Except Fault α)
    (hE : ∀ s', Off t s₀ s' → E s') :
    Leaves (keep (Database.lift x)) s E fun a s' => x = .ok a ∧ Reached t s₀ ops s' := by
  cases x with
  | ok a => exact .of_ok rfl ⟨rfl, h⟩
  | error e => exact .of_error (e := e) rfl (hE s h.off)

theorem reading_leaves {α : Type} (h : Reached t s₀ ops s) (x : Except Fault α)
    (hE : ∀ s', Off t s₀ s' → E s') :
    Leaves (reading x) s E fun a s' => x = .ok a ∧ Reached t s₀ ops s' := by
  obtain ⟨db, attempts, clash⟩ := s
  cases attempts with
  | nil => exact lift_leaves h x hE
  | cons a rest =>
    cases a with
    | works => exact lift_leaves (h.next rest) x hE
    | fails error left => exact .of_error (e := error) rfl (hE _ (h.next rest).off)

theorem streaming_leaves {α : Type} {id : UInt32} (h : Reached (some id) s₀ ops s) (x : Except Fault α)
    (hE : ∀ s', Off (some id) s₀ s' → E s') :
    Leaves (streaming id x) s E fun a s' => x = .ok a ∧ Reached (some id) s₀ ops s' := by
  obtain ⟨db, attempts, clash⟩ := s
  cases attempts with
  | nil => exact lift_leaves h x hE
  | cons a rest =>
    cases a with
    | works => exact lift_leaves (h.next rest) x hE
    | fails error left =>
      exact .of_error (e := error) rfl (hE _ ((h.next rest).spoil (.appendTable id []) rfl left))

theorem writeContents_leaves {id : UInt32} (h : Reached (some id) s₀ ops s) (c : Contents)
    (hE : ∀ s', Off (some id) s₀ s' → E s') :
    Leaves (writeContents id c) s E fun _ => Reached (some id) s₀ (ops ++ Database.contentOps id c) := by
  have hloop : ∀ (chunks : List Bytes) (ops : List FileOp) (s : Disrupted), Reached (some id) s₀ ops s →
      Leaves (chunks.forM fun bytes => attempt (.appendTable id bytes)) s E
        fun _ => Reached (some id) s₀ (ops ++ chunks.map (.appendTable id ·)) := by
    intro chunks
    induction chunks with
    | nil =>
      intro ops s hs
      rw [List.map_nil, List.append_nil]
      exact .of_ok rfl hs
    | cons bytes chunks ih =>
      intro ops s hs
      refine (attempt_leaves hs (.appendTable id bytes) rfl hE).bind fun _ s' hs' => ?_
      have hrest := ih _ s' hs'
      rw [List.append_assoc] at hrest
      exact hrest
  refine (hloop c.file ops s h).bind fun _ s' hs' => ?_
  rw [Database.contentOps, ← List.append_assoc]
  exact attempt_leaves hs' _ rfl hE

theorem removeFile_leaves (id : UInt32) (s : Disrupted) :
    Leaves (removeFile id) s (Off (some id) s) fun _ => Off (some id) s := by
  refine (lift_leaves (.refl (some id) s) (s.db.disk.read id) fun s' hs' => hs').bind ?_
  rintro _ s' ⟨-, hs'⟩
  exact (attempt_leaves hs' (.removeTable id) rfl fun _ h => h).mono fun _ _ h => h.off

end Attempts

/-! A clash is not forgotten. -/

def Marked {α : Type} (x : Op α) : Prop :=
  ∀ s, s.clash = true → Leaves x s (fun s' => s'.clash = true) fun _ s' => s'.clash = true

section Marked
variable {α β : Type}

theorem Marked.bind {x : Op α} {f : α → Op β} (hx : Marked x) (hf : ∀ a, Marked (f a)) : Marked (x >>= f) :=
  fun s hs => (hx s hs).bind fun a s' hs' => hf a s' hs'

theorem Marked.pure (a : α) : Marked (Pure.pure a) := fun _ hs => .of_ok rfl hs

theorem Marked.forM {f : α → Op PUnit} (hf : ∀ a, Marked (f a)) (l : List α) : Marked (l.forM f) :=
  fun _ hs => .forM hs fun a _ => hf a

theorem Marked.keep (x : Database.Op α) : Marked (keep x) := by
  intro s hs
  unfold Leaves Disrupted.keep
  cases x s.db with
  | ok a db => exact hs
  | error e db => exact hs

theorem Marked.next : Marked next := by
  rintro ⟨db, attempts, clash⟩ hs
  cases attempts with
  | nil => exact .of_ok rfl hs
  | cons a rest => exact .of_ok rfl hs

theorem Marked.attempt (op : FileOp) : Marked (attempt op) := by
  refine Marked.next.bind fun a => ?_
  cases a with
  | works => exact .keep _
  | fails error left => exact fun s hs => .of_error (e := error) rfl hs

theorem Marked.reading (x : Except Fault α) : Marked (reading x) := by
  refine Marked.next.bind fun a => ?_
  cases a with
  | works => exact .keep _
  | fails error left => exact fun s hs => .of_error (e := error) rfl hs

theorem Marked.streaming (id : UInt32) (x : Except Fault α) : Marked (streaming id x) := by
  refine Marked.next.bind fun a => ?_
  cases a with
  | works => exact .keep _
  | fails error left => exact fun s hs => .of_error (e := error) rfl hs

theorem Marked.allocateId : Marked allocateId := by
  intro s hs
  refine .of_ok rfl ?_
  change (s.clash || _) = true
  rw [hs, Bool.true_or]

theorem Marked.removeFile (id : UInt32) : Marked (removeFile id) :=
  (Marked.keep _).bind fun _ => (Marked.keep _).bind fun _ => .attempt _

theorem Marked.writeContents (id : UInt32) (c : Contents) : Marked (writeContents id c) :=
  (Marked.forM (fun _ => .attempt _) _).bind fun _ => .attempt _

variable [FloatText] [Xxh3] [BloomSizing]

theorem Marked.flushTo (data : AList (fun _ : String => Entry)) (id : UInt32) : Marked (flushTo data id) := by
  refine (Marked.attempt _).bind fun _ => (Marked.attempt _).bind fun _ => (Marked.attempt _).bind fun _ =>
    (Marked.keep _).bind fun c => (Marked.writeContents id c).bind fun _ => (Marked.keep _).bind fun db =>
    (Marked.reading _).bind fun bloomFilter => ?_
  cases db.leveledSstable with
  | nil => exact .pure _
  | cons level0 levels => exact (Marked.keep _).bind fun _ => (Marked.attempt _).bind fun _ => .keep _

theorem Marked.maybeFlush : Marked maybeFlush := by
  refine (Marked.keep _).bind fun db => ?_
  split_ifs
  · refine (Marked.keep _).bind fun db => ?_
    split_ifs
    · exact .pure _
    · exact Marked.allocateId.bind fun id => .flushTo _ id
  · exact .pure _

theorem Marked.compactTo (level : Nat) (current next : List SSTable) (counts : List Nat) (id : UInt32) :
    Marked (compactTo level current next counts id) :=
  (Marked.attempt _).bind fun _ => (Marked.keep _).bind fun _ => (Marked.streaming id _).bind fun c =>
    (Marked.writeContents id c).bind fun _ => (Marked.keep _).bind fun _ => (Marked.reading _).bind fun _ =>
    (Marked.keep _).bind fun _ => .forM (fun t : SSTable => .removeFile t.id) _

theorem Marked.compactLevel (level : Nat) : Marked (compactLevel level) := by
  refine (Marked.keep _).bind fun db => ?_
  split_ifs
  · exact .pure _
  dsimp only
  split_ifs
  · exact .pure _
  exact (Marked.reading _).bind fun counts => Marked.allocateId.bind fun id => .compactTo _ _ _ counts id

theorem Marked.exec (c : Command) : Marked (exec c) := by
  refine (Marked.keep _).bind fun _ => Marked.bind ?_ fun _ => (Marked.keep _).bind fun _ =>
    Marked.maybeFlush.bind fun _ => (Marked.keep _).bind fun db => .forM Marked.compactLevel _
  exact (Marked.keep _).bind fun _ => (Marked.attempt _).bind fun _ => .keep _

end Marked

/-! The map. -/

/-- Unless there has been a clash, the database stands for the map that the commands `cs` leave. -/
def Stands [FloatText] [Xxh3] [BloomSizing] (cs : List Command) (s : Disrupted) : Prop :=
  s.clash = false → ∃ runs, Database.Refines cs runs s.db

section Stands
variable [FloatText] [Xxh3] [BloomSizing] {cs : List Command} {runs : UInt32 → Run String Entry}
  {db : Database} {s : Disrupted}

theorem Stands.of_clash (h : s.clash = true) : Stands cs s := fun hfalse => by
  rw [h] at hfalse
  cases hfalse

theorem Stands.of_refines (h : ∃ runs, Database.Refines cs runs s.db) : Stands cs s := fun _ => h

theorem Marked.stands {x : Op Unit} (hx : Marked x) (h : s.clash = true) :
    Leaves x s (Stands cs) fun _ => Stands cs :=
  ((hx s h).mono fun _ _ => Stands.of_clash).weaken fun _ => Stands.of_clash

theorem Stands.allocate {x : UInt32 → Op Unit} (h : Stands cs s) (hmarked : ∀ id, Marked (x id))
    (hx : ∀ runs s', Database.Refines cs runs s.db → s.db.NextFree none →
      s'.db = { s.db with nextSstableId := s.db.nextSstableId + 1 } →
      Leaves (x s.db.nextSstableId) s' (fun s' => ∃ runs, Database.Refines cs runs s'.db)
        fun _ s' => ∃ runs, Database.Refines cs runs s'.db) :
    Leaves (allocateId >>= x) s (Stands cs) fun _ => Stands cs := by
  set s₁ : Disrupted := ⟨{ s.db with nextSstableId := s.db.nextSstableId + 1 }, s.attempts,
    s.clash || s.db.newestFirst.any fun t => t.id = s.db.nextSstableId⟩ with hs₁
  have halloc : allocateId s = .ok s.db.nextSstableId s₁ := rfl
  refine .step halloc ?_
  cases hclash : s₁.clash with
  | true => exact (hmarked _).stands hclash
  | false =>
    obtain ⟨hold, hfree⟩ := Bool.or_eq_false_iff.mp hclash
    obtain ⟨runs, href⟩ := h hold
    have hnext : s.db.NextFree none := fun t ht heq => by
      have := List.any_eq_false.mp hfree t ht
      rw [decide_eq_true_eq] at this
      exact this heq
    exact ((hx runs s₁ href hnext rfl).mono fun _ _ => Stands.of_refines).weaken fun _ => Stands.of_refines

theorem refines_off (h : Database.Refines cs runs db) {t : Option UInt32}
    (ht : ∀ u ∈ db.newestFirst, t ≠ some u.id) {s s' : Disrupted} (hdata : s.db.data = db.data)
    (hlevels : s.db.leveledSstable = db.leveledSstable) (hdisk : s.db.disk = db.disk) (hs' : Off t s s') :
    ∃ runs, Database.Refines cs runs s'.db :=
  ⟨runs, h.frame (hs'.data.trans hdata) (hs'.levels.trans hlevels) fun u hu =>
    (hs'.tables u.id (ht u hu)).trans (by rw [hdisk])⟩

theorem flushTo_leaves (h : Database.Refines cs runs db) (hfree : db.NextFree none)
    (hs : s.db = { db with nextSstableId := db.nextSstableId + 1 }) :
    Leaves (flushTo db.data db.nextSstableId) s (fun s' => ∃ runs, Database.Refines cs runs s'.db)
      fun _ s' => ∃ runs, Database.Refines cs runs s'.db := by
  set id := db.nextSstableId with hid
  -- until the table is published, a failure leaves nothing but its file
  have hE : ∀ s', Off (some id) s s' → ∃ runs, Database.Refines cs runs s'.db := fun s' =>
    refines_off h (fun u hu heq => hfree u hu (Option.some.inj heq).symm) (by rw [hs]) (by rw [hs]) (by rw [hs])
  refine (attempt_leaves (.refl (some id) s) _ rfl hE).bind fun _ s₁ h₁ =>
    (attempt_leaves h₁ _ rfl hE).bind fun _ s₂ h₂ =>
    (attempt_leaves h₂ _ rfl hE).bind fun _ s₃ h₃ => (lift_leaves h₃ _ hE).bind ?_
  rintro c s₄ ⟨hwrite, h₄⟩
  -- the file system has not failed so far: the writer decides what is in the file
  set r := Database.memRun db.data with hr
  have hfits : ∀ p ∈ r.entries, Fits p := fits_of_write hwrite
  have hreturns := write_returns (E := True) hfits fun _ => trivial
  rw [show write r.entries = .ok c from hwrite] at hreturns
  obtain ⟨rfl, hsize⟩ := hreturns
  refine (writeContents_leaves h₄ _ hE).bind fun _ s₅ h₅ => get_step ?_
  have hdisk : s₅.db.disk = db.disk.store id (encode r.entries.length r.entries) := by
    rw [h₅.db, hs]
    exact Database.applyAll_flushOps db.disk id r
  refine (reading_leaves h₅ _ hE).bind ?_
  rintro bloom s₆ ⟨hload, h₆⟩
  have hdb : s₆.db = s₅.db := h₆.db.trans h₅.db.symm
  rw [hdisk, Disk.contents_store, (Database.holds_encode hfits hsize id).loadBloomFilter] at hload
  obtain rfl := Except.ok.inj hload
  have hlevels₅ : s₅.db.leveledSstable = db.leveledSstable := h₅.off.levels.trans (by rw [hs])
  rw [hlevels₅]
  cases hlevels : db.leveledSstable with
  | nil => exact .of_ok rfl (hE s₆ h₆.off)
  | cons level0 levels =>
    dsimp only
    -- from here on readers find the table, so the files must already stand for it
    set levels' := (level0 ++ [Database.tableOf id r.entries.length r]) :: levels with hlevels'
    refine modify_step ?_
    have hpub : ∀ data, data = db.data ∨ data = ∅ →
        Database.Refines cs (Function.update runs id r) { s₆.db with leveledSstable := levels', data := data } :=
      fun data hdata => h.published hfree hfits hsize hlevels hdata rfl (by rw [hdb, hdisk]; rfl)
    have hdata : s₆.db.data = db.data := h₆.off.data.trans (by rw [hs])
    refine (attempt_leaves (.refl none _) _ rfl fun s' hs' => ?_).bind fun _ s₇ h₇ => .of_ok rfl ?_
    · exact ⟨_, (hpub db.data (.inl rfl)).frame (hs'.data.trans hdata) hs'.levels
        fun t _ => hs'.tables t.id (Option.some_ne_none _).symm⟩
    · exact ⟨_, (hpub ∅ (.inr rfl)).frame rfl h₇.off.levels
        fun t _ => h₇.off.tables t.id (Option.some_ne_none _).symm⟩

theorem Stands.maybeFlush (h : Stands cs s) : Leaves maybeFlush s (Stands cs) fun _ => Stands cs := by
  refine get_step ?_
  split_ifs
  · refine get_step ?_
    split_ifs
    · exact .of_ok rfl h
    · exact h.allocate (Marked.flushTo _) fun _ _ href hfree hs' => flushTo_leaves href hfree hs'
  · exact .of_ok rfl h

/-- Removing an input of a compaction, or failing to, does not matter once its table is there. -/
theorem merged_off {level : Nat} {r : Run String Entry} (hm : Database.MergedInto db level r s.db) {t : SSTable}
    (ht : t ∈ db.inputs level) (hne : t.id ≠ db.nextSstableId) {s' : Disrupted} (hs' : Off (some t.id) s s') :
    Database.MergedInto db level r s'.db where
  data := hs'.data.trans hm.data
  levels := hs'.levels.trans hm.levels
  file := (hs'.tables _ fun heq => hne (Option.some.inj heq)).trans hm.file
  keep id hid hnew := (hs'.tables id fun heq => hid t ht (Option.some.inj heq)).trans (hm.keep id hid hnew)

theorem compactTo_leaves (h : Database.Refines cs runs db) (hfree : db.NextFree none) {level : Nat}
    (hlevel : level + 1 < db.leveledSstable.length)
    (hs : s.db = { db with nextSstableId := db.nextSstableId + 1 }) :
    Leaves (compactTo level (db.leveledSstable.getD level []) (db.leveledSstable.getD (level + 1) [])
        ((db.inputs level).map fun t => (runs t.id).entries.length) db.nextSstableId) s
      (fun s' => ∃ runs, Database.Refines cs runs s'.db) fun _ s' => ∃ runs, Database.Refines cs runs s'.db := by
  set id := db.nextSstableId with hid
  set current := db.leveledSstable.getD level [] with hcurrent
  set next := db.leveledSstable.getD (level + 1) [] with hnext
  have hE : ∀ s', Off (some id) s s' → ∃ runs, Database.Refines cs runs s'.db := fun s' =>
    refines_off h (fun u hu heq => hfree u hu (Option.some.inj heq).symm) (by rw [hs]) (by rw [hs]) (by rw [hs])
  refine (attempt_leaves (.refl (some id) s) _ rfl hE).bind fun _ s₁ h₁ => get_step ?_
  have hinput : ∀ t ∈ current ++ next, t.id ≠ id := fun t ht => hfree t (Database.mem_of_inputs hlevel ht)
  have hstored : ∀ t ∈ current ++ next, Database.StoredIn s₁.db.disk t (runs t.id) := fun t ht => by
    rw [h₁.db, hs]
    exact (h.stored t (Database.mem_of_inputs hlevel ht)).store (hinput t ht) []
  refine (streaming_leaves h₁ _ hE).bind ?_
  rintro c s₂ ⟨hmerge, h₂⟩
  have hreturns := Database.merge_returns (E := True) hstored fun _ _ _ _ => trivial
  rw [show db.inputs level = current ++ next from rfl] at hmerge
  rw [hmerge] at hreturns
  obtain ⟨r, rfl, hsize, hfits, hselects⟩ := hreturns
  have hview : ∀ k, r.lookup k = Run.view ((current.reverse ++ next.reverse).map fun t => runs t.id) k := by
    intro k
    rw [List.map_append, List.map_reverse, List.map_reverse]
    refine Merge.lookup_of_single ?_ (by rw [List.length_map]; exact h.next_single level) k
    rwa [List.length_map]
  refine (writeContents_leaves h₂ _ hE).bind fun _ s₃ h₃ => get_step ?_
  have hdisk : s₃.db.disk = db.disk.store id (encode 1024 r.entries) := by
    rw [h₃.db, hs]
    exact Database.applyAll_contentOps db.disk id 1024 r.entries
  refine (reading_leaves h₃ _ hE).bind ?_
  rintro bloom s₄ ⟨hload, h₄⟩
  have hdb : s₄.db = s₃.db := h₄.db.trans h₃.db.symm
  rw [hdisk, Disk.contents_store, (Database.holds_encode hfits hsize id).loadBloomFilter] at hload
  obtain rfl := Except.ok.inj hload
  refine modify_step ?_
  -- the inputs go one by one; what is left of them is not read any more
  refine (Leaves.forM (I := fun s' => Database.MergedInto db level r s'.db) ?_ fun t ht s' hs' => ?_).mono ?_
  · exact {
      data := h₄.off.data.trans (by rw [hs])
      levels := by
        have hlevels : s₄.db.leveledSstable = db.leveledSstable := h₄.off.levels.trans (by rw [hs])
        change (s₄.db.leveledSstable.modify _ _).modify _ _ = _
        rw [hlevels]
        rfl
      file := by
        change s₄.db.disk.tables.lookup id = _
        rw [hdb, hdisk]
        exact AList.lookup_insert _
      keep := fun i _ hne => by
        change s₄.db.disk.tables.lookup i = _
        rw [hdb, hdisk]
        exact AList.lookup_insert_ne hne }
  · have hne := hinput t ht
    exact ((removeFile_leaves t.id s').mono fun _ s'' => merged_off hs' ht hne).weaken fun s'' hs'' =>
      ⟨_, h.merged hfree hlevel hfits hsize hview (merged_off hs' ht hne hs'')⟩
  · exact fun _ s' hs' => ⟨_, h.merged hfree hlevel hfits hsize hview hs'⟩

theorem Stands.compactLevel (h : Stands cs s) (level : Nat) :
    Leaves (compactLevel level) s (Stands cs) fun _ => Stands cs := by
  cases hclash : s.clash with
  | true => exact (Marked.compactLevel level).stands hclash
  | false =>
    refine get_step ?_
    split_ifs with hlevel
    · exact .of_ok rfl h
    dsimp only
    split_ifs
    · exact .of_ok rfl h
    obtain ⟨runs, href⟩ := h hclash
    refine (reading_leaves (.refl none s) _ fun s' hs' => Stands.of_refines (refines_off href
      (fun _ _ => (Option.some_ne_none _).symm) rfl rfl rfl hs')).bind ?_
    rintro counts s₁ ⟨hread, h₁⟩
    have hinput : ∀ t ∈ s.db.inputs level, Database.StoredIn s.db.disk t (runs t.id) := fun t ht =>
      href.stored t (Database.mem_of_inputs (Nat.not_le.mp hlevel) ht)
    obtain rfl := Except.ok.inj (hread.symm.trans (Database.openReaders_eq hinput))
    have hdb : s.db = s₁.db := (Reached.refl none s).db.trans h₁.db.symm
    rw [hdb] at hlevel ⊢
    refine Stands.allocate (fun _ => ⟨runs, hdb ▸ href⟩) (Marked.compactTo _ _ _ _) ?_
    intro runs' s₂ _ hfree hs₂
    exact compactTo_leaves (hdb ▸ href) hfree (Nat.not_le.mp hlevel) hs₂

theorem Stands.maybeCompact (h : Stands cs s) : Leaves maybeCompact s (Stands cs) fun _ => Stands cs :=
  get_step (.forM h fun level _ _ hs => hs.compactLevel level)

theorem Stands.exec (h : Stands cs s) (c : Command) :
    Leaves (exec c) s (fun s' => Stands cs s' ∨ Stands (cs ++ [c]) s') fun _ => Stands (cs ++ [c]) := by
  cases hclash : s.clash with
  | true => exact ((Marked.exec c).stands hclash).weaken fun _ => Or.inr
  | false =>
    obtain ⟨runs, href⟩ := h hclash
    set s₁ : Disrupted := { s with db := { s.db with journal := [] } } with hs₁
    refine modify_step ?_
    have hlog : Leaves (log c) s₁ (fun s' => Stands cs s' ∨ Stands (cs ++ [c]) s') fun _ s' =>
        ({ s'.db with data := Database.put s'.db.data c } : Database) = s₁.db.written c := by
      refine get_step ?_
      refine (attempt_leaves (.refl none s₁) _ rfl fun s' hs' => Or.inl (Stands.of_refines (refines_off (s := s₁) href
        (fun _ _ => (Option.some_ne_none _).symm) rfl rfl rfl hs'))).bind fun _ s₂ h₂ => .of_ok rfl ?_
      change ({ s₂.db with logLen := s₂.db.logLen + 1, data := Database.put s₂.db.data c } : Database) = _
      rw [h₂.db]
      rfl
    refine hlog.bind fun _ s₂ h₂ => ?_
    refine modify_step ?_
    have hwritten : Stands (cs ++ [c]) { s₂ with db := { s₂.db with data := Database.put s₂.db.data c } } :=
      Stands.of_refines ⟨runs, h₂ ▸ href.write c⟩
    exact (hwritten.maybeFlush.weaken fun _ => Or.inr).bind fun _ s₃ h₃ => h₃.maybeCompact.weaken fun _ => Or.inr

end Stands

/-! The states of a process. -/

section Process
variable [FloatText] [Xxh3] [BloomSizing]

/-- The states of a process: it opens a directory, the tables it finds can be read, and it makes calls. -/
inductive Reachable (config : Config) : Disrupted → Prop where
  | opened {disk : Disk} {db : Database} {runs : UInt32 → Run String Entry} :
    Database.openInDir disk config = .ok db →
    (∀ t ∈ db.newestFirst, Database.StoredIn db.disk t (runs t.id)) → Reachable config ⟨db, [], false⟩
  | called {s : Disrupted} : Reachable config s →
    ∀ c attempts, Reachable config (s.call c attempts).2

/-- After the call every key can be read, other keys give what they gave before, and its own key what it has
written, or else the call has failed and the key, too, gives what it gave before. -/
def KeepsReads (s : Disrupted) (c : Command) (attempts : List Attempt) : Prop :=
  (∀ k, ∃ v, (s.call c attempts).2.db.get k = .ok v) ∧
  (∀ k, k ≠ c.key → (s.call c attempts).2.db.get k = s.db.get k) ∧
  ((s.call c attempts).2.db.get c.key = .ok (Database.visible (some c.entry)) ∨
    (s.call c attempts).1 ≠ .ok () ∧ (s.call c attempts).2.db.get c.key = s.db.get c.key)

theorem Reachable.fresh (config : Config) : Reachable config ⟨.fresh config, [], false⟩ := by
  have hopen : Database.openInDir .empty config = .ok (.fresh config) := rfl
  have hruns : ∀ runs, Reachable config ⟨.fresh config, [], false⟩ := fun runs =>
    .opened hopen (Database.Refines.fresh config runs).stored
  exact hruns fun _ => ⟨[], .nil⟩

theorem call_mirrors {db db' : Database} {c : Command} (h : Database.exec c db = .ok () db') (clash : Bool) :
    ∃ clash', (Disrupted.mk db [] clash).call c [] = (.ok (), ⟨db', [], clash'⟩) := by
  obtain ⟨clash', hexec⟩ := exec_mirrors c db clash
  rw [h] at hexec
  exact ⟨clash', by rw [call, hexec]⟩

theorem Reachable.execAll {config : Config} {db db' : Database} {clash : Bool} {cs : List Command}
    (h : Reachable config ⟨db, [], clash⟩) (hrun : Database.execAll cs db = .ok () db') :
    ∃ clash', Reachable config ⟨db', [], clash'⟩ := by
  induction cs generalizing db clash with
  | nil =>
    have hrun : EStateM.Result.ok () db = .ok () db' := hrun
    cases hrun
    exact ⟨clash, h⟩
  | cons c cs ih =>
    obtain ⟨db₁, hone, hrest⟩ := Database.execAll_cons hrun
    obtain ⟨clash₁, hcall⟩ := call_mirrors hone clash
    have hnext := h.called c []
    rw [hcall] at hnext
    exact ih hnext hrest

theorem call_created {db : Database} (hdata : db.data = ∅) (hthreshold : db.dataThreshold = 1) (clash : Bool)
    (c : Command) (e : Fault) : ∃ clash', (Disrupted.mk db [] clash).call c [.works, .works, .fails e none] =
      (.error e, ⟨{ (({ db with journal := [] } : Database).written c).after [.createTable db.nextSstableId] with
        nextSstableId := db.nextSstableId + 1 }, [], clash'⟩) := by
  obtain ⟨data, logLen, leveledSstable, dataThreshold, sstableThreshold, nextSstableId, disk, journal⟩ := db
  obtain rfl : data = ∅ := hdata
  obtain rfl : dataThreshold = 1 := hthreshold
  exact ⟨_, rfl⟩

theorem Stands.call {cs : List Command} {s : Disrupted} (h : Stands cs s) (c : Command) (attempts : List Attempt) :
    Stands (cs ++ [c]) (s.call c attempts).2 ∨
      (s.call c attempts).1 ≠ .ok () ∧ Stands cs (s.call c attempts).2 := by
  have hexec := Stands.exec (s := { s with attempts := attempts }) h c
  unfold Leaves at hexec
  rw [Disrupted.call]
  split at hexec
  · next heq =>
    rw [heq]
    exact Or.inl hexec
  · next e s' heq =>
    rw [heq]
    have hne : (Except.error e : Except Fault Unit) ≠ .ok () := fun hok => by cases hok
    exact hexec.elim (fun hold => Or.inr ⟨hne, hold⟩) Or.inl

theorem clash_of_call {s : Disrupted} {c : Command} {attempts : List Attempt}
    (h : (s.call c attempts).2.clash = false) : s.clash = false := by
  cases hs : s.clash with
  | false => rfl
  | true =>
    have hexec := Marked.exec c { s with attempts := attempts } hs
    unfold Leaves at hexec
    rw [Disrupted.call] at h
    split at hexec
    · next heq =>
      rw [heq, hexec] at h
      cases h
    · next heq =>
      rw [heq, hexec] at h
      cases h

theorem Reachable.stands {config : Config} {s : Disrupted} (h : Reachable config s) : ∃ cs, Stands cs s := by
  induction h with
  | opened hopen hstored =>
    obtain ⟨hnodup, hthin⟩ := Database.open_levels hopen
    obtain ⟨cs, h⟩ := Database.exists_refines hstored hnodup hthin
    exact ⟨cs, fun _ => ⟨_, h⟩⟩
  | called _ c attempts ih =>
    obtain ⟨cs, hs⟩ := ih
    exact (hs.call c attempts).elim (fun h => ⟨_, h⟩) fun h => ⟨_, h.2⟩

end Process
end Disrupted

section Process
variable [FloatText] [Xxh3] [BloomSizing]

/-- As long as no call creates a table under the name of a live one, a call that fails changes no other key. -/
theorem failed_call_keeps_reads {config : Config} {s : Disrupted} (hs : Disrupted.Reachable config s)
    (c : Command) (attempts : List Attempt) (hids : (s.call c attempts).2.clash = false) :
    s.KeepsReads c attempts := by
  obtain ⟨cs, hstands⟩ := hs.stands
  obtain ⟨runs, h⟩ := hstands (Disrupted.clash_of_call hids)
  rcases hstands.call c attempts with hnew | ⟨hfailed, hold⟩
  · obtain ⟨runs', h'⟩ := hnew hids
    refine ⟨fun k => ⟨_, h'.get_eq k⟩, fun k hk => ?_, Or.inl ?_⟩
    · rw [h'.get_eq, h.get_eq, fold_eq_visible, fold_eq_visible, lastEntry_concat, if_neg hk]
    · rw [h'.get_eq, fold_eq_visible, lastEntry_concat, if_pos rfl]
  · obtain ⟨runs', h'⟩ := hold hids
    have hget : ∀ k, (s.call c attempts).2.db.get k = s.db.get k := fun k => by rw [h'.get_eq, h.get_eq]
    exact ⟨fun k => ⟨_, h'.get_eq k⟩, fun k _ => hget k, Or.inr ⟨hfailed, hget c.key⟩⟩

end Process

section Concrete
open scoped Concrete

/-- The flush publishes its table and fails to empty the log. -/
theorem failed_call_keeps_reads_published :
    let attempts := List.replicate 10 Attempt.works ++
      [.fails (.io .invalidInput "Invalid argument (os error 22)") none]
    (Disrupted.mk (.fresh ⟨1, 1, 0⟩) [] false).KeepsReads (.set "a" (.int 1)) attempts ∧
      ((Disrupted.mk (.fresh ⟨1, 1, 0⟩) [] false).call (.set "a" (.int 1)) attempts).2.db.newestFirst.length = 1 :=
  ⟨failed_call_keeps_reads (.fresh ⟨1, 1, 0⟩) _ _ (by decide +kernel), by decide +kernel⟩

/-- The id of the next table is that of the first again, and the flush fails when it has emptied its file. -/
theorem failed_flush_empties_table : ∃ s, Disrupted.Reachable ⟨1, 1, 0⟩ s ∧
    Database.execAll (.set "a" (.int 1) :: List.replicate (2 ^ 32 - 1) (.set "b" (.int 2))) (.fresh ⟨1, 1, 0⟩) =
      .ok () s.db ∧
    (s.call (.set "b" (.int 2)) [.works, .works, .fails Fault.eof none]).1 = .error Fault.eof ∧
    s.db.get "a" = .ok (some (.int 1)) ∧
    (s.call (.set "b" (.int 2)) [.works, .works, .fails Fault.eof none]).2.db.get "a" = .ok none ∧
    ¬ s.KeepsReads (.set "b" (.int 2)) [.works, .works, .fails Fault.eof none] := by
  set a : Command := .set "a" (.int 1) with ha
  set b : Command := .set "b" (.int 2) with hb
  have hafits : a.Fits := by decide
  have hbfits : b.Fits := by decide
  obtain ⟨db, hdb, h⟩ := Database.Wrapping.run (a := a) (b := b) (n := 2 ^ 32 - 1) hafits (by decide +kernel) hbfits
    (by decide +kernel) (Nat.sub_le ..)
  obtain ⟨clash, hs⟩ := (Disrupted.Reachable.fresh ⟨1, 1, 0⟩).execAll hdb
  obtain ⟨ts, hlevels, hts⟩ := h.levels
  have hmiss : (bloomOf 1 (oneEntry b).entries).mayContain "a" = false := by decide +kernel
  have hhit : (bloomOf 1 (oneEntry a).entries).mayContain "a" = true := by decide +kernel
  have hbefore : db.get "a" = .ok (some (.int 1)) := by
    have hfile := h.file
    rw [if_pos (by decide)] at hfile
    have hentry : Table.readEntry (encode 1 (oneEntry a).entries) (Database.tableOf 0 1 (oneEntry a)).index "a" =
        .ok (some (.set (.int 1))) := by
      decide +kernel
    exact Database.get_first hlevels hts (by rw [h.data]; rfl) hmiss hhit hfile hentry
  obtain ⟨clash', hcall⟩ := Disrupted.call_created h.data h.threshold clash b Fault.eof
  have hafter :
      ((Disrupted.mk db [] clash).call b [.works, .works, .fails Fault.eof none]).2.db.get "a" = .ok none := by
    rw [hcall]
    have hfile : ((db.disk.apply (.appendWal (LogRecord.new db.logLen b).writeTo)).apply
        (.createTable db.nextSstableId)).tables.lookup 0 = some [] := by
      rw [h.next]
      exact AList.lookup_insert _
    have hentry : Table.readEntry [] (Database.tableOf 0 1 (oneEntry a)).index "a" = .ok none := by
      decide +kernel
    have hdata : (Database.put db.data b).lookup "a" = none := by
      rw [h.data]
      rfl
    refine Database.get_first ?_ hts ?_ hmiss hhit ?_ hentry
    · exact hlevels
    · exact hdata
    · exact hfile
  refine ⟨_, hs, hdb, by rw [hcall], hbefore, hafter, fun hkeeps => ?_⟩
  have hsame := hkeeps.2.1 "a" (by decide)
  rw [hafter] at hsame
  exact absurd (hsame.trans hbefore) (by decide)

end Concrete
end KvRaft
