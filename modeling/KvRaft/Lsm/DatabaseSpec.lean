import KvRaft.Lsm.CompactionSpec
import KvRaft.Lsm.Database

/-! What a flush and a compaction do to a database whose files are in order. -/

namespace KvRaft
open Outcome Table

namespace Disk

def store (d : Disk) (id : UInt32) (file : Bytes) : Disk := { d with tables := d.tables.insert id file }

theorem applyAll_append (d : Disk) (ops ops' : List FileOp) :
    d.applyAll (ops ++ ops') = (d.applyAll ops).applyAll ops' := List.foldl_append ..

@[simp] theorem contents_store (d : Disk) (id : UInt32) (file : Bytes) :
    (d.store id file).contents id = file := by
  rw [contents, store, AList.lookup_insert, Option.getD_some]

theorem store_store (d : Disk) (id : UInt32) (file file' : Bytes) :
    (d.store id file).store id file' = d.store id file' := by
  rw [store, store, store, AList.insert_insert]

theorem apply_appendTable (d : Disk) (id : UInt32) (file bytes : Bytes) :
    (d.store id file).apply (.appendTable id bytes) = d.store id (file ++ bytes) := by
  rw [apply, contents_store]
  exact store_store ..

theorem applyAll_appendTable (d : Disk) (id : UInt32) (file : Bytes) (chunks : List Bytes) :
    (d.store id file).applyAll (chunks.map (.appendTable id ·)) = d.store id (file ++ chunks.flatten) := by
  induction chunks generalizing file with
  | nil => rw [List.flatten_nil, List.append_nil]; rfl
  | cons bytes chunks ih =>
    rw [List.map_cons, List.flatten_cons, ← List.append_assoc, ← ih, applyAll, List.foldl_cons,
      apply_appendTable]
    rfl

theorem apply_finishTable (d : Disk) (id : UInt32) (file header : Bytes) :
    (d.store id file).apply (.finishTable id header) = d.store id (header ++ file.drop header.length) := by
  rw [apply, contents_store]
  exact store_store ..

end Disk

namespace Database

def after (db : Database) (ops : List FileOp) : Database :=
  { db with disk := db.disk.applyAll ops, journal := db.journal ++ ops }

theorem emit_eq (op : FileOp) (db : Database) : emit op db = .ok () (db.after [op]) := rfl

theorem after_after (db : Database) (ops ops' : List FileOp) :
    (db.after ops).after ops' = db.after (ops ++ ops') := by
  rw [after, after, after, Disk.applyAll_append, List.append_assoc]

theorem lift_eq {α : Type} {x : Except Fault α} {a : α} (h : x = .ok a) (db : Database) :
    lift x db = .ok a db := by
  rw [h]
  rfl

theorem lift_runs {α : Type} {x : Except Fault α} {E : Prop} {Q : α → Prop} (h : Returns x E Q)
    (db : Database) : Runs (lift x) db E fun a db' => db' = db ∧ Q a := by
  cases x with
  | ok a => exact ⟨rfl, h⟩
  | error e => exact h

/-- The changes of files by which a table is written once its file is there. -/
def contentOps (id : UInt32) (c : Contents) : List FileOp :=
  c.file.map (.appendTable id ·) ++ [.finishTable id (writeHeader c.header)]

theorem writeContents_eq (id : UInt32) (c : Contents) (db : Database) :
    writeContents id c db = .ok () (db.after (contentOps id c)) := by
  have hloop : ∀ (chunks : List Bytes) (db : Database),
      chunks.forM (fun bytes => emit (.appendTable id bytes)) db =
        .ok () (db.after (chunks.map (.appendTable id ·))) := by
    intro chunks
    induction chunks with
    | nil => intro db; simp [after, Disk.applyAll, pure, EStateM.pure, List.forM]
    | cons bytes chunks ih =>
      intro db
      change EStateM.bind (emit (.appendTable id bytes))
        (fun _ => chunks.forM fun bytes => emit (.appendTable id bytes)) db = _
      rw [EStateM.bind, emit_eq]
      dsimp only
      rw [ih, after_after]
      rfl
  change EStateM.bind (c.file.forM fun bytes => emit (.appendTable id bytes))
    (fun _ => emit (.finishTable id (writeHeader c.header))) db = _
  rw [EStateM.bind, hloop]
  dsimp only
  rw [emit_eq, after_after]
  rfl

variable [FloatText]

variable [Xxh3]

variable [BloomSizing]

theorem applyAll_contentOps (d : Disk) (id : UInt32) (n : Nat) (es : List (String × Entry)) :
    (d.store id []).applyAll (contentOps id (contentsOf n es)) = d.store id (encode n es) := by
  rw [contentOps, Disk.applyAll_append, Disk.applyAll_appendTable, List.nil_append]
  exact (Disk.apply_finishTable ..).trans (congrArg (d.store id) (finished_eq_encode n es))

def tableOf (id : UInt32) (n : Nat) (r : Run String Entry) : SSTable :=
  ⟨id, indexFrom headerSize r.entries, bloomOf n r.entries⟩

section Memtable
variable (data : AList (fun _ : String => Entry))

omit [FloatText] [Xxh3] [BloomSizing] in
theorem mem_sortedEntries {p : String × Entry} : p ∈ sortedEntries data ↔ data.lookup p.1 = some p.2 := by
  rw [sortedEntries, (List.perm_insertionSort _ _).mem_iff, List.mem_map]
  refine ⟨?_, fun h => ⟨⟨p.1, p.2⟩, AList.mem_lookup_iff.mp h, rfl⟩⟩
  rintro ⟨q, hq, rfl⟩
  exact AList.mem_lookup_iff.mpr hq

omit [FloatText] [Xxh3] [BloomSizing] in
theorem sortedEntries_sorted : (sortedEntries data).Pairwise fun a b => a.1 < b.1 := by
  have hle : (sortedEntries data).Pairwise fun a b => a.1 ≤ b.1 :=
    List.pairwise_insertionSort (r := fun a b : String × Entry => a.1 ≤ b.1) _
  have hne : (sortedEntries data).Pairwise fun a b => a.1 ≠ b.1 := by
    have hnodup : ((sortedEntries data).map Prod.fst).Nodup := by
      rw [sortedEntries, ((List.perm_insertionSort _ _).map Prod.fst).nodup_iff, List.map_map]
      exact data.keys_nodup
    exact List.pairwise_map.mp hnodup
  exact hle.imp₂ (fun a b h1 h2 => lt_of_le_of_ne h1 h2) hne

def memRun : Run String Entry := ⟨sortedEntries data, sortedEntries_sorted data⟩

omit [FloatText] [Xxh3] [BloomSizing] in
theorem memRun_lookup (k : String) : (memRun data).lookup k = data.lookup k := by
  cases h : data.lookup k with
  | none =>
    by_contra hne
    obtain ⟨e, he⟩ := Option.ne_none_iff_exists'.mp hne
    have := (mem_sortedEntries data).mp ((memRun data).lookup_eq_some.mp he)
    rw [h] at this
    cases this
  | some e => exact (memRun data).lookup_eq_some.mpr ((mem_sortedEntries data).mpr h)

end Memtable

def flushOps (id : UInt32) (r : Run String Entry) : List FileOp :=
  [.createTable id, .appendTable id (writeHeader emptyHeader), .createTable id] ++
    contentOps id (contentsOf r.entries.length r.entries)

theorem applyAll_flushOps (d : Disk) (id : UInt32) (r : Run String Entry) :
    d.applyAll (flushOps id r) = d.store id (encode r.entries.length r.entries) := by
  rw [flushOps, Disk.applyAll_append]
  have hcreate : d.applyAll [.createTable id, .appendTable id (writeHeader emptyHeader), .createTable id] =
      d.store id [] := by
    change (((d.store id []).apply (.appendTable id (writeHeader emptyHeader))).store id []) = _
    rw [Disk.apply_appendTable, Disk.store_store]
  rw [hcreate, applyAll_contentOps]

def flushed (db : Database) (r : Run String Entry) : Database :=
  match db.leveledSstable with
  | [] => { db.after (flushOps db.nextSstableId r) with nextSstableId := db.nextSstableId + 1 }
  | level0 :: levels =>
    { db.after (flushOps db.nextSstableId r ++ [.truncateWal]) with
      nextSstableId := db.nextSstableId + 1
      leveledSstable := (level0 ++ [tableOf db.nextSstableId r.entries.length r]) :: levels
      logLen := 0
      data := ∅ }

theorem holds_encode {n : Nat} {r : Run String Entry} (hfits : ∀ p ∈ r.entries, Fits p)
    (hsize : tableSize n r.entries < 2 ^ 64) (id : UInt32) :
    Holds (encode n r.entries) (tableOf id n r).index (tableOf id n r).bloomFilter r :=
  ⟨⟨n, rfl, rfl, hsize⟩, rfl, hfits⟩

theorem flush_runs (db : Database) (hdata : db.data.entries ≠ [])
    (hfits : ∀ p ∈ (memRun db.data).entries, Fits p) {E : Prop}
    (hE : 2 ^ 64 ≤ tableSize (memRun db.data).entries.length (memRun db.data).entries → E) :
    Runs flushMemoryToDisk db E fun _ db' => db' = db.flushed (memRun db.data) ∧
      tableSize (memRun db.data).entries.length (memRun db.data).entries < 2 ^ 64 := by
  set r := memRun db.data with hr
  have hempty : db.data.entries.isEmpty = false := by
    cases h : db.data.entries with
    | nil => exact absurd h hdata
    | cons => rfl
  unfold flushMemoryToDisk
  refine .step rfl ?_
  simp only [hempty]
  refine .step (a := db.nextSstableId) rfl ?_
  refine .step (emit_eq _ _) (.step (emit_eq _ _) (.step (emit_eq _ _) ?_))
  refine (lift_runs (write_returns hfits hE) _).bind ?_
  rintro _ _ ⟨rfl, rfl, hsize⟩
  refine .step (writeContents_eq _ _ _) ?_
  rw [after_after, after_after, after_after]
  change Runs _ { db.after (flushOps db.nextSstableId r) with nextSstableId := db.nextSstableId + 1 } E _
  refine .step rfl ?_
  have hload : loadBloomFilter ((db.after (flushOps db.nextSstableId r)).disk.contents db.nextSstableId) =
      .ok (tableOf db.nextSstableId r.entries.length r).bloomFilter := by
    rw [after, applyAll_flushOps, Disk.contents_store]
    exact (holds_encode hfits hsize db.nextSstableId).loadBloomFilter
  refine .step (lift_eq hload _) ?_
  unfold flushed
  cases hlevels : db.leveledSstable with
  | nil =>
    simp only [after, hlevels]
    exact .of_ok rfl ⟨rfl, hsize⟩
  | cons level0 levels =>
    simp only [after, hlevels]
    refine .step rfl (.step (emit_eq _ _) (.of_ok rfl ⟨?_, hsize⟩))
    simp only [after, Disk.applyAll_append, List.append_assoc]
    rfl

section Compaction

def StoredIn (d : Disk) (t : SSTable) (r : Run String Entry) : Prop :=
  ∃ file, d.tables.lookup t.id = some file ∧ Holds file t.index t.bloomFilter r

theorem StoredIn.read {d : Disk} {t : SSTable} {r : Run String Entry} (h : StoredIn d t r) :
    ∃ file, d.read t.id = .ok file ∧ d.contents t.id = file ∧ Holds file t.index t.bloomFilter r := by
  obtain ⟨file, hfile, hholds⟩ := h
  exact ⟨file, by rw [Disk.read, hfile], by rw [Disk.contents, hfile, Option.getD_some], hholds⟩

theorem StoredIn.store {d : Disk} {t : SSTable} {r : Run String Entry} (h : StoredIn d t r) {id : UInt32}
    (hid : t.id ≠ id) (file : Bytes) : StoredIn (d.store id file) t r := by
  obtain ⟨f, hf, hholds⟩ := h
  exact ⟨f, (AList.lookup_insert_ne hid).trans hf, hholds⟩

omit [FloatText] [Xxh3] [BloomSizing] in
theorem mapM_ok {α β ε : Type} {f : α → Except ε β} {g : α → β} {l : List α}
    (h : ∀ a ∈ l, f a = .ok (g a)) : l.mapM f = .ok (l.map g) := by
  induction l with
  | nil => rfl
  | cons a l ih =>
    rw [List.mapM_cons, h a (List.mem_cons_self ..), ih fun b hb => h b (List.mem_cons_of_mem _ hb)]
    rfl

theorem openReaders_eq {d : Disk} {runs : UInt32 → Run String Entry} {tables : List SSTable}
    (h : ∀ t ∈ tables, StoredIn d t (runs t.id)) :
    tables.mapM (openReader d) = .ok (tables.map fun t => (runs t.id).entries.length) :=
  mapM_ok fun t ht => by
    obtain ⟨file, hread, -, hholds⟩ := (h t ht).read
    rw [openReader, hread]
    exact hholds.openFile

omit [FloatText] [Xxh3] [BloomSizing] in
theorem removeFile_eq {db : Database} {id : UInt32} (h : id ∈ db.disk.tables) :
    removeFile id db = .ok () (db.after [.removeTable id]) := by
  obtain ⟨file, hfile⟩ := Option.isSome_iff_exists.mp (AList.lookup_isSome.mpr h)
  have hread : db.disk.read id = .ok file := by rw [Disk.read, hfile]
  change EStateM.bind (lift (db.disk.read id)) (fun _ => emit (.removeTable id)) db = _
  rw [EStateM.bind, lift_eq hread]
  rfl

omit [FloatText] [Xxh3] [BloomSizing] in
theorem removeFiles_eq {ids : List SSTable} (hnodup : (ids.map SSTable.id).Nodup) {db : Database}
    (h : ∀ t ∈ ids, t.id ∈ db.disk.tables) :
    ids.forM (fun t => removeFile t.id) db = .ok () (db.after (ids.map fun t => .removeTable t.id)) := by
  induction ids generalizing db with
  | nil => simp [after, Disk.applyAll, pure, EStateM.pure, List.forM]
  | cons t ids ih =>
    obtain ⟨hnot, hnodup⟩ := List.nodup_cons.mp hnodup
    change EStateM.bind (removeFile t.id) (fun _ => ids.forM fun t => removeFile t.id) db = _
    rw [EStateM.bind, removeFile_eq (h t (List.mem_cons_self ..))]
    dsimp only
    rw [ih hnodup, after_after]
    · rfl
    · intro u hu
      refine AList.mem_erase.mpr ⟨fun heq => hnot ?_, h u (List.mem_cons_of_mem _ hu)⟩
      exact heq ▸ List.mem_map_of_mem hu

def compactOps (id : UInt32) (r : Run String Entry) (inputs : List SSTable) : List FileOp :=
  (.createTable id :: contentOps id (contentsOf 1024 r.entries)) ++ inputs.map fun t => .removeTable t.id

def inputs (db : Database) (level : Nat) : List SSTable :=
  db.leveledSstable.getD level [] ++ db.leveledSstable.getD (level + 1) []

def compacted (db : Database) (level : Nat) (r : Run String Entry) : Database :=
  { db.after (compactOps db.nextSstableId r (db.inputs level)) with
    nextSstableId := db.nextSstableId + 1
    leveledSstable := (db.leveledSstable.modify level
      (·.drop (db.leveledSstable.getD level []).length)).modify (level + 1) fun tables =>
        tables.drop (db.leveledSstable.getD (level + 1) []).length ++ [tableOf db.nextSstableId 1024 r] }

theorem readersOf_reads {d : Disk} {runs : UInt32 → Run String Entry} {tables : List SSTable}
    (h : ∀ t ∈ tables, StoredIn d t (runs t.id)) {i : Nat} {reader : SequentialReader}
    (hreader : (readersOf d tables (tables.map fun t => (runs t.id).entries.length))[i]? = some reader) :
    Reads reader (Merge.sources (tables.map fun t => runs t.id) i) := by
  rw [readersOf, List.zipWith_map_right, List.zipWith_self, List.getElem?_map] at hreader
  obtain ⟨t, ht, rfl⟩ := Option.map_eq_some_iff.mp hreader
  obtain ⟨file, -, hcontents, hholds⟩ := (h t (List.mem_of_getElem? ht)).read
  obtain ⟨tail, htail⟩ := hholds.drop_header
  rw [Merge.sources, List.getElem?_map, ht, Option.map_some]
  exact ⟨⟨tail, by rw [hcontents, htail]⟩, Nat.sub_zero _, hholds.fits⟩

theorem merge_returns {d : Disk} {runs : UInt32 → Run String Entry} {current next : List SSTable}
    (hstored : ∀ t ∈ current ++ next, StoredIn d t (runs t.id)) {E : Prop}
    (hE : ∀ es : List (String × Entry), es.Pairwise (fun a b => a.1 < b.1) →
      (∀ p ∈ es, ∃ t ∈ current ++ next, p ∈ (runs t.id).entries) → 2 ^ 64 ≤ tableSize 1024 es → E) :
    Returns (Merge.run current.length (readersOf d (current ++ next)
      ((current ++ next).map fun t => (runs t.id).entries.length))) E fun c => ∃ r : Run String Entry,
      c = contentsOf 1024 r.entries ∧ tableSize 1024 r.entries < 2 ^ 64 ∧ (∀ p ∈ r.entries, Fits p) ∧
      KWayMerge.Selects (mergePriority current.length)
        (Merge.sources ((current.map fun t => runs t.id) ++ next.map fun t => runs t.id)) r.entries := by
  rw [← List.map_append]
  set S := Merge.sources ((current ++ next).map fun t => runs t.id) with hS
  have hlen : (readersOf d (current ++ next) ((current ++ next).map fun t =>
      (runs t.id).entries.length)).length = (current ++ next).length := by
    rw [readersOf, List.length_zipWith, List.length_map, Nat.min_self]
  have hbound : ∀ i, S i ≠ [] → i < (current ++ next).length := fun i hi => by
    have := Merge.lt_of_sources_ne hi
    rwa [List.length_map] at this
  have hsource : ∀ p, (∃ i, p ∈ S i) → ∃ t ∈ current ++ next, p ∈ (runs t.id).entries := by
    rintro p ⟨i, hi⟩
    have hlt := hbound i (List.ne_nil_of_mem hi)
    rw [hS, Merge.sources, List.getElem?_map, List.getElem?_eq_getElem hlt, Option.map_some] at hi
    exact ⟨_, List.getElem_mem hlt, hi⟩
  have hsorted : ∀ i, (S i).Pairwise fun a b => a.1 < b.1 := Merge.sources_sorted _
  exact Merge.run_returns hsorted (fun i r => readersOf_reads hstored) (fun i hi => hlen ▸ hbound i hi)
    fun es hes hsrc => hE es hes fun p hp => hsource p (hsrc p hp)

theorem compact_selects {db : Database} {level : Nat} {runs : UInt32 → Run String Entry}
    (hlevel : level + 1 < db.leveledSstable.length) (hcurrent : db.leveledSstable.getD level [] ≠ [])
    (hstored : ∀ t ∈ db.inputs level, StoredIn db.disk t (runs t.id))
    (hnodup : ((db.inputs level).map SSTable.id).Nodup)
    (hfree : ∀ t ∈ db.inputs level, t.id ≠ db.nextSstableId) {E : Prop}
    (hE : ∀ es : List (String × Entry), es.Pairwise (fun a b => a.1 < b.1) →
      (∀ p ∈ es, ∃ t ∈ db.inputs level, p ∈ (runs t.id).entries) → 2 ^ 64 ≤ tableSize 1024 es → E) :
    Runs (compactLevel level) db E fun _ db' => ∃ r : Run String Entry, db' = db.compacted level r ∧
      tableSize 1024 r.entries < 2 ^ 64 ∧ (∀ p ∈ r.entries, Fits p) ∧
      KWayMerge.Selects (mergePriority (db.leveledSstable.getD level []).length)
        (Merge.sources (((db.leveledSstable.getD level []).map fun t => runs t.id) ++
          (db.leveledSstable.getD (level + 1) []).map fun t => runs t.id)) r.entries := by
  set current := db.leveledSstable.getD level [] with hcur
  set next := db.leveledSstable.getD (level + 1) [] with hnex
  have hinputs : db.inputs level = current ++ next := rfl
  rw [hinputs] at hstored hnodup hfree
  set id := db.nextSstableId with hid
  have hempty : current.isEmpty = false := by
    cases h : current with
    | nil => exact absurd h hcurrent
    | cons => rfl
  have hstored' : ∀ t ∈ current ++ next, StoredIn (db.disk.store id []) t (runs t.id) := fun t ht =>
    (hstored t ht).store (hfree t ht) []
  unfold compactLevel
  refine .step rfl ?_
  simp only [Nat.not_le.mpr hlevel, if_false, ← hcur, ← hnex, hempty]
  refine .step (lift_eq (openReaders_eq hstored) _) (.step (a := id) rfl (.step (emit_eq _ _) (.step rfl ?_)))
  refine (lift_runs (merge_returns hstored' hE) _).bind ?_
  rintro _ _ ⟨rfl, r, rfl, hsize, hfits, hselects⟩
  refine .step (writeContents_eq _ _ _) ?_
  rw [after_after]
  set db₁ := ({ db with nextSstableId := id + 1 } : Database).after
    ([.createTable id] ++ contentOps id (contentsOf 1024 r.entries)) with hdb₁
  have hdisk : db₁.disk = db.disk.store id (encode 1024 r.entries) := by
    rw [hdb₁, after, Disk.applyAll_append]
    exact applyAll_contentOps ..
  have hload : loadBloomFilter (db₁.disk.contents id) = .ok (tableOf id 1024 r).bloomFilter := by
    rw [hdisk, Disk.contents_store]
    exact (holds_encode hfits hsize id).loadBloomFilter
  refine .step rfl (.step (lift_eq hload _) (.step rfl ?_))
  refine .of_ok (removeFiles_eq hnodup fun t ht => ?_) ⟨r, ?_, hsize, hfits, hselects⟩
  · change t.id ∈ db₁.disk.tables
    obtain ⟨file, hfile, -⟩ := (hstored t ht).store (hfree t ht) (encode 1024 r.entries)
    rw [hdisk]
    exact AList.lookup_isSome.mp (hfile ▸ rfl)
  · rw [compacted, compactOps, hinputs]
    simp only [after, hdb₁, Disk.applyAll_append, List.append_assoc]
    rfl

/-- With at most one table below, it stands for its inputs. -/
theorem compact_runs {db : Database} {level : Nat} {runs : UInt32 → Run String Entry}
    (hlevel : level + 1 < db.leveledSstable.length) (hcurrent : db.leveledSstable.getD level [] ≠ [])
    (hnext : (db.leveledSstable.getD (level + 1) []).length ≤ 1)
    (hstored : ∀ t ∈ db.inputs level, StoredIn db.disk t (runs t.id))
    (hnodup : ((db.inputs level).map SSTable.id).Nodup)
    (hfree : ∀ t ∈ db.inputs level, t.id ≠ db.nextSstableId) {E : Prop}
    (hE : ∀ es : List (String × Entry), es.Pairwise (fun a b => a.1 < b.1) →
      (∀ p ∈ es, ∃ t ∈ db.inputs level, p ∈ (runs t.id).entries) → 2 ^ 64 ≤ tableSize 1024 es → E) :
    Runs (compactLevel level) db E fun _ db' => ∃ r : Run String Entry, db' = db.compacted level r ∧
      tableSize 1024 r.entries < 2 ^ 64 ∧ (∀ p ∈ r.entries, Fits p) ∧
      ∀ k, r.lookup k = Run.view (((db.leveledSstable.getD level []).reverse ++
        (db.leveledSstable.getD (level + 1) []).reverse).map fun t => runs t.id) k := by
  refine (compact_selects hlevel hcurrent hstored hnodup hfree hE).mono ?_
  rintro _ db' ⟨r, hdb', hsize, hfits, hselects⟩
  refine ⟨r, hdb', hsize, hfits, fun k => ?_⟩
  rw [List.map_append, List.map_reverse, List.map_reverse]
  refine Merge.lookup_of_single ?_ (by rwa [List.length_map]) k
  rwa [List.length_map]

omit [FloatText] [Xxh3] [BloomSizing] in
theorem levelsToCompact_eq {db : Database} {level0 level1 : List SSTable} {deep : List (List SSTable)}
    (hlevels : db.leveledSstable = level0 :: level1 :: deep)
    (hshort : ∀ level, (db.leveledSstable.getD (level + 1) []).length < db.sstableThreshold) :
    db.levelsToCompact = if db.sstableThreshold ≤ level0.length then [0] else [] := by
  have hdeep : ((List.range deep.length).map Nat.succ).filter (fun level =>
      decide (db.sstableThreshold ≤ (db.leveledSstable.getD level []).length)) = [] := by
    rw [List.filter_eq_nil_iff]
    intro level hlevel
    obtain ⟨level, -, rfl⟩ := List.mem_map.mp hlevel
    rw [decide_eq_true_eq]
    exact Nat.not_le.mpr (hshort level)
  have hlen : db.leveledSstable.length - 1 = deep.length + 1 := by rw [hlevels]; rfl
  have hfirst : db.leveledSstable.getD 0 [] = level0 := by rw [hlevels]; rfl
  rw [levelsToCompact, hlen, List.range_succ_eq_map, List.filter_cons, hdeep, hfirst]
  simp only [decide_eq_true_eq]

end Compaction
end Database
end KvRaft
