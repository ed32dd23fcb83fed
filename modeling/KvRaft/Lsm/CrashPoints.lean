import KvRaft.Lsm.Reopen

/-! A crash in the middle of a flush or a compaction. A table that has been created and has not got its
final header makes the directory unreadable; at all other points nothing is lost. -/

namespace KvRaft
open Outcome Table LogRecord

/-- Whether the table that has been created last has got its final header. -/
def finished (ops : List FileOp) : Bool :=
  ops.foldl (fun done op => match op with
    | .createTable _ => false
    | .finishTable .. => true
    | _ => done) true

theorem finished_append {ops : List FileOp} (h : finished ops = true) (ops' : List FileOp) :
    finished (ops ++ ops') = finished ops' := by
  rw [finished, List.foldl_append, show ops.foldl _ true = true from h]
  rfl

namespace Database
variable [FloatText] [Xxh3]

/-- The directory opens, and the database stands for the map of the commands. -/
def Recovers (config : Config) (cs : List Command) (d : Disk) : Prop :=
  ∃ db, openInDir d config = .ok db ∧ ∀ k, db.get k = .ok (Storage.fold cs k)

def RecoversIff (config : Config) (cs : List Command) (d : Disk) (whole : Bool) : Prop :=
  ∀ cs', Recovers config cs' d ↔ whole = true ∧ Storage.fold cs = Storage.fold cs'

section RecoversIff
variable {config : Config} {cs : List Command} {d : Disk} {whole : Bool}

theorem Recovers.iff (h : Recovers config cs d) (hwhole : whole = true) : RecoversIff config cs d whole := by
  intro cs'
  obtain ⟨db, hopen, hget⟩ := h
  constructor
  · rintro ⟨db', hopen', hget'⟩
    rw [hopen] at hopen'
    obtain rfl := Except.ok.inj hopen'
    exact ⟨hwhole, funext fun k => Except.ok.inj ((hget k).symm.trans (hget' k))⟩
  · rintro ⟨-, heq⟩
    exact ⟨db, hopen, heq ▸ hget⟩

theorem recoversIff_of_not (h : ∀ cs', ¬ Recovers config cs' d) (hwhole : whole = false) :
    RecoversIff config cs d whole := fun cs' =>
  iff_of_false (h cs') fun hc => Bool.false_ne_true (hwhole.symm.trans hc.1)

theorem RecoversIff.recovers_iff (h : RecoversIff config cs d whole) : Recovers config cs d ↔ whole = true :=
  (h cs).trans (and_iff_left rfl)

end RecoversIff

omit [Xxh3] in
theorem open_files {config : Config} (hlevel : 1 ≤ config.sstableLevel) (d : Disk) :
    Returns (openInDir d config) True fun _ => ∀ id ∈ d.tables, ∃ t, SSTable.openFile d id = .ok t := by
  set d₀ : Disk := { d with wal := (Logger.openFile d.wal).1 } with hd₀
  set db₀ : Database := { fresh config with logLen := (Logger.openFile d.wal).2, disk := d₀ } with hdb₀
  have hload : Returns db₀.loadSstables True fun _ => ∀ id ∈ fileIds d, ∃ t, SSTable.openFile d id = .ok t := by
    refine Returns.mono (Q := fun db => 1 ≤ db.leveledSstable.length ∧ db.disk = d₀ ∧
      ∀ id ∈ fileIds d, ∃ t, SSTable.openFile d id = .ok t) ?_ fun _ h => h.2.2
    refine Returns.foldlM (I := fun done (db : Database) => 1 ≤ db.leveledSstable.length ∧ db.disk = d₀ ∧
      ∀ id ∈ done, ∃ t, SSTable.openFile d id = .ok t) ?_ ?_
    · refine ⟨?_, rfl, fun id hid => absurd hid List.not_mem_nil⟩
      change 1 ≤ (List.replicate config.sstableLevel []).length
      rwa [List.length_replicate]
    · rintro done id rest db - ⟨hlen, hdisk, hdone⟩
      obtain ⟨level0, levels, hlevels⟩ := List.exists_cons_of_length_pos hlen
      rw [loadTable, hlevels, hdisk]
      cases hopen : SSTable.openFile d₀ id with
      | error e => trivial
      | ok t =>
        refine ⟨Nat.succ_pos _, rfl, fun id' hid' => ?_⟩
        rcases List.mem_append.mp hid' with hid' | hid'
        · exact hdone id' hid'
        · exact ⟨t, List.mem_singleton.mp hid' ▸ hopen⟩
  exact hload.bind fun db h => .of_ok rfl fun id hid => h id (mem_fileIds.mpr hid)

theorem not_recovers {config : Config} (hlevel : 1 ≤ config.sstableLevel) (cs : List Command) {d : Disk}
    {id : UInt32} {file : Bytes} {e : Fault} (hload : loadBloomFilter file = .error e) :
    ¬ Recovers config cs (d.store id file) := by
  rintro ⟨db, hopen, -⟩
  have hfiles := open_files hlevel (d.store id file)
  rw [hopen] at hfiles
  obtain ⟨t, ht⟩ := hfiles id ((AList.mem_insert _).mpr (Or.inl rfl))
  have hread : (d.store id file).read id = .ok file := by
    simp [Disk.read, Disk.store]
  rw [SSTable.openFile, hread] at ht
  change (loadBloomFilter file >>= fun bloomFilter => _) = _ at ht
  rw [hload] at ht
  cases ht

/-! The changes of files that write one table. -/

def tableOps (id : UInt32) (c : Contents) : List FileOp := .createTable id :: contentOps id c

variable [BloomSizing]

section TableOps
variable {d : Disk} {id : UInt32} {n : Nat} {es : List (String × Entry)}

theorem applyAll_tableOps : d.applyAll (tableOps id (contentsOf n es)) = d.store id (encode n es) :=
  applyAll_contentOps ..

omit [FloatText] [Xxh3] [BloomSizing] in
theorem tableOps_length (id : UInt32) (c : Contents) : (tableOps id c).length = c.file.length + 2 := by
  rw [tableOps, contentOps, List.length_cons, List.length_append, List.length_map, List.length_singleton]

omit [FloatText] [Xxh3] [BloomSizing] in
theorem tableOps_take (id : UInt32) (c : Contents) {j : Nat} (hj : j ≤ c.file.length) :
    (tableOps id c).take (j + 1) = .createTable id :: (c.file.take j).map (.appendTable id ·) := by
  rw [tableOps, contentOps, List.take_succ_cons, List.take_append_of_le_length (by rwa [List.length_map]),
    List.map_take]

omit [FloatText] [Xxh3] [BloomSizing] in
theorem finished_tableOps (id : UInt32) (c : Contents) : finished (tableOps id c) = true := by
  rw [finished, tableOps, contentOps, ← List.cons_append, List.foldl_append]
  rfl

omit [FloatText] [Xxh3] [BloomSizing] in
theorem not_finished_take (id : UInt32) (c : Contents) {j : Nat} (hj : j ≤ c.file.length) :
    finished ((tableOps id c).take (j + 1)) = false := by
  rw [tableOps_take id c hj, finished, List.foldl_cons]
  induction c.file.take j with
  | nil => rfl
  | cons bytes chunks ih => exact ih

theorem applyAll_take (d : Disk) (id : UInt32) {j : Nat} (hj : j ≤ (contentsOf n es).file.length) : ∃ file e,
    d.applyAll ((tableOps id (contentsOf n es)).take (j + 1)) = d.store id file ∧
      loadBloomFilter file = .error e := by
  have hfile : ((contentsOf n es).file.take j).flatten = [] ∨
      ∃ rest, ((contentsOf n es).file.take j).flatten = writeHeader emptyHeader ++ rest := by
    cases j with
    | zero => exact Or.inl rfl
    | succ j => exact Or.inr ⟨_, rfl⟩
  obtain ⟨e, he⟩ := loadBloomFilter_unfinished hfile
  refine ⟨_, e, ?_, he⟩
  rw [tableOps_take _ _ hj]
  change (d.store id []).applyAll _ = _
  rw [Disk.applyAll_appendTable, List.nil_append]

end TableOps

/-! The crash points of a flush and of a compaction. -/

section Crash
variable {config : Config} {cs : List Command} {runs : UInt32 → Run String Entry} {db : Database}

theorem Tidy.recovers (h : Tidy db) (href : Refines cs runs db) (hlevel : 1 ≤ config.sstableLevel) :
    Recovers config cs db.disk := by
  obtain ⟨db', hopen, hget⟩ := h.reopen href hlevel
  exact ⟨db', hopen, fun k => by rw [hget, href.get_eq]⟩

/-- The header of an empty table goes to the file first, and the file is then created anew. -/
theorem flushOps_eq (id : UInt32) (r : Run String Entry) : flushOps id r =
    .createTable id :: .appendTable id (writeHeader emptyHeader) ::
      tableOps id (contentsOf r.entries.length r.entries) := rfl

theorem finished_flushOps (id : UInt32) (r : Run String Entry) : finished (flushOps id r) = true :=
  finished_tableOps id _

theorem flush_unfinished (hlevel : 1 ≤ config.sstableLevel) (id : UInt32) (r : Run String Entry) (d : Disk) {m : Nat}
    (hpos : 1 ≤ m) (hm : m < (flushOps id r).length) :
    (∀ cs, ¬ Recovers config cs (d.applyAll ((flushOps id r).take m))) ∧ finished ((flushOps id r).take m) = false := by
  rw [flushOps_eq, List.length_cons, List.length_cons, tableOps_length] at hm
  rw [flushOps_eq]
  obtain ⟨e₀, hempty⟩ := loadBloomFilter_unfinished (Or.inl rfl)
  obtain ⟨e₁, hheader⟩ := loadBloomFilter_unfinished (Or.inr ⟨[], (List.append_nil _).symm⟩)
  have hstart : (d.store id []).apply (.appendTable id (writeHeader emptyHeader)) =
      d.store id (writeHeader emptyHeader) := by
    rw [Disk.apply_appendTable, List.nil_append]
  match m, hpos with
  | 1, _ => exact ⟨fun cs => not_recovers hlevel cs hempty, rfl⟩
  | 2, _ =>
    refine ⟨fun cs => ?_, rfl⟩
    change ¬ Recovers config cs ((d.store id []).apply (.appendTable id (writeHeader emptyHeader)))
    rw [hstart]
    exact not_recovers hlevel cs hheader
  | j + 3, _ =>
    have hj : j ≤ (contentsOf r.entries.length r.entries).file.length := by omega
    refine ⟨fun cs => ?_, not_finished_take id _ hj⟩
    obtain ⟨file, e, hdisk, hload⟩ := applyAll_take (d.store id (writeHeader emptyHeader)) id hj
    change ¬ Recovers config cs (((d.store id []).apply (.appendTable id (writeHeader emptyHeader))).applyAll
      ((tableOps id _).take (j + 1)))
    rw [hstart, hdisk, Disk.store_store]
    exact not_recovers hlevel cs hload

theorem Tidy.flush_crash (h : Tidy db) (href : Refines cs runs db) (hlevel : 1 ≤ config.sstableLevel)
    (hwrap : db.nextSstableId < db.nextSstableId + 1) (hlen : 1 ≤ db.leveledSstable.length)
    (hfits : ∀ p ∈ (memRun db.data).entries, Fits p)
    (hsize : tableSize (memRun db.data).entries.length (memRun db.data).entries < 2 ^ 64) (m : Nat) :
    RecoversIff config cs
      (db.disk.applyAll ((flushOps db.nextSstableId (memRun db.data) ++ [FileOp.truncateWal]).take m))
      (finished ((flushOps db.nextSstableId (memRun db.data) ++ [FileOp.truncateWal]).take m)) := by
  obtain ⟨level0, levels, hlevels⟩ := List.exists_cons_of_length_pos hlen
  set r := memRun db.data with hr
  set id := db.nextSstableId with hid
  rcases Nat.lt_or_ge m (flushOps id r).length with hm | hm
  · rw [List.take_append_of_le_length hm.le]
    rcases Nat.eq_zero_or_pos m with rfl | hpos
    · exact (h.recovers href hlevel).iff rfl
    · obtain ⟨hrec, hfin⟩ := flush_unfinished hlevel id r db.disk hpos hm
      exact recoversIff_of_not hrec hfin
  · rw [List.take_append, List.take_of_length_le hm, finished_append (finished_flushOps id r),
      Disk.applyAll_append, applyAll_flushOps]
    cases m - (flushOps id r).length with
    | succ _ =>
      -- the log is empty, as after the whole flush
      have htidy := h.flush hwrap hlevels r
      have hflush := href.flush (h.nextFree none) hfits hsize
      rw [List.take_succ_cons, List.take_nil]
      have hdisk : (db.flushed r).disk =
          (db.disk.store id (encode r.entries.length r.entries)).applyAll [.truncateWal] := by
        rw [flushed_cons hlevels]
        change db.disk.applyAll (_ ++ [.truncateWal]) = _
        rw [Disk.applyAll_append, applyAll_flushOps]
      exact (hdisk ▸ htidy.recovers hflush hlevel : Recovers config cs _).iff rfl
    | zero =>
      -- the table is there and the log still has its commands
      set pub : Database := { db with
        leveledSstable := (level0 ++ [tableOf id r.entries.length r]) :: levels
        nextSstableId := id + 1
        disk := db.disk.store id (encode r.entries.length r.entries) } with hpub
      have hfirst : pub.newestFirst = tableOf id r.entries.length r :: db.newestFirst := by
        rw [← flushed_newestFirst hlevels, newestFirst, newestFirst, flushed_cons hlevels]
      have htidy : Tidy pub := by
        refine h.publish hwrap rfl hfirst (List.Sublist.refl _) rfl (fun id' => ?_) h.wal
        change id' ∈ db.disk.tables.insert _ _ ↔ _
        rw [AList.mem_insert, h.files]
      have href' : Refines cs (Function.update runs id r) pub :=
        href.published (h.nextFree none) hfits hsize hlevels (Or.inl rfl) rfl rfl
      exact (htidy.recovers href' hlevel).iff rfl

omit [FloatText] [Xxh3] [BloomSizing] in
theorem finished_removeTables (ts : List SSTable) : finished (ts.map fun t => .removeTable t.id) = true := by
  induction ts with
  | nil => rfl
  | cons t ts ih => exact ih

theorem Tidy.merged_recovers (h : Tidy db) (href : Refines cs runs db) (hlevel : 1 ≤ config.sstableLevel) {level : Nat}
    (hlt : level + 1 < db.leveledSstable.length) (habove : ∀ j < level, db.leveledSstable.getD j [] = [])
    {r : Run String Entry} (hfits : ∀ p ∈ r.entries, Fits p) (hsize : tableSize 1024 r.entries < 2 ^ 64)
    (hview : ∀ k, r.lookup k = Run.view (((db.leveledSstable.getD level []).reverse ++
      (db.leveledSstable.getD (level + 1) []).reverse).map fun t => runs t.id) k) {removed : List SSTable}
    (hremoved : removed ⊆ db.inputs level) :
    Recovers config cs ((db.disk.store db.nextSstableId (encode 1024 r.entries)).applyAll
      (removed.map fun t => .removeTable t.id)) := by
  obtain ⟨above, x, y, below, hlevels, rfl⟩ := split_levels hlt
  rw [getD_current hlevels, getD_next hlevels] at hview
  have hfirst := newestFirst_split hlevels
  rw [flatten_above hlevels habove, List.nil_append] at hfirst
  set id := db.nextSstableId with hid
  set deeper := (below.map List.reverse).flatten with hdeeper
  set kept := (x.reverse ++ y.reverse).filter fun t => ∀ u ∈ removed, u.id ≠ t.id with hkept
  have hrest : ∀ t, t ∈ kept ++ deeper ↔ t ∈ db.newestFirst ∧ ∀ u ∈ removed, u.id ≠ t.id := fun t => by
    rw [hfirst, List.mem_append, List.mem_append, hkept, List.mem_filter, decide_eq_true_eq]
    refine ⟨?_, fun ht => ht.1.imp_left fun hx => ⟨hx, ht.2⟩⟩
    rintro (ht | ht)
    · exact ⟨Or.inl ht.1, ht.2⟩
    · exact ⟨Or.inr ht, fun u hu => inputs_apart hlevels h.nodup (List.mem_append_right _ ht) (hremoved hu)⟩
  have hsub : (kept ++ deeper).Sublist db.newestFirst := by
    rw [hfirst]
    exact List.filter_sublist.append (List.Sublist.refl _)
  have hfree : ∀ t ∈ db.newestFirst, t.id ≠ id := h.nextFree none
  have hgone : ∀ u ∈ removed, u.id ≠ id := fun u hu => hfree u (mem_of_inputs hlt (hremoved hu))
  set disk := (db.disk.store id (encode 1024 r.entries)).applyAll (removed.map fun t => .removeTable t.id) with hdisk
  have hfalling : (tableOf id 1024 r :: (kept ++ deeper)).Pairwise fun a b => b.id < a.id :=
    List.pairwise_cons.mpr ⟨fun t ht => h.below t (hsub.subset ht), h.falling.sublist hsub⟩
  have hfiles : ∀ i, i ∈ disk.tables ↔ ∃ t ∈ tableOf id 1024 r :: (kept ++ deeper), t.id = i := fun i => by
    rw [hdisk, mem_removeTables]
    change i ∈ db.disk.tables.insert _ _ ∧ _ ↔ _
    rw [AList.mem_insert, h.files]
    simp only [List.mem_cons, exists_eq_or_imp, hrest]
    constructor
    · rintro ⟨rfl | ⟨t, ht, rfl⟩, hne⟩
      · exact Or.inl rfl
      · exact Or.inr ⟨t, ⟨ht, hne⟩, rfl⟩
    · rintro (rfl | ⟨t, ⟨ht, hne⟩, rfl⟩)
      · exact ⟨Or.inl rfl, hgone⟩
      · exact ⟨Or.inr ⟨t, ht, rfl⟩, hne⟩
  have hruns : ∀ t ∈ kept ++ deeper, Function.update runs id r t.id = runs t.id := fun t ht =>
    Function.update_of_ne (hfree t (hsub.subset ht)) ..
  have hself : Function.update runs id r (tableOf id 1024 r).id = r := Function.update_self ..
  have hstored : ∀ t ∈ tableOf id 1024 r :: (kept ++ deeper), StoredIn disk t (Function.update runs id r t.id) := by
    intro t ht
    rcases List.mem_cons.mp ht with rfl | ht
    · rw [hself]
      exact ⟨_, (lookup_removeTables _ _ hgone).trans (AList.lookup_insert _), holds_encode hfits hsize id⟩
    · obtain ⟨hlive, hne⟩ := (hrest t).mp ht
      obtain ⟨file, hfile, hholds⟩ := href.stored t hlive
      rw [hruns t ht]
      refine ⟨file, ?_, hholds⟩
      rw [hdisk, lookup_removeTables _ _ hne]
      exact (AList.lookup_insert_ne (hfree t hlive)).trans hfile
  obtain ⟨rs, hrs, hwal, hdata⟩ := h.wal
  have hwal' : disk.wal = bytesOf rs := (wal_removeTables ..).trans hwal
  obtain ⟨db', hopen, hget⟩ := open_tables hlevel hfalling hfiles hstored hrs hwal'
  refine ⟨db', hopen, fun k => ?_⟩
  have hmap : (kept ++ deeper).map (fun t => Function.update runs id r t.id) =
      kept.map (fun t => runs t.id) ++ deeper.map fun t => runs t.id := by
    rw [List.map_congr_left hruns, List.map_append]
  rw [hget, hdata, List.map_cons, hself, hmap, Run.view_over (hview k) (List.map_subset _ (List.filter_subset_self _)),
    ← List.map_append, ← hfirst, href.view, fold_eq_visible]

theorem Tidy.compact_crash (h : Tidy db) (href : Refines cs runs db) (hlevel : 1 ≤ config.sstableLevel)
    {level : Nat} (hlt : level + 1 < db.leveledSstable.length)
    (habove : ∀ j < level, db.leveledSstable.getD j [] = []) {r : Run String Entry}
    (hfits : ∀ p ∈ r.entries, Fits p) (hsize : tableSize 1024 r.entries < 2 ^ 64)
    (hview : ∀ k, r.lookup k = Run.view (((db.leveledSstable.getD level []).reverse ++
      (db.leveledSstable.getD (level + 1) []).reverse).map fun t => runs t.id) k) (m : Nat) :
    RecoversIff config cs (db.disk.applyAll ((compactOps db.nextSstableId r (db.inputs level)).take m))
      (finished ((compactOps db.nextSstableId r (db.inputs level)).take m)) := by
  set id := db.nextSstableId with hid
  have hops : compactOps id r (db.inputs level) = tableOps id (contentsOf 1024 r.entries) ++
      (db.inputs level).map fun t => .removeTable t.id := rfl
  rw [hops]
  rcases Nat.lt_or_ge m (tableOps id (contentsOf 1024 r.entries)).length with hm | hm
  · rw [List.take_append_of_le_length hm.le]
    rw [tableOps_length] at hm
    match m with
    | 0 => exact (h.recovers href hlevel).iff rfl
    | j + 1 =>
      have hj : j ≤ (contentsOf 1024 r.entries).file.length := by omega
      obtain ⟨file, e, hdisk, hload⟩ := applyAll_take db.disk id hj
      rw [hdisk, not_finished_take id _ hj]
      exact recoversIff_of_not (fun cs' => not_recovers hlevel cs' hload) rfl
  · rw [List.take_append, List.take_of_length_le hm, finished_append (finished_tableOps id _), Disk.applyAll_append,
      applyAll_tableOps, ← List.map_take]
    exact (h.merged_recovers href hlevel hlt habove hfits hsize hview (List.take_subset ..)).iff
      (finished_removeTables _)

/-- The state `s` in the middle of a call that began with the directory `d`: every crash point so far but
the first recovers, unless it is before the final header of a table. -/
structure CrashSafe (config : Config) (cs : List Command) (d : Disk) (s : Database) : Prop where
  refines : ∃ runs, Refines cs runs s
  tidy : TidyWith config s
  disk : s.disk = d.applyAll s.journal
  done : finished s.journal = true
  points : ∀ n, 1 ≤ n → RecoversIff config cs (d.applyAll (s.journal.take n)) (finished (s.journal.take n))

section CrashSafe
variable {d : Disk} {s s' : Database}

theorem CrashSafe.extend (h : CrashSafe config cs d s) {ops : List FileOp} (hjournal : s'.journal = s.journal ++ ops)
    (hdisk : s'.disk = s.disk.applyAll ops) (hops : finished ops = true)
    (hpoints : ∀ m, RecoversIff config cs (s.disk.applyAll (ops.take m)) (finished (ops.take m)))
    (href : ∃ runs, Refines cs runs s') (htidy : TidyWith config s') : CrashSafe config cs d s' where
  refines := href
  tidy := htidy
  disk := by rw [hdisk, h.disk, hjournal, Disk.applyAll_append]
  done := by rw [hjournal, finished_append h.done, hops]
  points n hn := by
    rw [hjournal]
    rcases Nat.le_total n s.journal.length with hle | hle
    · rw [List.take_append_of_le_length hle]
      exact h.points n hn
    · rw [List.take_append, List.take_of_length_le hle, finished_append h.done, Disk.applyAll_append, ← h.disk]
      exact hpoints _

theorem CrashSafe.written (h : TidyWith config db) (href : Refines cs runs db) (hlevel : 1 ≤ config.sstableLevel)
    {c : Command} (hc : c.Fits) :
    CrashSafe config (cs ++ [c]) db.disk (({ db with journal := [] } : Database).written c) := by
  have htidy := (TidyWith.alongside config).write db c hc h
  refine ⟨⟨runs, href.write c⟩, htidy, rfl, rfl, fun n hn => ?_⟩
  obtain ⟨n, rfl⟩ := Nat.exists_eq_add_of_le' hn
  have htake : (({ db with journal := [] } : Database).written c).journal.take (n + 1) =
      [.appendWal (LogRecord.new db.logLen c).writeTo] := by
    change List.take (n + 1) [_] = _
    rw [List.take_succ_cons, List.take_nil]
  rw [htake]
  exact (htidy.recovers (href.write c) hlevel).iff rfl

theorem CrashSafe.flush (h : CrashSafe config cs d s) (hlevel : 1 ≤ config.sstableLevel) (hfits : ∀ c ∈ cs, c.Fits)
    (hdata : s.data.entries ≠ []) (horder : s.InOrder none) :
    Runs flushMemoryToDisk s True fun _ => CrashSafe config cs d := by
  obtain ⟨runs, href⟩ := h.refines
  have hmem : ∀ p ∈ (memRun s.data).entries, Fits p := fun p hp => hfits _ (memRun_from href p hp)
  refine (flush_runs s hdata hmem fun _ => trivial).mono ?_
  rintro _ _ ⟨rfl, hsize⟩
  obtain ⟨level0, levels, hlevels⟩ := List.exists_cons_of_length_pos h.tidy.levels
  have hops : finished (flushOps s.nextSstableId (memRun s.data) ++ [.truncateWal]) = true := by
    rw [finished_append (finished_flushOps ..)]
    rfl
  refine h.extend ?_ ?_ hops (h.tidy.flush_crash href hlevel horder h.tidy.levels hmem hsize)
    ⟨_, href.flush (h.tidy.nextFree none) hmem hsize⟩ (h.tidy.flush horder _)
  · rw [flushed_cons hlevels]
    rfl
  · rw [flushed_cons hlevels]
    rfl

theorem CrashSafe.compact (h : CrashSafe config cs d s) (hlevel : 1 ≤ config.sstableLevel) {level : Nat}
    (hlt : level + 1 < s.leveledSstable.length) (hcurrent : s.leveledSstable.getD level [] ≠ [])
    (horder : s.InOrder (some level)) : Runs (compactLevel level) s True fun _ => CrashSafe config cs d := by
  obtain ⟨runs, href⟩ := h.refines
  have hinputs : ∀ t ∈ s.inputs level, t ∈ s.newestFirst := fun t => mem_of_inputs hlt
  have hfree := h.tidy.nextFree none
  refine (compact_runs hlt hcurrent (href.next_single level) (fun t ht => href.stored t (hinputs t ht))
    (href.inputs_nodup hlt) (fun t ht => hfree t (hinputs t ht)) fun _ _ _ _ => trivial).mono ?_
  rintro _ _ ⟨r, rfl, hsize, hfits, hview⟩
  have hops : finished (compactOps s.nextSstableId r (s.inputs level)) = true := by
    rw [show compactOps s.nextSstableId r (s.inputs level) = tableOps s.nextSstableId _ ++ _ from rfl,
      finished_append (finished_tableOps ..)]
    exact finished_removeTables _
  exact h.extend rfl rfl hops (h.tidy.compact_crash href hlevel hlt horder.2 hfits hsize hview)
    ⟨_, href.merged hfree hlt hfits hsize hview (compacted_merged level r fun t ht => hfree t (hinputs t ht))⟩
    (h.tidy.compact horder hlt r)

theorem exec_crashSafe (h : TidyWith config db) (href : Refines cs runs db) (hlevel : 1 ≤ config.sstableLevel)
    {c : Command} (hfits : ∀ c' ∈ cs ++ [c], c'.Fits) (horder : db.CreatesIn InOrder c) :
    Runs (exec c) db True fun _ => CrashSafe config (cs ++ [c]) db.disk :=
  exec_runs (P := InOrder) (.written h href hlevel (hfits c (List.mem_append_right _ (List.mem_singleton_self c))))
    (fun _ hs hdata hnone => hs.flush hlevel hfits hdata hnone)
    (fun _ _ hs hlt hcurrent hsome => hs.compact hlevel hlt hcurrent hsome) horder

end CrashSafe

/-! With a threshold of two or more only level 0 is ever compacted. -/

def NoWrap (db : Database) (_ : Option Nat) : Prop := db.nextSstableId < db.nextSstableId + 1

instance (db : Database) (level : Option Nat) : Decidable (db.NoWrap level) := inferInstanceAs (Decidable (_ < _))

theorem inOrder_of_noWrap (h : TidyWith config db) (href : Refines cs runs db) (hlevel : 1 ≤ config.sstableLevel)
    (hthreshold : 2 ≤ config.sstableThreshold) {c : Command} (hfits : ∀ c' ∈ cs ++ [c], c'.Fits)
    (hwrap : db.CreatesIn NoWrap c) : db.CreatesIn InOrder c := by
  obtain ⟨hdue, hrest⟩ := hwrap
  have hflush := maybeFlush_runs (P := InOrder) (written_nonempty { db with journal := [] } c)
    (CrashSafe.written h href hlevel (hfits c (List.mem_append_right _ (List.mem_singleton_self c)))) hdue
    fun _ hs hdata hnone => hs.flush hlevel hfits hdata hnone
  refine ⟨hdue, hrest.mono fun s heq hcompact => ?_⟩
  have hs := hflush.of_eq_ok heq
  obtain ⟨runs', href'⟩ := hs.refines
  obtain ⟨level0, below, hlevels⟩ := List.exists_cons_of_length_pos hs.tidy.levels
  cases below with
  | nil =>
    have hnone : s.levelsToCompact = [] := by
      rw [levelsToCompact, hlevels]
      rfl
    rw [hnone]
    trivial
  | cons level1 deep =>
    have hshort : ∀ level, (s.leveledSstable.getD (level + 1) []).length < s.sstableThreshold := fun level => by
      rw [hs.tidy.threshold]
      exact (href'.next_single level).trans_lt hthreshold
    rw [levelsToCompact_eq hlevels hshort] at hcompact ⊢
    split_ifs at hcompact ⊢
    · exact ⟨fun hlt hcurrent => ⟨hcompact.1 hlt hcurrent, fun j hj => absurd hj (Nat.not_lt_zero j)⟩,
        hcompact.2.mono fun _ _ _ => trivial⟩
    · trivial

theorem run_inOrder (h : TidyWith config db) (href : Refines cs runs db) (hlevel : 1 ≤ config.sstableLevel)
    (hthreshold : 2 ≤ config.sstableThreshold) {cs' : List Command} (hfits : ∀ c ∈ cs ++ cs', c.Fits)
    (hwrap : RunCreatesIn NoWrap cs' db) : RunCreatesIn InOrder cs' db := by
  induction cs' generalizing cs runs db with
  | nil => trivial
  | cons c cs' ih =>
    rw [← List.singleton_append, ← List.append_assoc] at hfits
    have hone : ∀ c' ∈ cs ++ [c], c'.Fits := fun c' hc' => hfits c' (List.mem_append_left _ hc')
    have horder := inOrder_of_noWrap h href hlevel hthreshold hone hwrap.1
    have hexec := href.exec (TidyWith.alongside config) h hone horder
    refine ⟨horder, hwrap.2.mono fun db' heq hrest => ?_⟩
    obtain ⟨⟨runs', href'⟩, h'⟩ := hexec.of_eq_ok heq
    exact ih h' href' hfits hrest

end Crash
end Database

section Run
variable [FloatText] [Xxh3] [BloomSizing]
open Database

theorem fresh_inOrder {config : Config} (hlevel : 1 ≤ config.sstableLevel) (hthreshold : 2 ≤ config.sstableThreshold)
    {cs : List Command} (hfits : ∀ c ∈ cs, c.Fits) (hwrap : RunCreatesIn NoWrap cs (.fresh config)) :
    RunCreatesIn InOrder cs (.fresh config) :=
  run_inOrder (TidyWith.fresh hlevel) (Refines.fresh config fun _ => ⟨[], .nil⟩) hlevel hthreshold hfits hwrap

section Points
variable {config : Config} (hlevel : 1 ≤ config.sstableLevel) {cs : List Command} {c : Command} {db db' : Database}
include hlevel

theorem fresh_recovers (hfits : ∀ c ∈ cs, c.Fits) (horder : RunCreatesIn InOrder cs (.fresh config))
    (hrun : execAll cs (.fresh config) = .ok () db) : Recovers config cs db.disk := by
  obtain ⟨⟨runs, href⟩, htidy⟩ :=
    (fresh_execAll hfits (TidyWith.alongside config) (.fresh hlevel) horder).of_eq_ok hrun
  exact htidy.recovers href hlevel

theorem fresh_points (hfits : ∀ c' ∈ cs ++ [c], c'.Fits) (horder : RunCreatesIn InOrder (cs ++ [c]) (.fresh config))
    (hrun : execAll cs (.fresh config) = .ok () db) (hexec : exec c db = .ok () db') {n : Nat} (hn : 1 ≤ n) :
    RecoversIff config (cs ++ [c]) (db.disk.applyAll (db'.journal.take n)) (finished (db'.journal.take n)) := by
  have hkept := fresh_execAll (fun c' hc' => hfits c' (List.mem_append_left _ hc')) (TidyWith.alongside config)
    (.fresh hlevel) horder.of_append
  obtain ⟨⟨runs, href⟩, htidy⟩ := hkept.of_eq_ok hrun
  exact ((exec_crashSafe htidy href hlevel hfits (horder.last hrun)).of_eq_ok hexec).points n hn

end Points

/-- The directory that a crash leaves after some changes of files of a call, that of the log included, recovers
the commands up to this call if and only if no table is before its final header. -/
theorem crash_recovers_iff {config : Config} (hlevel : 1 ≤ config.sstableLevel)
    (hthreshold : 2 ≤ config.sstableThreshold) {cs : List Command} {c : Command}
    (hfits : ∀ c' ∈ cs ++ [c], c'.Fits) (hwrap : RunCreatesIn NoWrap (cs ++ [c]) (.fresh config))
    {db db' : Database} (hrun : execAll cs (.fresh config) = .ok () db) (hexec : exec c db = .ok () db') {n : Nat}
    (hn : 1 ≤ n) : Recovers config (cs ++ [c]) (db.disk.applyAll (db'.journal.take n)) ↔
      finished (db'.journal.take n) = true :=
  (fresh_points hlevel hfits (fresh_inOrder hlevel hthreshold hfits hwrap) hrun hexec hn).recovers_iff

end Run

section Concrete
open scoped Concrete

/-- The second call flushes and merges the two tables; the first of them is removed by the last change but one. -/
theorem merge_journal : Database.Then (Database.execAll [.set "a" (.int 1)]) (.fresh ⟨2, 1, 2⟩) fun db =>
    Database.Then (Database.exec (.set "b" (.int 2))) db fun db' => db'.journal.length = 19 ∧
      db'.journal[17]? = some (.removeTable 0) ∧ finished (db'.journal.take 18) = true := by
  decide +kernel

theorem crash_recovers_removal : ∃ db db', Database.execAll [.set "a" (.int 1)] (.fresh ⟨2, 1, 2⟩) = .ok () db ∧
    Database.exec (.set "b" (.int 2)) db = .ok () db' ∧ db'.journal[17]? = some (.removeTable 0) ∧
    Database.Recovers ⟨2, 1, 2⟩ [.set "a" (.int 1), .set "b" (.int 2)]
      (db.disk.applyAll (db'.journal.take 18)) := by
  have hfits : ∀ c ∈ [Command.set "a" (.int 1)] ++ [.set "b" (.int 2)], c.Fits := by decide
  have hwrap : Database.RunCreatesIn Database.NoWrap ([Command.set "a" (.int 1)] ++ [.set "b" (.int 2)])
      (.fresh ⟨2, 1, 2⟩) := by decide +kernel
  have htidy : Database.TidyWith ⟨2, 1, 2⟩ (.fresh ⟨2, 1, 2⟩) := .fresh (by decide)
  have horder := fresh_inOrder (by decide) (by decide) hfits hwrap
  obtain ⟨db, -, hrun, -⟩ := Database.fresh_ends (fun c hc => hfits c (List.mem_append_left _ hc))
    (Database.TidyWith.alongside _) htidy horder.of_append (by decide)
  obtain ⟨db', -, hboth, -⟩ := Database.fresh_ends hfits (Database.TidyWith.alongside _) htidy horder (by decide)
  rw [Database.execAll_append hrun] at hboth
  obtain ⟨db₁, hexec, -⟩ := Database.execAll_cons hboth
  obtain ⟨-, hremove, hdone⟩ := (merge_journal.of_eq hrun).of_eq hexec
  exact ⟨db, db₁, hrun, hexec, hremove,
    (crash_recovers_iff (by decide) (by decide) hfits hwrap hrun hexec (by decide)).mpr hdone⟩

theorem created_journal : Database.Then (Database.exec (.set "a" (.int 1))) (.fresh ⟨2, 1, 2⟩) fun db' =>
    db'.journal[1]? = some (.createTable 0) ∧
    (Database.openInDir (Disk.empty.applyAll (db'.journal.take 2)) ⟨2, 1, 2⟩).toOption.isNone = true := by
  decide +kernel

/-- The log has the command, but the directory does not open. -/
theorem crash_refuses_directory : ∃ db', Database.exec (.set "a" (.int 1)) (.fresh ⟨2, 1, 2⟩) = .ok () db' ∧
    db'.journal[1]? = some (.createTable 0) ∧
    ¬ Database.Recovers ⟨2, 1, 2⟩ [.set "a" (.int 1)] (Disk.empty.applyAll (db'.journal.take 2)) := by
  have hfits : ∀ c ∈ [Command.set "a" (.int 1)], c.Fits := by decide
  obtain ⟨db, -, hrun, -⟩ := Database.fresh_refines ⟨2, 1, 2⟩ hfits (by decide +kernel) (by decide)
  obtain ⟨db', hexec, -⟩ := Database.execAll_cons hrun
  obtain ⟨hcreate, hnone⟩ := created_journal.of_eq hexec
  refine ⟨db', hexec, hcreate, ?_⟩
  rintro ⟨db₁, hopen, -⟩
  rw [hopen] at hnone
  cases hnone

end Concrete
end KvRaft
