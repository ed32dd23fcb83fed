import KvRaft.Lsm.Levels
import KvRaft.Lsm.TornWal

/-! Opening a directory again. Levels are not stored: all tables come back to level 0, in the order of
their ids. -/

namespace KvRaft
open Outcome Table LogRecord

namespace Database
variable [FloatText]

section Opening
variable {runs : UInt32 → Run String Entry}

theorem openFile_stored [Xxh3] [BloomSizing] {d : Disk} {t : SSTable} {r : Run String Entry} (h : StoredIn d t r) :
    SSTable.openFile d t.id = .ok t := by
  obtain ⟨file, hread, -, hholds⟩ := h.read
  rw [SSTable.openFile, hread]
  change (loadBloomFilter file >>= fun bloomFilter => _) = _
  rw [hholds.loadBloomFilter]
  change (loadIndex file >>= fun index => _) = _
  rw [hholds.loadIndex]
  rfl

theorem loadTables_stored [Xxh3] [BloomSizing] {ts level0 : List SSTable} {levels : List (List SSTable)} {db : Database}
    (hlevels : db.leveledSstable = level0 :: levels) (hstored : ∀ t ∈ ts, StoredIn db.disk t (runs t.id)) :
    ∃ n, (ts.map SSTable.id).foldlM loadTable db =
      .ok { db with leveledSstable := (level0 ++ ts) :: levels, nextSstableId := n } := by
  induction ts generalizing db level0 with
  | nil =>
    refine ⟨db.nextSstableId, ?_⟩
    rw [List.append_nil, ← hlevels]
    rfl
  | cons t ts ih =>
    have hload : loadTable db t.id = .ok { db with
        leveledSstable := (level0 ++ [t]) :: levels
        nextSstableId := max db.nextSstableId (t.id + 1) } := by
      rw [loadTable, hlevels]
      change (SSTable.openFile db.disk t.id >>= fun t' => _) = _
      rw [openFile_stored (hstored t (List.mem_cons_self ..))]
      rfl
    set db₁ : Database := { db with
      leveledSstable := (level0 ++ [t]) :: levels
      nextSstableId := max db.nextSstableId (t.id + 1) } with hdb₁
    have hlevels₁ : db₁.leveledSstable = (level0 ++ [t]) :: levels := rfl
    obtain ⟨n, hrest⟩ := ih hlevels₁ fun u hu => hstored u (List.mem_cons_of_mem _ hu)
    refine ⟨n, ?_⟩
    rw [List.map_cons, List.foldlM_cons, hload]
    rw [List.append_assoc] at hrest
    exact hrest

omit [FloatText] in
theorem fileIds_eq {d : Disk} {ts : List SSTable} (hfalling : ts.Pairwise fun a b => b.id < a.id)
    (hfiles : ∀ id, id ∈ d.tables ↔ ∃ t ∈ ts, t.id = id) : fileIds d = ts.reverse.map SSTable.id := by
  have hincreasing : (ts.reverse.map SSTable.id).Pairwise (· < ·) :=
    List.pairwise_map.mpr (List.pairwise_reverse.mpr hfalling)
  have hmem : ∀ id, id ∈ fileIds d ↔ id ∈ ts.reverse.map SSTable.id := fun id => by
    rw [mem_fileIds, hfiles, List.mem_map]
    simp only [List.mem_reverse]
  have hperm : (fileIds d).Perm (ts.reverse.map SSTable.id) :=
    (List.perm_ext_iff_of_nodup ((fileIds_increasing d).imp UInt32.ne_of_lt)
      (hincreasing.imp UInt32.ne_of_lt)).mpr hmem
  exact hperm.eq_of_pairwise (fun a b _ _ hab hba => absurd (UInt32.lt_trans hab hba) (UInt32.lt_irrefl a))
    (fileIds_increasing d) hincreasing

theorem open_tables [Xxh3] [BloomSizing] {config : Config} (hlevel : 1 ≤ config.sstableLevel) {disk : Disk}
    {ts : List SSTable}
    (hfalling : ts.Pairwise fun a b => b.id < a.id) (hfiles : ∀ id, id ∈ disk.tables ↔ ∃ t ∈ ts, t.id = id)
    (hstored : ∀ t ∈ ts, StoredIn disk t (runs t.id)) {rs : List LogRecord} (hrs : ∀ r ∈ rs, Logged r)
    (hwal : disk.wal = bytesOf rs) :
    ∃ db, openInDir disk config = .ok db ∧ ∀ k, db.get k = .ok (visible ((lastEntry (rs.map LogRecord.command) k).or
      (Run.view (ts.map fun t => runs t.id) k))) := by
  obtain ⟨hopen, -⟩ := openFile_short hrs [] (by decide)
  rw [List.append_nil, ← hwal] at hopen
  set db₀ : Database := { fresh config with logLen := nextId rs, disk := disk } with hdb₀
  have hlevels : db₀.leveledSstable = [] :: List.replicate (config.sstableLevel - 1) [] := by
    change List.replicate config.sstableLevel [] = _
    rw [← List.replicate_succ, Nat.sub_add_cancel hlevel]
  have hreverse : ∀ t ∈ ts.reverse, StoredIn db₀.disk t (runs t.id) := fun t ht => hstored t (List.mem_reverse.mp ht)
  obtain ⟨n, hload⟩ := loadTables_stored hlevels hreverse
  rw [← fileIds_eq hfalling hfiles, List.nil_append] at hload
  set db₁ : Database := { db₀ with
    leveledSstable := ts.reverse :: List.replicate (config.sstableLevel - 1) []
    nextSstableId := n } with hdb₁
  have hlevels₁ : db₁.recover.leveledSstable = ts.reverse :: List.replicate (config.sstableLevel - 1) [] := rfl
  have hfirst : db₁.recover.newestFirst = ts := by rw [newestFirst_level0 hlevels₁, List.reverse_reverse]
  have hdata : ∀ k, db₁.recover.data.lookup k = lastEntry (rs.map LogRecord.command) k := fun k => by
    have hrecords := readRecords_bytesOf hrs
    rw [← hwal, hopen] at hrecords
    change (((Logger.readRecords disk.wal).map LogRecord.command).foldl put ∅).lookup k = _
    rw [show Logger.readRecords disk.wal = rs from hrecords, lookup_foldl_put]
  refine ⟨db₁.recover, ?_, fun k => ?_⟩
  · rw [openInDir, hopen]
    change (loadSstables db₀ >>= fun db => _) = _
    rw [show loadSstables db₀ = .ok db₁ from hload]
    rfl
  · have hstored₁ : ∀ t ∈ db₁.recover.newestFirst, StoredIn db₁.recover.disk t (runs t.id) := by
      rw [hfirst]
      exact hstored
    rw [get_stored hstored₁, hfirst, hdata]

end Opening
/-! What a run keeps. -/

/-- The tables that `get` looks at are the files of the directory, from the highest id down, and the log
holds the memtable. -/
structure Tidy (db : Database) : Prop where
  falling : db.newestFirst.Pairwise fun a b => b.id < a.id
  below : ∀ t ∈ db.newestFirst, t.id < db.nextSstableId
  files : ∀ id, id ∈ db.disk.tables ↔ ∃ t ∈ db.newestFirst, t.id = id
  wal : ∃ rs, (∀ r ∈ rs, Logged r) ∧ db.disk.wal = bytesOf rs ∧
    ∀ k, lastEntry (rs.map LogRecord.command) k = db.data.lookup k

section Tidy
variable {cs : List Command} {runs : UInt32 → Run String Entry} {db : Database}

theorem Tidy.reopen [Xxh3] [BloomSizing] (h : Tidy db) (href : Refines cs runs db) {config : Config}
    (hlevel : 1 ≤ config.sstableLevel) :
    ∃ db', openInDir db.disk config = .ok db' ∧ ∀ k, db'.get k = db.get k := by
  obtain ⟨rs, hrs, hwal, hdata⟩ := h.wal
  obtain ⟨db', hopen, hget⟩ := open_tables hlevel h.falling h.files href.stored hrs hwal
  exact ⟨db', hopen, fun k => by rw [hget, get_stored href.stored, hdata]⟩

theorem Tidy.fresh (config : Config) : Tidy (Database.fresh config) := by
  have hnone : (Database.fresh config).newestFirst = [] := by
    simp [newestFirst, Database.fresh]
  refine ⟨?_, ?_, fun id => ?_, [], fun _ hr => absurd hr List.not_mem_nil, rfl, fun _ => rfl⟩
  · rw [hnone]
    exact .nil
  · rw [hnone]
    exact fun t ht => absurd ht List.not_mem_nil
  · rw [hnone]
    refine iff_of_false (fun hid => absurd hid List.not_mem_nil) ?_
    rintro ⟨t, ht, -⟩
    exact absurd ht List.not_mem_nil

theorem Tidy.write (h : Tidy db) {c : Command} (hc : c.Fits) :
    Tidy (({ db with journal := [] } : Database).written c) := by
  obtain ⟨rs, hrs, hwal, hdata⟩ := h.wal
  refine ⟨h.falling, h.below, h.files, rs ++ [LogRecord.new db.logLen c], fun r hr => ?_, ?_, fun k => ?_⟩
  · rcases List.mem_append.mp hr with hr | hr
    · exact hrs r hr
    · exact ⟨db.logLen, c, List.mem_singleton.mp hr, hc⟩
  · change db.disk.wal ++ (LogRecord.new db.logLen c).writeTo = _
    rw [hwal, bytesOf_append, bytesOf_cons]
    exact congrArg _ (List.append_nil _).symm
  · rw [List.map_append, List.map_singleton, lastEntry_concat, hdata]
    change (if k = c.key then some c.entry else db.data.lookup k) = (put db.data c).lookup k
    split_ifs with hk
    · rw [hk, put, AList.lookup_insert]
    · rw [put, AList.lookup_insert_ne hk]

theorem Tidy.nextFree (h : Tidy db) (level : Option Nat) : db.NextFree level := fun t ht =>
  UInt32.ne_of_lt (h.below t ht)

theorem Tidy.publish (h : Tidy db) (hwrap : db.nextSstableId < db.nextSstableId + 1) {db' : Database} {t : SSTable}
    {rest : List SSTable} (hid : t.id = db.nextSstableId) (hfirst : db'.newestFirst = t :: rest)
    (hrest : rest.Sublist db.newestFirst) (hnext : db'.nextSstableId = db.nextSstableId + 1)
    (hfiles : ∀ id, id ∈ db'.disk.tables ↔ id = db.nextSstableId ∨ ∃ t ∈ rest, t.id = id)
    (hwal : ∃ rs, (∀ r ∈ rs, Logged r) ∧ db'.disk.wal = bytesOf rs ∧
      ∀ k, lastEntry (rs.map LogRecord.command) k = db'.data.lookup k) : Tidy db' := by
  refine ⟨?_, ?_, fun id => ?_, hwal⟩
  · rw [hfirst]
    refine List.pairwise_cons.mpr ⟨fun u hu => ?_, h.falling.sublist hrest⟩
    rw [hid]
    exact h.below u (hrest.subset hu)
  · rw [hfirst, hnext]
    intro u hu
    rcases List.mem_cons.mp hu with rfl | hu
    · rw [hid]
      exact hwrap
    · exact UInt32.lt_trans (h.below u (hrest.subset hu)) hwrap
  · rw [hfiles, hfirst]
    simp only [List.mem_cons, exists_eq_or_imp, hid]
    exact or_congr_left eq_comm

theorem Tidy.flush [Xxh3] [BloomSizing] (h : Tidy db) (hwrap : db.nextSstableId < db.nextSstableId + 1)
    {level0 : List SSTable}
    {levels : List (List SSTable)} (hlevels : db.leveledSstable = level0 :: levels) (r : Run String Entry) :
    Tidy (db.flushed r) := by
  refine h.publish hwrap rfl (flushed_newestFirst hlevels r) (List.Sublist.refl _) ?_ (fun id => ?_) ?_
  · rw [flushed_cons hlevels]
  · rw [flushed_tables, AList.mem_insert, h.files]
  · rw [flushed_cons hlevels]
    refine ⟨[], fun _ hr => absurd hr List.not_mem_nil, ?_, fun _ => rfl⟩
    change (db.disk.applyAll (_ ++ [.truncateWal])).wal = _
    rw [Disk.applyAll_append]
    rfl

omit [FloatText] in
theorem mem_removeTables (d : Disk) (ts : List SSTable) (id : UInt32) :
    id ∈ (d.applyAll (ts.map fun t => .removeTable t.id)).tables ↔ id ∈ d.tables ∧ ∀ t ∈ ts, t.id ≠ id := by
  induction ts generalizing d with
  | nil => exact ⟨fun h => ⟨h, fun t ht => absurd ht List.not_mem_nil⟩, And.left⟩
  | cons t ts ih =>
    change id ∈ ((d.apply (.removeTable t.id)).applyAll (ts.map fun t => .removeTable t.id)).tables ↔ _
    rw [ih]
    change id ∈ d.tables.erase t.id ∧ _ ↔ _
    rw [AList.mem_erase, List.forall_mem_cons]
    tauto

omit [FloatText] in
theorem wal_removeTables (d : Disk) (ts : List SSTable) :
    (d.applyAll (ts.map fun t => .removeTable t.id)).wal = d.wal := by
  induction ts generalizing d with
  | nil => rfl
  | cons t ts ih => exact ih (d.apply (.removeTable t.id))

theorem Tidy.nodup (h : Tidy db) : (db.newestFirst.map SSTable.id).Nodup :=
  List.pairwise_map.mpr (h.falling.imp fun hlt => (UInt32.ne_of_lt hlt).symm)

omit [FloatText] in
theorem flatten_above {above below : List (List SSTable)} (hlevels : db.leveledSstable = above ++ below)
    (habove : ∀ j < above.length, db.leveledSstable.getD j [] = []) : (above.map List.reverse).flatten = [] := by
  refine List.flatten_eq_nil_iff.mpr fun l hl => ?_
  obtain ⟨tables, htables, rfl⟩ := List.mem_map.mp hl
  obtain ⟨j, hj, rfl⟩ := List.getElem_of_mem htables
  have hempty := habove j hj
  rw [hlevels, List.getD_eq_getElem?_getD, List.getElem?_append_left hj, List.getElem?_eq_getElem hj] at hempty
  rw [show above[j] = [] from hempty, List.reverse_nil]

theorem Tidy.compact [Xxh3] [BloomSizing] (h : Tidy db) (hwrap : db.nextSstableId < db.nextSstableId + 1) {level : Nat}
    (hlevel : level + 1 < db.leveledSstable.length) (habove : ∀ j < level, db.leveledSstable.getD j [] = [])
    (r : Run String Entry) : Tidy (db.compacted level r) := by
  obtain ⟨above, x, y, below, hlevels, rfl⟩ := split_levels hlevel
  have hnil := flatten_above hlevels habove
  have hperm := newestFirst_perm hlevels
  have hfirst := compacted_newestFirst hlevels r
  rw [hnil, List.nil_append] at hperm hfirst
  refine h.publish hwrap rfl hfirst ?_ rfl (fun id => ?_) ?_
  · rw [newestFirst_split hlevels]
    exact (List.sublist_append_right ..).trans (List.sublist_append_right ..)
  · have hinput : ∀ u ∈ db.inputs above.length, u.id ≠ db.nextSstableId := fun u hu =>
      h.nextFree none u (hperm.symm.subset (List.mem_append_left _ hu))
    have hother : ∀ t ∈ (below.map List.reverse).flatten, ∀ u ∈ db.inputs above.length, u.id ≠ t.id :=
      fun t ht u => inputs_apart hlevels h.nodup (List.mem_append_right _ ht)
    rw [compacted_disk, mem_removeTables]
    change id ∈ db.disk.tables.insert _ _ ∧ _ ↔ _
    rw [AList.mem_insert, h.files]
    constructor
    · rintro ⟨rfl | ⟨t, ht, rfl⟩, hne⟩
      · exact Or.inl rfl
      · rcases List.mem_append.mp (hperm.subset ht) with ht | ht
        · exact absurd rfl (hne t ht)
        · exact Or.inr ⟨t, ht, rfl⟩
    · rintro (rfl | ⟨t, ht, rfl⟩)
      · exact ⟨Or.inl rfl, hinput⟩
      · exact ⟨Or.inr ⟨t, hperm.symm.subset (List.mem_append_right _ ht), rfl⟩, hother t ht⟩
  · obtain ⟨rs, hrs, hwal, hdata⟩ := h.wal
    refine ⟨rs, hrs, ?_, hdata⟩
    rw [compacted_disk, wal_removeTables]
    exact hwal

/-- The counter does not wrap around, and a level is compacted only when those above it are empty. -/
def InOrder (db : Database) : Option Nat → Prop
  | none => db.nextSstableId < db.nextSstableId + 1
  | some level => db.nextSstableId < db.nextSstableId + 1 ∧ ∀ j < level, db.leveledSstable.getD j [] = []

instance (db : Database) : ∀ level, Decidable (db.InOrder level)
  | none => inferInstanceAs (Decidable (_ < _))
  | some level => inferInstanceAs (Decidable (_ ∧ ∀ j < level, db.leveledSstable.getD j [] = []))

structure TidyWith (config : Config) (db : Database) : Prop extends Tidy db where
  levels : 1 ≤ db.leveledSstable.length
  threshold : db.sstableThreshold = config.sstableThreshold

theorem TidyWith.fresh {config : Config} (hlevel : 1 ≤ config.sstableLevel) : TidyWith config (.fresh config) := by
  refine ⟨.fresh config, ?_, rfl⟩
  change 1 ≤ (List.replicate config.sstableLevel []).length
  rwa [List.length_replicate]

theorem TidyWith.flush [Xxh3] [BloomSizing] {config : Config} (h : TidyWith config db)
    (hwrap : db.nextSstableId < db.nextSstableId + 1) (r : Run String Entry) : TidyWith config (db.flushed r) := by
  obtain ⟨level0, levels, hlevels⟩ := List.exists_cons_of_length_pos h.levels
  refine ⟨h.toTidy.flush hwrap hlevels r, ?_, ?_⟩
  · rw [flushed_cons hlevels]
    exact Nat.succ_pos _
  · rw [flushed_cons hlevels]
    exact h.threshold

theorem TidyWith.compact [Xxh3] [BloomSizing] {config : Config} (h : TidyWith config db) {level : Nat}
    (horder : db.InOrder (some level)) (hlevel : level + 1 < db.leveledSstable.length) (r : Run String Entry) :
    TidyWith config (db.compacted level r) := by
  refine ⟨h.toTidy.compact horder.1 hlevel horder.2 r, ?_, h.threshold⟩
  change 1 ≤ ((db.leveledSstable.modify _ _).modify _ _).length
  rw [List.length_modify, List.length_modify]
  exact h.levels

theorem TidyWith.alongside [Xxh3] [BloomSizing] (config : Config) : Alongside InOrder (TidyWith config) where
  free _ level h _ := h.nextFree level
  write _ _ hc h := ⟨h.toTidy.write hc, h.levels, h.threshold⟩
  flush _ h hwrap := h.flush hwrap _
  compact _ _ r h horder hlevel := h.compact horder hlevel r

end Tidy
end Database

section Run
variable [FloatText] [Xxh3] [BloomSizing]
open Database

/-- A database that is closed after a run in order and opened again gives the same answers. -/
theorem reopen_keeps_reads {config : Config} (hlevel : 1 ≤ config.sstableLevel) {cs : List Command}
    (hfits : ∀ c ∈ cs, c.Fits) (horder : RunCreatesIn InOrder cs (.fresh config)) {db : Database}
    (hrun : execAll cs (.fresh config) = .ok () db) :
    ∃ db', openInDir db.disk config = .ok db' ∧ ∀ k, db'.get k = db.get k := by
  have hkept := fresh_execAll hfits (TidyWith.alongside config) (.fresh hlevel) horder
  obtain ⟨⟨runs, href⟩, htidy⟩ := hkept.of_eq_ok hrun
  exact htidy.reopen href hlevel

end Run

section Concrete
open scoped Concrete

/-- Two flushes, a compaction and a command in the memtable. -/
def orderedRun : List Command :=
  [.set "a" (.int 1), .set "b" (.int 2), .delete "a", .set "c" (.int 3), .set "a" (.int 4)]

theorem reopen_keeps_reads_merged : ∃ db db', Database.execAll orderedRun (.fresh ⟨2, 2, 2⟩) = .ok () db ∧
    Database.openInDir db.disk ⟨2, 2, 2⟩ = .ok db' ∧ ∀ k, db'.get k = db.get k := by
  have hfits : ∀ c ∈ orderedRun, c.Fits := by decide
  have horder : Database.RunCreatesIn Database.InOrder orderedRun (.fresh ⟨2, 2, 2⟩) := by decide +kernel
  have htidy : Database.TidyWith ⟨2, 2, 2⟩ (.fresh ⟨2, 2, 2⟩) := .fresh (by decide)
  obtain ⟨db, -, hrun, -⟩ := Database.fresh_ends hfits (Database.TidyWith.alongside _) htidy horder (by decide)
  obtain ⟨db', hopen, hget⟩ := reopen_keeps_reads (by decide) hfits horder hrun
  exact ⟨db, db', hrun, hopen, hget⟩

/-- The third call compacts level 2 while level 1 is not empty. -/
def cascade : List Command := [.set "a" (.int 1), .set "a" (.int 2), .set "a" (.int 3)]

theorem cascade_reads : Database.Then (Database.execAll cascade) (.fresh ⟨4, 1, 1⟩) fun db =>
    db.get "a" = .ok (some (.int 3)) ∧
    ((Database.openInDir db.disk ⟨4, 1, 1⟩).toOption.map fun db' => db'.get "a") = some (.ok (some (.int 2))) := by
  decide +kernel

/-- The older table has the higher id. -/
theorem reopen_changes_read : (∀ c ∈ cascade, c.Fits) ∧ ∃ db db',
    Database.execAll cascade (.fresh ⟨4, 1, 1⟩) = .ok () db ∧ Database.openInDir db.disk ⟨4, 1, 1⟩ = .ok db' ∧
      db.get "a" = .ok (some (.int 3)) ∧ db'.get "a" = .ok (some (.int 2)) := by
  have hfits : ∀ c ∈ cascade, c.Fits := by decide
  obtain ⟨db, -, hrun, -⟩ := Database.fresh_refines ⟨4, 1, 1⟩ hfits (by decide +kernel) (by decide)
  obtain ⟨hbefore, hafter⟩ := cascade_reads.of_eq hrun
  obtain ⟨db', hopen, hget⟩ := Option.map_eq_some_iff.mp hafter
  refine ⟨hfits, db, db', hrun, ?_, hbefore, hget⟩
  cases h : Database.openInDir db.disk ⟨4, 1, 1⟩ with
  | error e =>
    rw [h] at hopen
    cases hopen
  | ok db₁ =>
    rw [h] at hopen
    rw [Option.some.inj hopen]

end Concrete
end KvRaft
