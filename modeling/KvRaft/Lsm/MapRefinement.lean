import KvRaft.Lsm.Refinement

/-! The database refines a map, as long as no table is created under the name of a live one. -/

namespace KvRaft
open Outcome Table

section Run
variable [FloatText] [Xxh3] [BloomSizing]

/-- As long as every table gets a file name that no live table has, the database behaves as a map after
every operation of a run, and an operation can only fail when there are `2 ^ 63` bytes of commands. -/
theorem lsm_refines_map (config : Config) {cs : List Command} (hfits : ∀ c ∈ cs, c.Fits)
    (hids : Database.RunCreatesIn Database.NextFree cs (.fresh config)) {done : List Command}
    (hdone : done <+: cs) :
    (volume done < 2 ^ 63 → ∃ db, Database.execAll done (.fresh config) = .ok () db) ∧
      ∀ db, Database.execAll done (.fresh config) = .ok () db →
        ∀ k, db.get k = .ok (Storage.fold done k) := by
  obtain ⟨rest, rfl⟩ := hdone
  have hrun := Database.fresh_runs config (fun c hc => hfits c (List.mem_append_left _ hc)) hids.of_append
  refine ⟨fun hsmall => ?_, fun db heq k => ?_⟩
  · obtain ⟨_, db, heq⟩ := hrun.ok_of_not (Nat.not_le.mpr hsmall)
    exact ⟨db, heq⟩
  · obtain ⟨runs, h⟩ := hrun.of_eq_ok heq
    exact h.get_eq k

end Run

section Concrete

open scoped Concrete

/-- Two flushes, the second over a key of the first. -/
theorem lsm_refines_map_flushes :
    let cs : List Command := [.set "a" (.int 1), .set "b" (.int 2), .delete "a"]
    ∃ db, Database.execAll cs (.fresh ⟨2, 1, 2⟩) = .ok () db ∧ ∀ k, db.get k = .ok (Storage.fold cs k) := by
  intro cs
  have hfits : ∀ c ∈ cs, c.Fits := by decide
  have h := lsm_refines_map ⟨2, 1, 2⟩ hfits (by decide +kernel) (List.prefix_refl cs)
  obtain ⟨db, hdb⟩ := h.1 (by decide)
  exact ⟨db, hdb, h.2 db hdb⟩

/-! The ids of the tables wrap around. -/

def oneEntry (c : Command) : Run String Entry := ⟨[(c.key, c.entry)], List.pairwise_singleton ..⟩

namespace Database

/-- With one level, and a memtable of one entry, every command makes a table. -/
theorem exec_oneLevel {db : Database} {level0 : List SSTable} (hlevels : db.leveledSstable = [level0])
    (hthreshold : db.dataThreshold = 1) (hdata : db.data = ∅) {c : Command}
    (hfits : Fits (c.key, c.entry)) (hsize : tableSize 1 (oneEntry c).entries < 2 ^ 64) :
    exec c db = .ok () ((({ db with journal := [] } : Database).written c).flushed (oneEntry c)) := by
  set db₁ := ({ db with journal := [] } : Database).written c with hdb₁
  have hput : db₁.data = put ∅ c := by
    change put db.data c = _
    rw [hdata]
  have hmem : memRun db₁.data = oneEntry c := by
    rw [hput]
    rfl
  have hentries : db₁.data.entries = [⟨c.key, c.entry⟩] := by
    rw [hput]
    rfl
  have hflush : maybeFlush db₁ = .ok () (db₁.flushed (oneEntry c)) := by
    have hdue : db₁.dataThreshold ≤ db₁.data.entries.length := by
      rw [hentries]
      exact hthreshold.le
    change (if db₁.dataThreshold ≤ db₁.data.entries.length then flushMemoryToDisk else pure ()) db₁ = _
    rw [if_pos hdue]
    have hruns := flush_runs db₁ (E := False) (by rw [hentries]; exact List.cons_ne_nil _ _)
      (by rw [hmem]; exact fun p hp => List.mem_singleton.mp hp ▸ hfits)
      (by rw [hmem]; exact fun hbig => absurd hsize (Nat.not_lt.mpr hbig))
    rw [hmem] at hruns
    obtain ⟨_, db₂, heq⟩ := hruns.ok_of_not id
    rw [heq, (hruns.of_eq_ok heq).1]
  change EStateM.bind maybeFlush (fun _ => maybeCompact) db₁ = _
  rw [EStateM.bind, hflush]
  dsimp only
  have hnone : (db₁.flushed (oneEntry c)).levelsToCompact = [] := by
    rw [flushed_cons (show db₁.leveledSstable = [level0] from hlevels)]
    rfl
  change List.forM (db₁.flushed (oneEntry c)).levelsToCompact compactLevel _ = _
  rw [hnone]
  rfl

/-- The state after `a` was set once and `b` then `n` times, with one level and a flush every time. -/
structure Wrapping (a b : Command) (n : Nat) (db : Database) : Prop where
  data : db.data = ∅
  threshold : db.dataThreshold = 1
  levels : ∃ ts, db.leveledSstable = [tableOf 0 1 (oneEntry a) :: ts] ∧
    ∀ t ∈ ts, ∃ id, t = tableOf id 1 (oneEntry b)
  next : db.nextSstableId = UInt32.ofNat (n + 1)
  file : db.disk.tables.lookup 0 =
    some (encode 1 (oneEntry (if n < 2 ^ 32 then a else b)).entries)

section Wrapping
variable {a b : Command}

theorem Wrapping.first (hfits : Fits (a.key, a.entry)) (hsize : tableSize 1 (oneEntry a).entries < 2 ^ 64) :
    ∃ db, exec a (fresh ⟨1, 1, 0⟩) = .ok () db ∧ Wrapping a b 0 db := by
  have hlevels : (fresh ⟨1, 1, 0⟩).leveledSstable = [[]] := rfl
  refine ⟨_, exec_oneLevel hlevels rfl rfl hfits hsize, ?_⟩
  set db := ({ fresh ⟨1, 1, 0⟩ with journal := [] } : Database).written a with hdb
  have hfile := flushed_tables db (oneEntry a)
  rw [flushed_cons (show db.leveledSstable = [[]] from rfl)] at hfile ⊢
  exact ⟨rfl, rfl, ⟨[], rfl, fun t ht => nomatch ht⟩, rfl, hfile ▸ AList.lookup_insert _⟩

/-- The table of the last command gets the file of the first one. -/
theorem Wrapping.step {n : Nat} {db : Database} (h : Wrapping a b n db) (hn : n < 2 ^ 32)
    (hfits : Fits (b.key, b.entry)) (hsize : tableSize 1 (oneEntry b).entries < 2 ^ 64) :
    ∃ db', exec b db = .ok () db' ∧ Wrapping a b (n + 1) db' := by
  obtain ⟨ts, hlevels, hts⟩ := h.levels
  refine ⟨_, exec_oneLevel hlevels h.threshold h.data hfits hsize, ?_⟩
  set db₁ := ({ db with journal := [] } : Database).written b with hdb₁
  have hfile := flushed_tables db₁ (oneEntry b)
  have hnext : db₁.nextSstableId = UInt32.ofNat (n + 1) := h.next
  rw [flushed_cons (show db₁.leveledSstable = [_] from hlevels)] at hfile ⊢
  refine ⟨rfl, h.threshold, ⟨ts ++ [tableOf db₁.nextSstableId 1 (oneEntry b)], rfl, fun t ht => ?_⟩, ?_, ?_⟩
  · rcases List.mem_append.mp ht with ht | ht
    · exact hts t ht
    · exact ⟨_, List.mem_singleton.mp ht⟩
  · change db₁.nextSstableId + 1 = _
    rw [hnext, UInt32.ofNat_add (n + 1) 1]
    rfl
  · rw [hfile, hnext]
    by_cases hlast : n + 1 = 2 ^ 32
    · rw [hlast, if_neg (lt_irrefl _)]
      exact AList.lookup_insert _
    · have hne : (0 : UInt32) ≠ UInt32.ofNat (n + 1) := fun heq => by
        have := congrArg UInt32.toNat heq
        rw [UInt32.toNat_ofNat_of_lt' (show n + 1 < UInt32.size by change n + 1 < 2 ^ 32; omega)] at this
        exact absurd this.symm (Nat.succ_ne_zero n)
      rw [AList.lookup_insert_ne hne, if_pos (by omega)]
      have hold := h.file
      rw [if_pos hn] at hold
      exact hold

theorem Wrapping.run (ha : Fits (a.key, a.entry)) (hasize : tableSize 1 (oneEntry a).entries < 2 ^ 64)
    (hb : Fits (b.key, b.entry)) (hbsize : tableSize 1 (oneEntry b).entries < 2 ^ 64) {n : Nat}
    (hn : n ≤ 2 ^ 32) :
    ∃ db, execAll (a :: List.replicate n b) (fresh ⟨1, 1, 0⟩) = .ok () db ∧ Wrapping a b n db := by
  induction n with
  | zero =>
    obtain ⟨db, hdb, h⟩ := Wrapping.first (b := b) ha hasize
    refine ⟨db, ?_, h⟩
    change EStateM.bind (exec a) (fun _ => pure ()) _ = _
    rw [EStateM.bind, hdb]
    rfl
  | succ n ih =>
    obtain ⟨db, hdb, h⟩ := ih (by omega)
    obtain ⟨db', hdb', h'⟩ := h.step (by omega) hb hbsize
    refine ⟨db', ?_, h'⟩
    rw [List.replicate_succ', ← List.cons_append, execAll_append hdb]
    change EStateM.bind (exec b) (fun _ => pure ()) _ = _
    rw [EStateM.bind, hdb']
    rfl

theorem findEntry_skip {d : Disk} {k : String} {ts : List SSTable}
    (hts : ∀ t ∈ ts, t.bloomFilter.mayContain k = false) (t : SSTable) :
    findEntry d k (ts ++ [t]) = findEntry d k [t] := by
  induction ts with
  | nil => rfl
  | cons u ts ih =>
    have hnone : u.readEntry d k = .ok none := by
      rw [SSTable.readEntry, hts u (List.mem_cons_self ..)]
      rfl
    rw [List.cons_append, findEntry, hnone]
    exact ih fun v hv => hts v (List.mem_cons_of_mem _ hv)

theorem get_first {db : Database} {ts : List SSTable} (hlevels : db.leveledSstable = [tableOf 0 1 (oneEntry a) :: ts])
    (hts : ∀ t ∈ ts, ∃ id, t = tableOf id 1 (oneEntry b)) {k : String} (hdata : db.data.lookup k = none)
    (hmiss : (bloomOf 1 (oneEntry b).entries).mayContain k = false)
    (hhit : (bloomOf 1 (oneEntry a).entries).mayContain k = true) {file : Bytes}
    (hfile : db.disk.tables.lookup 0 = some file) {entry : Option Entry}
    (hentry : Table.readEntry file (tableOf 0 1 (oneEntry a)).index k = .ok entry) :
    db.get k = .ok (visible entry) := by
  have hfirst : db.newestFirst = ts.reverse ++ [tableOf 0 1 (oneEntry a)] := by
    rw [newestFirst, hlevels]
    simp
  have hskip : ∀ t ∈ ts.reverse, t.bloomFilter.mayContain k = false := fun t ht => by
    obtain ⟨id, rfl⟩ := hts t (List.mem_reverse.mp ht)
    exact hmiss
  have hread : db.disk.read 0 = .ok file := by rw [Disk.read, hfile]
  have htable : (tableOf 0 1 (oneEntry a)).readEntry db.disk k = .ok entry := by
    unfold SSTable.readEntry
    rw [show (tableOf 0 1 (oneEntry a)).bloomFilter.mayContain k = true from hhit, if_neg (by simp),
      show db.disk.read (tableOf 0 1 (oneEntry a)).id = .ok _ from hread]
    exact hentry
  rw [Database.get, hdata, hfirst, findEntry_skip hskip, findEntry, htable]
  cases entry <;> rfl

end Wrapping

end Database

/-- A first write, and then another key as often as there are table ids. -/
def wrappingWrites : List Command := .set "a" (.int 1) :: List.replicate (2 ^ 32) (.set "b" (.int 2))

theorem wrappingWrites_fit : ∀ c ∈ wrappingWrites, c.Fits := by
  intro c hc
  rcases List.mem_cons.mp hc with rfl | hc
  · decide
  · exact List.eq_of_mem_replicate hc ▸ by decide

theorem wrappingWrites_get : ∃ db, Database.execAll wrappingWrites (.fresh ⟨1, 1, 0⟩) = .ok () db ∧
    db.get "a" = .ok (some (.int 2)) := by
  obtain ⟨db, hdb, h⟩ := Database.Wrapping.run (a := .set "a" (.int 1)) (b := .set "b" (.int 2)) (by decide)
    (by decide +kernel) (by decide) (by decide +kernel) le_rfl
  obtain ⟨ts, hlevels, hts⟩ := h.levels
  have hfile := h.file
  rw [if_neg (lt_irrefl _)] at hfile
  have hempty : db.data.lookup "a" = none := by
    rw [h.data]
    rfl
  have hentry : Table.readEntry (encode 1 (oneEntry (.set "b" (.int 2))).entries)
      (Database.tableOf 0 1 (oneEntry (.set "a" (.int 1)))).index "a" = .ok (some (.set (.int 2))) := by
    decide +kernel
  exact ⟨db, hdb, Database.get_first hlevels hts hempty (by decide +kernel) (by decide +kernel) hfile hentry⟩

theorem wrappingWrites_fold : Storage.fold wrappingWrites "a" = some (.int 1) := by
  have hlast : ∀ n, lastEntry (.set "a" (.int 1) :: List.replicate n (.set "b" (.int 2))) "a" =
      some (.set (.int 1)) := fun n => by
    induction n with
    | zero => rfl
    | succ n ih =>
      rw [List.replicate_succ', ← List.cons_append, lastEntry_concat, if_neg (by decide), ih]
  rw [wrappingWrites, fold_eq_visible, hlast]
  rfl

/-- After `2 ^ 32` tables the ids start again, and a new table overwrites the file of a live one. -/
theorem lsm_ids_wrap : ∃ cs : List Command, (∀ c ∈ cs, c.Fits) ∧
    ∃ db, Database.execAll cs (.fresh ⟨1, 1, 0⟩) = .ok () db ∧ db.get "a" = .ok (some (.int 2)) ∧
      Storage.fold cs "a" = some (.int 1) := by
  obtain ⟨db, hdb, hget⟩ := wrappingWrites_get
  exact ⟨wrappingWrites, wrappingWrites_fit, db, hdb, hget, wrappingWrites_fold⟩

end Concrete
end KvRaft
