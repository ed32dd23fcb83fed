import KvRaft.Lsm.Refinement

/-! The compaction of a level over any number of tables below it, and what its priorities keep. -/

namespace KvRaft
open Outcome Table

namespace Database
variable [FloatText] [Xxh3]

/-- A level and the one below are replaced by one table, which answers as they did. -/
def MergesNewest [BloomSizing] (db : Database) (level : Nat) : Prop :=
  ∃ db' t, compactLevel level db = .ok () db' ∧
    db'.leveledSstable = db.leveledSstable.take level ++ [] :: [t] :: db.leveledSstable.drop (level + 2) ∧
    ∀ k, t.readEntry db'.disk k = findEntry db.disk k ((db.leveledSstable.getD level []).reverse ++
      (db.leveledSstable.getD (level + 1) []).reverse)

def inputCommands (runs : UInt32 → Run String Entry) (db : Database) (level : Nat) : List Command :=
  (db.inputs level).flatMap fun t => (runs t.id).entries.map fun p => p.2.command p.1

omit [Xxh3] in
theorem inputCommands_volume {runs : UInt32 → Run String Entry} {db : Database} {level : Nat} {cs : List Command}
    (hcs : ∀ t ∈ db.inputs level, ∀ p ∈ (runs t.id).entries, p.2.command p.1 ∈ cs) :
    volume (db.inputCommands runs level) ≤ (db.inputs level).length * volume cs := by
  rw [inputCommands]
  generalize db.inputs level = ts at hcs
  induction ts with
  | nil => exact Nat.zero_le _
  | cons t ts ih =>
    have hfirst := volume_of_sorted (runs t.id).sorted (hcs t (List.mem_cons_self ..))
    have hrest := ih fun u hu => hcs u (List.mem_cons_of_mem _ hu)
    rw [List.flatMap_cons, volume_append, List.length_cons, Nat.succ_mul]
    omega

/-- The inputs of a compaction are in order, the next file name is none of theirs, and what they hold
fits into one table. -/
structure Mergeable [BloomSizing] (runs : UInt32 → Run String Entry) (db : Database) (level : Nat) : Prop where
  below : level + 1 < db.leveledSstable.length
  stored : ∀ t ∈ db.inputs level, StoredIn db.disk t (runs t.id)
  nodup : ((db.inputs level).map SSTable.id).Nodup
  free : ∀ t ∈ db.inputs level, t.id ≠ db.nextSstableId
  small : volume (db.inputCommands runs level) < 2 ^ 63

section Mergeable
variable {runs : UInt32 → Run String Entry} {db : Database} {level : Nat}

theorem findEntry_singleton (d : Disk) (t : SSTable) (k : String) :
    findEntry d k [t] = t.readEntry d k := by
  rw [findEntry]
  cases t.readEntry d k with
  | error e => rfl
  | ok e => cases e <;> rfl

omit [FloatText] [Xxh3] in
theorem take_level {above below : List (List SSTable)} {x y : List SSTable}
    (hlevels : db.leveledSstable = above ++ x :: y :: below) :
    db.leveledSstable.take above.length = above ∧ db.leveledSstable.drop (above.length + 2) = below := by
  have hdrop : above.length + 2 = (above ++ [x, y]).length := by
    rw [List.length_append, List.length_cons, List.length_singleton]
  rw [hlevels]
  refine ⟨List.take_left, ?_⟩
  rw [hdrop, show above ++ x :: y :: below = (above ++ [x, y]) ++ below by simp]
  exact List.drop_left

theorem merges_empty [BloomSizing] (h : level + 1 < db.leveledSstable.length)
    (hcurrent : db.leveledSstable.getD level [] = []) :
    db.MergesNewest level ↔ (db.leveledSstable.getD (level + 1) []).length = 1 := by
  have hskip : compactLevel level db = .ok () db := compactLevel_skip fun hwork => hwork.2 hcurrent
  obtain ⟨above, x, y, below, hlevels, rfl⟩ := split_levels h
  obtain ⟨htake, hdrop⟩ := take_level hlevels
  rw [MergesNewest, hskip, htake, hdrop, getD_next hlevels]
  rw [getD_current hlevels] at hcurrent ⊢
  subst hcurrent
  constructor
  · rintro ⟨db', t, heq, hdb', -⟩
    cases heq
    rw [hlevels] at hdb'
    have hrest := List.append_cancel_left hdb'
    rw [(List.cons.inj (List.cons.inj hrest).2).1, List.length_singleton]
  · intro hone
    obtain ⟨t, rfl⟩ := List.length_eq_one_iff.mp hone
    exact ⟨db, t, rfl, hlevels, fun k => (findEntry_singleton db.disk t k).symm⟩

theorem Mergeable.compacts [BloomSizing] (h : Mergeable runs db level)
    (hcurrent : db.leveledSstable.getD level [] ≠ []) :
    ∃ r : Run String Entry, compactLevel level db = .ok () (db.compacted level r) ∧
      KWayMerge.Selects (mergePriority (db.leveledSstable.getD level []).length)
        (Merge.sources (((db.leveledSstable.getD level []).map fun t => runs t.id) ++
          (db.leveledSstable.getD (level + 1) []).map fun t => runs t.id)) r.entries ∧
      StoredIn (db.compacted level r).disk (tableOf db.nextSstableId 1024 r) r := by
  have hruns := compact_selects (E := False) h.below hcurrent h.stored h.nodup h.free ?_
  · obtain ⟨_, db', heq⟩ := hruns.ok_of_not not_false
    obtain ⟨r, rfl, hsize, hfits, hselects⟩ := hruns.of_eq_ok heq
    refine ⟨r, heq, hselects, _, ?_, holds_encode hfits hsize db.nextSstableId⟩
    exact (compacted_lookup level r h.free).trans (AList.lookup_insert _)
  · intro es hes hfrom hsize
    refine absurd h.small (not_lt.mpr (volume_of_tableSize hes (fun p hp => ?_) hsize))
    obtain ⟨t, ht, hpt⟩ := hfrom p hp
    exact List.mem_flatMap.mpr ⟨t, ht, List.mem_map_of_mem hpt⟩

theorem Mergeable.merges_iff [BloomSizing] (h : Mergeable runs db level)
    (hcurrent : db.leveledSstable.getD level [] ≠ []) :
    ∃ r : Run String Entry, KWayMerge.Selects (mergePriority (db.leveledSstable.getD level []).length)
        (Merge.sources (((db.leveledSstable.getD level []).map fun t => runs t.id) ++
          (db.leveledSstable.getD (level + 1) []).map fun t => runs t.id)) r.entries ∧
      (db.MergesNewest level ↔ ∀ k, r.lookup k =
        Run.view (((db.leveledSstable.getD level []).map fun t => runs t.id).reverse ++
          ((db.leveledSstable.getD (level + 1) []).map fun t => runs t.id).reverse) k) := by
  obtain ⟨r, heq, hselects, hstored⟩ := h.compacts hcurrent
  refine ⟨r, hselects, ?_⟩
  have hfind : ∀ k, findEntry db.disk k ((db.leveledSstable.getD level []).reverse ++
      (db.leveledSstable.getD (level + 1) []).reverse) = .ok (Run.view
        (((db.leveledSstable.getD level []).map fun t => runs t.id).reverse ++
          ((db.leveledSstable.getD (level + 1) []).map fun t => runs t.id).reverse) k) := by
    intro k
    rw [← List.map_reverse, ← List.map_reverse, ← List.map_append]
    refine findEntry_stored (fun t ht => h.stored t ?_) k
    rw [List.mem_append, List.mem_reverse, List.mem_reverse] at ht
    exact List.mem_append.mpr ht
  have hread := readEntry_stored hstored
  have hlevels' : (db.compacted level r).leveledSstable = db.leveledSstable.take level ++
      [] :: [tableOf db.nextSstableId 1024 r] :: db.leveledSstable.drop (level + 2) := by
    obtain ⟨above, x, y, below, hlevels, rfl⟩ := split_levels h.below
    obtain ⟨htake, hdrop⟩ := take_level hlevels
    rw [compacted_levels hlevels, htake, hdrop]
  constructor
  · rintro ⟨db', t, heq', hdb', hsame⟩ k
    rw [heq] at heq'
    cases heq'
    have hrest := List.append_cancel_left (hlevels'.symm.trans hdb')
    obtain rfl := (List.cons.inj (List.cons.inj (List.cons.inj hrest).2).1).1
    have := hsame k
    rw [hread, hfind] at this
    exact Except.ok.inj this
  · intro hview
    refine ⟨_, _, heq, hlevels', fun k => ?_⟩
    rw [hread, hfind, hview]

end Mergeable
end Database

section Claim
open Database
variable [FloatText] [Xxh3] [BloomSizing]

/-- The merge of a level keeps the newest versions as long as the tables below, counted from the oldest,
stay behind those above, counted from their own number on; a version below that gets ahead hides the newer
one above. Which one goes first when both have the same number is left to the heap. -/
theorem merge_keeps_newest {runs : UInt32 → Run String Entry} {db : Database} {level : Nat}
    (h : Mergeable runs db level) :
    ((db.leveledSstable.getD level [] = [] → (db.leveledSstable.getD (level + 1) []).length = 1) →
      (∀ k, ¬ Merge.Outranked ((db.leveledSstable.getD level []).map fun t => runs t.id)
          ((db.leveledSstable.getD (level + 1) []).map fun t => runs t.id) k ∧
        ¬ Merge.Tied ((db.leveledSstable.getD level []).map fun t => runs t.id)
          ((db.leveledSstable.getD (level + 1) []).map fun t => runs t.id) k) →
      db.MergesNewest level) ∧
    (db.MergesNewest level →
      (db.leveledSstable.getD level [] = [] → (db.leveledSstable.getD (level + 1) []).length = 1) ∧
      ∀ k, ¬ Merge.Outranked ((db.leveledSstable.getD level []).map fun t => runs t.id)
        ((db.leveledSstable.getD (level + 1) []).map fun t => runs t.id) k) := by
  by_cases hcurrent : db.leveledSstable.getD level [] = []
  · refine ⟨fun hone _ => (merges_empty h.below hcurrent).mpr (hone hcurrent),
      fun hmerges => ⟨fun _ => (merges_empty h.below hcurrent).mp hmerges, fun k => ?_⟩⟩
    rw [hcurrent]
    rintro ⟨i, e, j, e', hn, -⟩
    cases hn
  · obtain ⟨r, hselects, hiff⟩ := h.merges_iff hcurrent
    rw [← List.length_map (fun t => runs t.id)] at hselects
    refine ⟨fun _ hkeys => hiff.mpr fun k => ?_, fun hmerges => ⟨fun hnil => absurd hnil hcurrent, fun k => ?_⟩⟩
    · exact Merge.lookup_of_not_outranked hselects (hkeys k).1 (hkeys k).2
    · exact Merge.not_outranked_of_lookup hselects (hiff.mp hmerges k)

end Claim

section Concrete
open Database
open scoped Concrete

/-- The third flush finds the first two merged into the level below. -/
def threeWrites : List Command := [.set "a" (.int 1), .set "b" (.int 2), .set "a" (.int 3)]

theorem threeWrites_tables : Then (execAll threeWrites) (.fresh ⟨2, 1, 2⟩) fun db =>
    db.leveledSstable.map (·.map SSTable.id) = [[3], [2]] ∧ db.NextFree none := by decide +kernel

theorem threeWrites_mergeable : ∃ runs db t u, execAll threeWrites (.fresh ⟨2, 1, 2⟩) = .ok () db ∧
    db.leveledSstable = [[t], [u]] ∧ Mergeable runs db 0 := by
  have hfits : ∀ c ∈ threeWrites, c.Fits := by decide
  obtain ⟨db, runs, heq, h⟩ := fresh_refines ⟨2, 1, 2⟩ hfits (by decide +kernel) (by decide)
  obtain ⟨hids, hfree⟩ := threeWrites_tables.of_eq heq
  obtain ⟨ts, rest, hlevels, hts, hrest⟩ := List.map_eq_cons_iff.mp hids
  obtain ⟨us, rest, rfl, hus, hnil⟩ := List.map_eq_cons_iff.mp hrest
  obtain ⟨t, ht⟩ := List.length_eq_one_iff.mp ((List.length_map ..).symm.trans (congrArg List.length hts))
  obtain ⟨u, hu⟩ := List.length_eq_one_iff.mp ((List.length_map ..).symm.trans (congrArg List.length hus))
  rw [ht, hu, List.map_eq_nil_iff.mp hnil] at hlevels
  have hinputs : ∀ t, t ∈ db.inputs 0 ↔ t ∈ db.newestFirst := fun t => by
    simp [inputs, newestFirst, hlevels]
  refine ⟨runs, db, t, u, heq, hlevels, by rw [hlevels]; exact Nat.one_lt_two,
    fun t ht => h.stored t ((hinputs t).mp ht), ?_, fun t ht => hfree t ((hinputs t).mp ht), ?_⟩
  · have hnodup := h.nodup
    simpa [inputs, newestFirst, hlevels] using hnodup
  · have hlen : (db.inputs 0).length = 2 := by simp [inputs, hlevels]
    have hle := inputCommands_volume fun t ht => h.tables_from t ((hinputs t).mp ht)
    rw [hlen] at hle
    exact hle.trans_lt (by decide)

/-- A table over another one that has an older version of its key. -/
theorem merge_keeps_newest_three : ∃ db t u, execAll threeWrites (.fresh ⟨2, 1, 2⟩) = .ok () db ∧
    db.leveledSstable = [[t], [u]] ∧ db.MergesNewest 0 := by
  obtain ⟨runs, db, t, u, heq, hlevels, h⟩ := threeWrites_mergeable
  refine ⟨db, t, u, heq, hlevels, (merge_keeps_newest h).1 (fun hnil => ?_) fun k => ?_⟩
  · rw [hlevels] at hnil
    cases hnil
  · have hfirst : ∀ j e, Run.newest ((db.leveledSstable.getD 1 []).map fun t => runs t.id) k = some (j, e) →
        j < 1 := by
      intro j e hn
      obtain ⟨r, hr, -⟩ := Run.newest_get hn
      rw [hlevels] at hr
      exact (List.getElem?_eq_some_iff.mp hr).1
    rw [hlevels]
    constructor
    · rintro ⟨i, e, j, e', -, hn, hlt, -⟩
      have := hfirst j e' (hlevels ▸ hn)
      omega
    · rintro ⟨i, e, j, e', -, hn, heq, -⟩
      have := hfirst j e' (hlevels ▸ hn)
      change i + 1 = j at heq
      omega

def newestAbove (db : Database) : Database :=
  { db with leveledSstable := [(db.leveledSstable.getD 0 []).drop 3, (db.leveledSstable.getD 0 []).take 3] }

def fourWrites : List Command :=
  [.set "a" (.int 0), .set "a" (.int 1), .set "a" (.int 2), .set "a" (.int 3)]

def aroundMerge : Option (List (List UInt32) × Option (Option Entry) × Option (Option Entry)) :=
  match execAll fourWrites (.fresh ⟨2, 1, 100⟩) with
  | .error _ _ => none
  | .ok _ db => match compactLevel 0 (newestAbove db) with
    | .error _ _ => none
    | .ok _ db' => some ((newestAbove db).leveledSstable.map (·.map SSTable.id),
        (findEntry (newestAbove db).disk "a" (newestAbove db).newestFirst).toOption,
        (findEntry db'.disk "a" db'.newestFirst).toOption)

/-- The third of the tables below gets ahead of the single one above. -/
theorem merge_loses_newest : ∃ db db', execAll fourWrites (.fresh ⟨2, 1, 100⟩) = .ok () db ∧
    (newestAbove db).leveledSstable.map (·.map SSTable.id) = [[3], [0, 1, 2]] ∧
    compactLevel 0 (newestAbove db) = .ok () db' ∧
    (findEntry (newestAbove db).disk "a" (newestAbove db).newestFirst).toOption = some (some (.set (.int 3))) ∧
    (findEntry db'.disk "a" db'.newestFirst).toOption = some (some (.set (.int 2))) ∧
    ¬ (newestAbove db).MergesNewest 0 := by
  have hrun : aroundMerge =
      some ([[3], [0, 1, 2]], some (some (.set (.int 3))), some (some (.set (.int 2)))) := by
    decide +kernel
  unfold aroundMerge at hrun
  split at hrun
  · cases hrun
  · next db hdb =>
    split at hrun
    · cases hrun
    · next db' hdb' =>
      simp only [Option.some.injEq, Prod.mk.injEq] at hrun
      obtain ⟨hids, hbefore, hafter⟩ := hrun
      refine ⟨db, db', hdb, hids, hdb', hbefore, hafter, ?_⟩
      rintro ⟨db₁, t, hdb₁, hlevels, hsame⟩
      rw [hdb'] at hdb₁
      cases hdb₁
      have hfirst : db'.newestFirst = [t] := by
        rw [newestFirst, hlevels]
        rfl
      have hold : (newestAbove db).newestFirst = ((newestAbove db).leveledSstable.getD 0 []).reverse ++
          ((newestAbove db).leveledSstable.getD 1 []).reverse := by
        rw [newestFirst, newestAbove]
        simp
      rw [hfirst, findEntry_singleton, hsame "a", ← hold, hbefore] at hafter
      cases hafter

end Concrete
end KvRaft
