import KvRaft.Lsm.Lookups
import KvRaft.Lsm.Refinement

/-! The publication of a table while other threads may have changed the levels: a flush may have pushed tables
on top of the inputs of a compaction since it found them. -/

namespace KvRaft
open Outcome Table Database

section Publication

def Database.stored (runs : UInt32 → Run String Entry) (db : Database) (k : String) : Option Entry :=
  Run.view (db.newestFirst.map fun t => runs t.id) k

/-- The inputs of a compaction are where it found them; at the top level there may be newer tables now. -/
structure Inputs (runs : UInt32 → Run String Entry) (db : Database) (level : Nat) (current next : List SSTable)
    (counts : List Nat) : Prop where
  level_lt : level + 1 < db.leveledSstable.length
  above : ∃ newer, db.leveledSstable.getD level [] = current ++ newer ∧ (level ≠ 0 → newer = [])
  below : db.leveledSstable.getD (level + 1) [] = next
  counts_eq : counts = (current ++ next).map fun t => (runs t.id).entries.length

variable {runs : UInt32 → Run String Entry} {db db' : Database} {level : Nat} {current next newer older : List SSTable}
  {counts : List Nat} {table : SSTable}

theorem Database.Refines.cleared [FloatText] [Xxh3] [BloomSizing] {cs : List Command} (h : Refines cs runs db)
    (hstored : ∀ k e, db.data.lookup k = some e → db.stored runs k = some e) :
    Refines cs runs { db with data := ∅ } := by
  refine ⟨h.stored, h.nodup, h.thin, h.tables_from, fun k e he => ?_, fun k => ?_⟩
  · cases he
  · change db.stored runs k = _
    rw [← h.view k]
    cases hk : db.data.lookup k with
    | none => rfl
    | some e => exact hstored k e hk

theorem Inputs.live (h : Inputs runs db level current next counts) : ∀ t ∈ current ++ next, t ∈ db.newestFirst := by
  obtain ⟨newer, hcurrent, -⟩ := h.above
  intro t ht
  refine mem_of_inputs h.level_lt ?_
  rw [inputs, hcurrent, h.below]
  rcases List.mem_append.mp ht with ht | ht
  · exact List.mem_append_left _ (List.mem_append_left _ ht)
  · exact List.mem_append_right _ ht

theorem Inputs.pushed {level0 : List SSTable} {levels : List (List SSTable)} {table : SSTable}
    (h : Inputs runs db level current next counts) (hlevels : db.leveledSstable = level0 :: levels)
    (hlevels' : db'.leveledSstable = (level0 ++ [table]) :: levels) {runs' : UInt32 → Run String Entry}
    (hruns : ∀ t ∈ db.newestFirst, runs' t.id = runs t.id) : Inputs runs' db' level current next counts := by
  obtain ⟨newer, hcurrent, htop⟩ := h.above
  have hnext := h.below
  have hmem := Inputs.live h
  have hlt := h.level_lt
  rw [hlevels] at hcurrent hnext hlt
  refine ⟨?_, ?_, ?_, ?_⟩
  · rw [hlevels']
    exact hlt
  · rw [hlevels']
    cases level with
    | zero =>
      refine ⟨newer ++ [table], ?_, fun hne => absurd rfl hne⟩
      rw [← List.append_assoc, ← hcurrent]
      rfl
    | succ level => exact ⟨newer, hcurrent, htop⟩
  · rw [hlevels']
    exact hnext
  · rw [h.counts_eq]
    exact List.map_congr_left fun t ht => by rw [hruns t (hmem t ht)]

structure Replaces (db db' : Database) (current next newer older : List SSTable) (table : SSTable) : Prop where
  before : db.newestFirst = newer ++ ((current.reverse ++ next.reverse) ++ older)
  after : db'.newestFirst = newer ++ table :: older
  thin : (∀ l ∈ db.leveledSstable.tail, l.length ≤ 1) → ∀ l ∈ db'.leveledSstable.tail, l.length ≤ 1

theorem Inputs.replaced (h : Inputs runs db level current next counts)
    (hlevels' : db'.leveledSstable = (db.leveledSstable.modify level (·.drop current.length)).modify (level + 1)
      fun tables => tables.drop next.length ++ [table]) :
    ∃ newer older, Replaces db db' current next newer older table := by
  obtain ⟨above, x, y, below, hlevels, rfl⟩ := split_levels h.level_lt
  obtain ⟨newer, hcurrent, htop⟩ := h.above
  have hnext := h.below
  rw [getD_current hlevels] at hcurrent
  rw [getD_next hlevels] at hnext
  subst hcurrent hnext
  have hlen : above.length + 1 = (above ++ [newer]).length := by
    rw [List.length_append, List.length_singleton]
  rw [hlevels, modify_append_cons, List.drop_left, hlen, ← List.singleton_append, ← List.append_assoc,
    modify_append_cons, List.drop_length, List.nil_append, List.append_assoc] at hlevels'
  refine ⟨(above.map List.reverse).flatten ++ newer.reverse, (below.map List.reverse).flatten, ?_, ?_, fun hthin => ?_⟩
  · rw [newestFirst_split hlevels, List.reverse_append]
    simp only [List.append_assoc]
  · rw [newestFirst, hlevels']
    simp
  · intro l hl
    rw [hlevels] at hthin
    rw [hlevels'] at hl
    cases above with
    | nil =>
      rcases List.mem_cons.mp hl with rfl | hl
      · exact le_rfl
      · exact hthin l (List.mem_cons_of_mem _ hl)
    | cons a above =>
      -- below the top, nothing is pushed meanwhile
      obtain rfl := htop (Nat.succ_ne_zero _)
      rcases List.mem_append.mp hl with hl | hl
      · exact hthin l (List.mem_append_left _ hl)
      · rcases List.mem_cons.mp hl with rfl | hl
        · exact Nat.zero_le _
        · rcases List.mem_cons.mp hl with rfl | hl
          · exact le_rfl
          · exact hthin l (List.mem_append_right _ (List.mem_cons_of_mem _ (List.mem_cons_of_mem _ hl)))

namespace Replaces

theorem perm (h : Replaces db db' current next newer older table) :
    db.newestFirst.Perm ((current ++ next) ++ (newer ++ older)) := by
  rw [h.before]
  refine (List.perm_append_comm_assoc ..).trans (List.Perm.append_right _ ?_)
  exact (List.reverse_perm current).append (List.reverse_perm next)

theorem inputs_nodup (h : Replaces db db' current next newer older table)
    (hnodup : (db.newestFirst.map SSTable.id).Nodup) : ((current ++ next).map SSTable.id).Nodup := by
  rw [(h.perm.map SSTable.id).nodup_iff, List.map_append] at hnodup
  exact hnodup.of_append_left

theorem apart (h : Replaces db db' current next newer older table) (hnodup : (db.newestFirst.map SSTable.id).Nodup)
    {kept input : SSTable} (hkept : kept ∈ newer ++ older) (hinput : input ∈ current ++ next) : input.id ≠ kept.id := by
  rw [(h.perm.map SSTable.id).nodup_iff, List.map_append] at hnodup
  intro heq
  exact List.disjoint_of_nodup_append hnodup (List.mem_map_of_mem hinput) (heq ▸ List.mem_map_of_mem hkept)

theorem sublist (h : Replaces db db' current next newer older table) : (newer ++ older).Sublist db.newestFirst := by
  rw [h.before]
  exact (List.Sublist.refl newer).append (List.sublist_append_right ..)

theorem mem_inputs (h : Replaces db db' current next newer older table) {input : SSTable}
    (hinput : input ∈ current ++ next) : input ∈ db.newestFirst := by
  rw [h.before]
  refine List.mem_append_right _ (List.mem_append_left _ ?_)
  rcases List.mem_append.mp hinput with hinput | hinput
  · exact List.mem_append_left _ (List.mem_reverse.mpr hinput)
  · exact List.mem_append_right _ (List.mem_reverse.mpr hinput)

theorem mem_after (h : Replaces db db' current next newer older table) {t : SSTable} (ht : t ∈ db'.newestFirst) :
    t = table ∨ t ∈ newer ++ older := by
  rw [h.after, List.mem_append, List.mem_cons] at ht
  rw [List.mem_append]
  tauto

theorem stored_eq (h : Replaces db db' current next newer older table) {r : Run String Entry}
    (hfree : ∀ t ∈ db.newestFirst, t.id ≠ table.id)
    (hlookup : ∀ k, r.lookup k = Run.view ((current.reverse ++ next.reverse).map fun t => runs t.id) k) (k : String) :
    db'.stored (Function.update runs table.id r) k = db.stored runs k := by
  have hkept : ∀ t ∈ newer ++ older, Function.update runs table.id r t.id = runs t.id := fun t ht =>
    Function.update_of_ne (hfree t (h.sublist.subset ht)) ..
  rw [stored, stored, h.before, h.after]
  simp only [List.map_append, List.map_cons, Function.update_self]
  rw [List.map_congr_left fun t ht => hkept t (List.mem_append_left _ ht),
    List.map_congr_left fun t ht => hkept t (List.mem_append_right _ ht)]
  refine (Run.view_merge (funext hlookup) k).trans ?_
  simp only [List.map_append]

theorem refines [FloatText] [Xxh3] [BloomSizing] {cs : List Command} {id : UInt32} {r : Run String Entry}
    (h : Replaces db db' current next newer older (tableOf id 1024 r)) (hrefines : Refines cs runs db)
    (hfree : ∀ t ∈ db.newestFirst, t.id ≠ id) (hdata : db'.data = db.data)
    (htables : db'.disk.tables = db.disk.tables.insert id (encode 1024 r.entries))
    (hsize : tableSize 1024 r.entries < 2 ^ 64) (hfits : ∀ p ∈ r.entries, Fits p)
    (hlookup : ∀ k, r.lookup k = Run.view ((current.reverse ++ next.reverse).map fun t => runs t.id) k) :
    Refines cs (Function.update runs id r) db' := by
  -- the table has got its id before
  have hset : Refines cs runs { db with nextSstableId := id } := hrefines.frame rfl rfl fun _ _ => rfl
  refine hset.publish hfree h.after h.sublist ?_ (fun t ht => ?_) hfits hsize (fun p hp => ?_)
    (h.thin hrefines.thin) (hdata ▸ hrefines.data_from) fun k => ?_
  · rw [htables]
    exact AList.lookup_insert _
  · rw [htables]
    exact AList.lookup_insert_ne (hfree t (h.sublist.subset ht))
  · -- an entry of the merge comes from one of its inputs
    have hp' := r.lookup_eq_some.mpr hp
    rw [hlookup] at hp'
    obtain ⟨run, hrun, hmem⟩ := Run.mem_of_view hp'
    obtain ⟨t, ht, rfl⟩ := List.mem_map.mp hrun
    refine hrefines.tables_from t (h.mem_inputs ?_) p hmem
    rcases List.mem_append.mp ht with ht | ht
    · exact List.mem_append_left _ (List.mem_reverse.mp ht)
    · exact List.mem_append_right _ (List.mem_reverse.mp ht)
  · rw [Run.view_merge (funext hlookup), ← hrefines.view k, h.before, hdata]
    simp only [List.map_append]

end Replaces

end Publication
end KvRaft
