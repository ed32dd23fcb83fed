import KvRaft.Lib.Fold
import KvRaft.Lsm.Threads

/-! The ids of the live tables against the order in which `get` looks at them, which is the order that
`load_sstables` makes of the ids. -/

namespace KvRaft

section General
variable {T : Type} [DecidableEq T]

def Phase.flushId : Phase → Option UInt32
  | .flushing id => some id
  | _ => none

/-- The counter does not wrap around, and no flush that has an id is missing in what a compaction has
read when that takes its id. -/
def Threads.MayAllocate (s : Threads T) : Phase → Prop
  | .full => s.db.nextSstableId < s.db.nextSstableId + 1
  | .opened level current _ _ _ => s.db.nextSstableId < s.db.nextSstableId + 1 ∧
    (s.db.leveledSstable.getD level []).length = current.length ∧ ∀ t, (s.phase t).flushId = none
  | _ => True

def Threads.Unraced (s : Threads T) : Event T → Prop
  | .call .. => True
  | .advance t => s.MayAllocate (s.phase t)

instance [Fintype T] (s : Threads T) : ∀ p, Decidable (s.MayAllocate p)
  | .full => inferInstanceAs (Decidable (_ < _))
  | .opened level current _ _ _ => inferInstanceAs (Decidable (_ ∧
    (s.db.leveledSstable.getD level []).length = current.length ∧ ∀ t, (s.phase t).flushId = none))
  | .idle | .logged .. | .updated | .flushing _ | .published | .truncated | .flushed | .compacting _
  | .merging .. => .isTrue trivial

instance [Fintype T] (s : Threads T) : ∀ e, Decidable (s.Unraced e)
  | .call .. => .isTrue trivial
  | .advance t => inferInstanceAs (Decidable (s.MayAllocate (s.phase t)))

namespace Database

def tablesOf (levels : List (List SSTable)) : List SSTable := (levels.map List.reverse).flatten

theorem tablesOf_cons (level : List SSTable) (levels : List (List SSTable)) :
    tablesOf (level :: levels) = level.reverse ++ tablesOf levels := by
  rw [tablesOf, List.map_cons, List.flatten_cons]
  rfl

theorem mem_tablesOf_deeper {current next : List SSTable} {deeper : List (List SSTable)} {x : SSTable}
    (hx : x ∈ tablesOf deeper) : x ∈ tablesOf (current :: next :: deeper) := by
  rw [tablesOf_cons, tablesOf_cons]
  exact List.mem_append_right _ (List.mem_append_right _ hx)

/-- The merged table goes below what was flushed meanwhile and above the levels that were left alone. -/
theorem merged_sorted {newer current next : List SSTable} {deeper : List (List SSTable)} {table : SSTable}
    (hsorted : (newer.reverse ++ tablesOf (current :: next :: deeper)).Pairwise fun a b => b.id < a.id)
    (hnewer : ∀ x ∈ newer, table.id < x.id) (hdeep : ∀ x ∈ tablesOf (current :: next :: deeper), x.id < table.id) :
    (newer.reverse ++ table :: tablesOf deeper).Pairwise fun a b => b.id < a.id := by
  obtain ⟨habove, hbelow, -⟩ := List.pairwise_append.mp hsorted
  rw [tablesOf_cons, tablesOf_cons] at hbelow
  have hdeeper := (List.pairwise_append.mp (List.pairwise_append.mp hbelow).2.1).2.1
  refine List.pairwise_append.mpr ⟨habove, List.pairwise_cons.mpr ⟨fun x hx => ?_, hdeeper⟩, fun x hx y hy => ?_⟩
  · exact hdeep x (mem_tablesOf_deeper hx)
  · have hx' := hnewer x (List.mem_reverse.mp hx)
    rcases List.mem_cons.mp hy with rfl | hy
    · exact hx'
    · exact UInt32.lt_trans (hdeep y (mem_tablesOf_deeper hy)) hx'

end Database
open Database

/-- The live tables have falling ids in the order of `get`; the id of a flush is above them all, and
that of a compaction is between the tables it has not read and the others. -/
structure Ranked (s : Threads T) : Prop where
  threshold : 2 ≤ s.db.sstableThreshold
  short : ∀ level, (s.db.leveledSstable.getD (level + 1) []).length ≤ 1
  below : ∀ x ∈ s.db.newestFirst, x.id < s.db.nextSstableId
  sorted : s.db.newestFirst.Pairwise fun a b => b.id < a.id
  flushing : ∀ t id, s.phase t = .flushing id →
    id < s.db.nextSstableId ∧ ∀ x ∈ s.db.newestFirst, x.id < id
  chosen : ∀ t levels, s.phase t = .compacting levels → levels = [] ∨ levels = [0]
  opened : ∀ t level current next counts levels, s.phase t = .opened level current next counts levels →
    level = 0 ∧ levels = [] ∧ ∃ newer deeper, s.db.leveledSstable = (current ++ newer) :: next :: deeper
  merging : ∀ t id level current next counts levels,
    s.phase t = .merging id level current next counts levels →
    level = 0 ∧ levels = [] ∧ id < s.db.nextSstableId ∧ (∀ t' id', s.phase t' = .flushing id' → id < id') ∧
    ∃ newer deeper, s.db.leveledSstable = (current ++ newer) :: next :: deeper ∧
      (∀ x ∈ newer, id < x.id) ∧ ∀ x ∈ tablesOf (current :: next :: deeper), x.id < id

namespace Ranked
variable {s s' : Threads T} {t : T}

theorem phase_cases {p q : Phase} (hphase : s'.phase = Function.update s.phase t p) {t' : T}
    (h : s'.phase t' = q) : (t' = t ∧ p = q) ∨ (t' ≠ t ∧ s.phase t' = q) := by
  rw [hphase] at h
  by_cases heq : t' = t
  · rw [heq, Function.update_self] at h
    exact Or.inl ⟨heq, h⟩
  · rw [Function.update_of_ne heq] at h
    exact Or.inr ⟨heq, h⟩

omit [DecidableEq T] in
theorem start {config : Config} (h : 2 ≤ config.sstableThreshold) :
    Ranked (Threads.start (T := T) (.fresh config)) := by
  have hnone : (Database.fresh config).newestFirst = [] := by
    rw [newestFirst, Database.fresh, List.map_replicate, List.reverse_nil, List.flatten_replicate_nil]
  constructor
  · exact h
  · intro level
    change ((List.replicate config.sstableLevel []).getD (level + 1) []).length ≤ 1
    rw [List.getD_eq_getElem?_getD, List.getElem?_replicate]
    split_ifs
    · exact Nat.zero_le 1
    · exact Nat.zero_le 1
  · intro x hx
    exact absurd (hnone ▸ hx) List.not_mem_nil
  · exact hnone ▸ List.Pairwise.nil
  · exact fun _ _ ht => Phase.noConfusion ht
  · exact fun _ _ ht => Phase.noConfusion ht
  · exact fun _ _ _ _ _ _ ht => Phase.noConfusion ht
  · exact fun _ _ _ _ _ _ _ ht => Phase.noConfusion ht

theorem move_to (h : Ranked s) {p : Phase} (hphase : s'.phase = Function.update s.phase t p)
    (hlevels : s'.db.leveledSstable = s.db.leveledSstable)
    (hnext : s'.db.nextSstableId = s.db.nextSstableId)
    (hthreshold : s'.db.sstableThreshold = s.db.sstableThreshold)
    (hflushing : ∀ id, p ≠ .flushing id)
    (hchosen : ∀ levels, p = .compacting levels → levels = [] ∨ levels = [0])
    (hopened : ∀ level current next counts levels, p = .opened level current next counts levels →
      level = 0 ∧ levels = [] ∧ ∃ newer deeper, s.db.leveledSstable = (current ++ newer) :: next :: deeper)
    (hmerging : ∀ id level current next counts levels, p ≠ .merging id level current next counts levels) :
    Ranked s' := by
  have htables : s'.db.newestFirst = s.db.newestFirst := by rw [newestFirst, newestFirst, hlevels]
  have hflush : ∀ t' id, s'.phase t' = .flushing id → s.phase t' = .flushing id := by
    intro t' id ht'
    rcases phase_cases hphase ht' with ⟨-, hp⟩ | ⟨-, ht'⟩
    · exact absurd hp (hflushing id)
    · exact ht'
  constructor
  · rw [hthreshold]
    exact h.threshold
  · rw [hlevels]
    exact h.short
  · rw [htables, hnext]
    exact h.below
  · rw [htables]
    exact h.sorted
  · intro t' id ht'
    rw [htables, hnext]
    exact h.flushing t' id (hflush t' id ht')
  · intro t' levels ht'
    rcases phase_cases hphase ht' with ⟨-, hp⟩ | ⟨-, ht'⟩
    · exact hchosen levels hp
    · exact h.chosen t' levels ht'
  · intro t' level current next counts levels ht'
    rw [hlevels]
    rcases phase_cases hphase ht' with ⟨-, hp⟩ | ⟨-, ht'⟩
    · exact hopened level current next counts levels hp
    · exact h.opened t' level current next counts levels ht'
  · intro t' id level current next counts levels ht'
    rw [hlevels, hnext]
    rcases phase_cases hphase ht' with ⟨-, hp⟩ | ⟨-, ht'⟩
    · exact absurd hp (hmerging id level current next counts levels)
    · obtain ⟨hlevel, hrest, hid, habove, hsplit⟩ := h.merging t' id level current next counts levels ht'
      exact ⟨hlevel, hrest, hid, fun t'' id' ht'' => habove t'' id' (hflush t'' id' ht''), hsplit⟩

theorem leave (h : Ranked s) {p : Phase} (hphase : s'.phase = Function.update s.phase t p)
    (hlevels : s'.db.leveledSstable = s.db.leveledSstable)
    (hnext : s'.db.nextSstableId = s.db.nextSstableId)
    (hthreshold : s'.db.sstableThreshold = s.db.sstableThreshold) (hp : p.flushId = none)
    (hp' : p.holdsCompaction = false) : Ranked s' := by
  refine h.move_to hphase hlevels hnext hthreshold ?_ ?_ ?_ ?_
  · rintro id rfl
    cases hp
  · rintro levels rfl
    cases hp'
  · rintro level current next counts levels rfl
    cases hp'
  · rintro id level current next counts levels rfl
    cases hp'

theorem allocate (h : Ranked s) (hphase : s'.phase = Function.update s.phase t (.flushing s.db.nextSstableId))
    (hdb : s'.db = { s.db with nextSstableId := s.db.nextSstableId + 1 })
    (hwrap : s.db.nextSstableId < s.db.nextSstableId + 1) : Ranked s' := by
  have hnext : s'.db.nextSstableId = s.db.nextSstableId + 1 := by rw [hdb]
  have htables : s'.db.newestFirst = s.db.newestFirst := by rw [hdb]; rfl
  have hlevels : s'.db.leveledSstable = s.db.leveledSstable := by rw [hdb]
  constructor
  · rw [hdb]
    exact h.threshold
  · rw [hlevels]
    exact h.short
  · rw [htables, hnext]
    exact fun x hx => UInt32.lt_trans (h.below x hx) hwrap
  · rw [htables]
    exact h.sorted
  · intro t' id ht'
    rw [htables, hnext]
    rcases phase_cases hphase ht' with ⟨-, hp⟩ | ⟨-, ht'⟩
    · cases hp
      exact ⟨hwrap, h.below⟩
    · obtain ⟨hid, habove⟩ := h.flushing t' id ht'
      exact ⟨UInt32.lt_trans hid hwrap, habove⟩
  · intro t' levels ht'
    rcases phase_cases hphase ht' with ⟨-, hp⟩ | ⟨-, ht'⟩
    · cases hp
    · exact h.chosen t' levels ht'
  · intro t' level current next counts levels ht'
    rw [hlevels]
    rcases phase_cases hphase ht' with ⟨-, hp⟩ | ⟨-, ht'⟩
    · cases hp
    · exact h.opened t' level current next counts levels ht'
  · intro t' id level current next counts levels ht'
    rw [hlevels, hnext]
    rcases phase_cases hphase ht' with ⟨-, hp⟩ | ⟨-, ht'⟩
    · cases hp
    · obtain ⟨hlevel, hrest, hid, habove, hsplit⟩ := h.merging t' id level current next counts levels ht'
      refine ⟨hlevel, hrest, UInt32.lt_trans hid hwrap, fun t'' id' ht'' => ?_, hsplit⟩
      rcases phase_cases hphase ht'' with ⟨-, hp⟩ | ⟨-, ht''⟩
      · cases hp
        exact hid
      · exact habove t'' id' ht''

theorem publish (h : Ranked s) (hl : s.LocksOk) {id : UInt32} (hp : s.phase t = .flushing id)
    {table : SSTable} (hid : table.id = id) {level0 : List SSTable} {levels : List (List SSTable)}
    (hlevels : s.db.leveledSstable = level0 :: levels)
    (hphase : s'.phase = Function.update s.phase t .published)
    (hlevels' : s'.db.leveledSstable = (level0 ++ [table]) :: levels)
    (hnext : s'.db.nextSstableId = s.db.nextSstableId)
    (hthreshold : s'.db.sstableThreshold = s.db.sstableThreshold) : Ranked s' := by
  have htables : s'.db.newestFirst = table :: s.db.newestFirst := by
    rw [newestFirst, newestFirst, hlevels, hlevels', List.map_cons, List.map_cons, List.flatten_cons,
      List.flatten_cons, List.reverse_append]
    rfl
  obtain ⟨hlt, habove⟩ := h.flushing t id hp
  -- the lock lets no other thread be in a flush
  have honly : ∀ t' id', s'.phase t' ≠ .flushing id' := by
    intro t' id' ht'
    rcases phase_cases hphase ht' with ⟨-, hp'⟩ | ⟨hne, ht'⟩
    · cases hp'
    · have h1 := hl.data t' (by rw [ht']; rfl)
      have h2 := hl.data t (by rw [hp]; rfl)
      exact hne (Option.some.inj (h1.symm.trans h2))
  constructor
  · rw [hthreshold]
    exact h.threshold
  · intro level
    have hshort := h.short level
    rw [hlevels, List.getD_cons_succ] at hshort
    rw [hlevels', List.getD_cons_succ]
    exact hshort
  · rw [htables, hnext]
    intro x hx
    rcases List.mem_cons.mp hx with rfl | hx
    · rw [hid]
      exact hlt
    · exact h.below x hx
  · rw [htables]
    refine List.pairwise_cons.mpr ⟨fun x hx => ?_, h.sorted⟩
    rw [hid]
    exact habove x hx
  · exact fun t' id' ht' => absurd ht' (honly t' id')
  · intro t' levels ht'
    rcases phase_cases hphase ht' with ⟨-, hp'⟩ | ⟨-, ht'⟩
    · cases hp'
    · exact h.chosen t' levels ht'
  · intro t' level current next counts levels₁ ht'
    rcases phase_cases hphase ht' with ⟨-, hp'⟩ | ⟨-, ht'⟩
    · cases hp'
    · obtain ⟨hlevel, hrest, newer, deeper, hsplit⟩ := h.opened t' level current next counts levels₁ ht'
      obtain ⟨h0, hdeeper⟩ := List.cons.inj (hlevels.symm.trans hsplit)
      exact ⟨hlevel, hrest, newer ++ [table], deeper, by rw [hlevels', h0, hdeeper, List.append_assoc]⟩
  · intro t' id' level current next counts levels₁ ht'
    rcases phase_cases hphase ht' with ⟨-, hp'⟩ | ⟨-, ht'⟩
    · cases hp'
    · obtain ⟨hlevel, hrest, hid', habove', newer, deeper, hsplit, hnewer, hdeep⟩ :=
        h.merging t' id' level current next counts levels₁ ht'
      obtain ⟨h0, hdeeper⟩ := List.cons.inj (hlevels.symm.trans hsplit)
      refine ⟨hlevel, hrest, by rw [hnext]; exact hid', fun t'' id'' ht'' => absurd ht'' (honly t'' id''),
        newer ++ [table], deeper, by rw [hlevels', h0, hdeeper, List.append_assoc], fun x hx => ?_, hdeep⟩
      rcases List.mem_append.mp hx with hx | hx
      · exact hnewer x hx
      · rw [List.mem_singleton.mp hx, hid]
        exact habove' t id hp

omit [DecidableEq T] in
theorem levelsToCompact_cases (h : Ranked s) : s.db.levelsToCompact = [] ∨ s.db.levelsToCompact = [0] := by
  match hlevels : s.db.leveledSstable with
  | [] | [_] =>
    left
    rw [levelsToCompact, hlevels]
    rfl
  | level0 :: level1 :: deep =>
    have hshort : ∀ level, (s.db.leveledSstable.getD (level + 1) []).length < s.db.sstableThreshold :=
      fun level => (h.short level).trans_lt h.threshold
    rw [levelsToCompact_eq hlevels hshort]
    split_ifs
    · exact Or.inr rfl
    · exact Or.inl rfl

theorem allocateMerged (h : Ranked s) {level : Nat} {current next : List SSTable} {counts levels : List Nat}
    (hp : s.phase t = .opened level current next counts levels)
    (hphase : s'.phase = Function.update s.phase t
      (.merging s.db.nextSstableId level current next counts levels))
    (hdb : s'.db = { s.db with nextSstableId := s.db.nextSstableId + 1 })
    (hwrap : s.db.nextSstableId < s.db.nextSstableId + 1)
    (hread : (s.db.leveledSstable.getD level []).length = current.length)
    (hnone : ∀ t, (s.phase t).flushId = none) : Ranked s' := by
  have hnext : s'.db.nextSstableId = s.db.nextSstableId + 1 := by rw [hdb]
  have htables : s'.db.newestFirst = s.db.newestFirst := by rw [hdb]; rfl
  have hlevels : s'.db.leveledSstable = s.db.leveledSstable := by rw [hdb]
  have hno : ∀ t' id, s'.phase t' ≠ .flushing id := by
    intro t' id ht'
    rcases phase_cases hphase ht' with ⟨-, hp'⟩ | ⟨-, ht'⟩
    · cases hp'
    · have := hnone t'
      rw [ht'] at this
      cases this
  constructor
  · rw [hdb]
    exact h.threshold
  · rw [hlevels]
    exact h.short
  · rw [htables, hnext]
    exact fun x hx => UInt32.lt_trans (h.below x hx) hwrap
  · rw [htables]
    exact h.sorted
  · exact fun t' id ht' => absurd ht' (hno t' id)
  · intro t' levels ht'
    rcases phase_cases hphase ht' with ⟨-, hp'⟩ | ⟨-, ht'⟩
    · cases hp'
    · exact h.chosen t' levels ht'
  · intro t' level current next counts levels ht'
    rw [hlevels]
    rcases phase_cases hphase ht' with ⟨-, hp'⟩ | ⟨-, ht'⟩
    · cases hp'
    · exact h.opened t' level current next counts levels ht'
  · intro t' id level' current' next' counts' levels' ht'
    rw [hlevels, hnext]
    rcases phase_cases hphase ht' with ⟨-, hp'⟩ | ⟨-, ht'⟩
    · cases hp'
      obtain ⟨rfl, hrest, newer, deeper, hsplit⟩ := h.opened t level current next counts levels hp
      have hnewer : newer = [] := by
        rw [hsplit, List.getD_cons_zero, List.length_append] at hread
        exact List.length_eq_zero_iff.mp (by omega)
      subst hnewer
      refine ⟨rfl, hrest, hwrap, fun t'' id' ht'' => absurd ht'' (hno t'' id'), [], deeper, hsplit,
        fun x hx => absurd hx List.not_mem_nil, fun x hx => h.below x ?_⟩
      rw [newestFirst, hsplit, List.append_nil]
      exact hx
    · obtain ⟨hlevel, hrest, hid, habove, hsplit⟩ := h.merging t' id level' current' next' counts' levels' ht'
      exact ⟨hlevel, hrest, UInt32.lt_trans hid hwrap, fun t'' id' ht'' => absurd ht'' (hno t'' id'), hsplit⟩

theorem merge (h : Ranked s) (hl : s.LocksOk) {id : UInt32} {level : Nat} {current next : List SSTable}
    {counts levels : List Nat} (hp : s.phase t = .merging id level current next counts levels)
    {table : SSTable} (hid : table.id = id)
    (hphase : s'.phase = Function.update s.phase t (.compacting levels))
    (hlevels' : s'.db.leveledSstable = (s.db.leveledSstable.modify level (·.drop current.length)).modify
      (level + 1) fun tables => tables.drop next.length ++ [table])
    (hnext : s'.db.nextSstableId = s.db.nextSstableId)
    (hthreshold : s'.db.sstableThreshold = s.db.sstableThreshold) : Ranked s' := by
  obtain ⟨rfl, hrest, hlt, habove, newer, deeper, hsplit, hnewer, hdeep⟩ :=
    h.merging t id level current next counts levels hp
  -- what was flushed meanwhile stays in level 0, above the merged table
  have hlevels : s'.db.leveledSstable = newer :: [table] :: deeper := by
    rw [hlevels', hsplit, List.modify_zero_cons, List.modify_succ_cons, List.modify_zero_cons,
      List.drop_left, List.drop_length, List.nil_append]
  have htables : s'.db.newestFirst = newer.reverse ++ table :: tablesOf deeper := by
    rw [newestFirst, hlevels]
    exact (tablesOf_cons ..).trans (congrArg _ (tablesOf_cons ..))
  have hold : s.db.newestFirst = newer.reverse ++ tablesOf (current :: next :: deeper) := by
    rw [newestFirst, hsplit, tablesOf_cons]
    exact (tablesOf_cons ..).trans (by rw [List.reverse_append, List.append_assoc])
  have hflush : ∀ t' id', s'.phase t' = .flushing id' → s.phase t' = .flushing id' := by
    intro t' id' ht'
    rcases phase_cases hphase ht' with ⟨-, hp'⟩ | ⟨-, ht'⟩
    · cases hp'
    · exact ht'
  have honly : ∀ t', t' ≠ t → (s.phase t').holdsCompaction = false := fun t' hne =>
    Bool.eq_false_of_not_eq_true fun hcompacts => hne (hl.compacts_alone (by rw [hp]; rfl) hcompacts)
  constructor
  · rw [hthreshold]
    exact h.threshold
  · intro level
    have hshort := h.short level
    rw [hsplit, List.getD_cons_succ] at hshort
    rw [hlevels, List.getD_cons_succ]
    cases level with
    | zero => exact le_rfl
    | succ level => exact hshort
  · rw [htables, hnext]
    intro x hx
    rcases List.mem_append.mp hx with hx | hx
    · exact h.below x (hold ▸ List.mem_append_left _ hx)
    rcases List.mem_cons.mp hx with rfl | hx
    · rw [hid]
      exact hlt
    · exact h.below x (hold ▸ List.mem_append_right _ (mem_tablesOf_deeper hx))
  · rw [htables]
    exact merged_sorted (hold ▸ h.sorted) (hid ▸ hnewer) (hid ▸ hdeep)
  · intro t' id' ht'
    obtain ⟨hid', hall⟩ := h.flushing t' id' (hflush t' id' ht')
    rw [htables, hnext]
    refine ⟨hid', fun x hx => ?_⟩
    rcases List.mem_append.mp hx with hx | hx
    · exact hall x (hold ▸ List.mem_append_left _ hx)
    rcases List.mem_cons.mp hx with rfl | hx
    · rw [hid]
      exact habove t' id' (hflush t' id' ht')
    · exact hall x (hold ▸ List.mem_append_right _ (mem_tablesOf_deeper hx))
  · intro t' levels' ht'
    rcases phase_cases hphase ht' with ⟨-, hp'⟩ | ⟨-, ht'⟩
    · cases hp'
      exact Or.inl hrest
    · exact h.chosen t' levels' ht'
  · intro t' level' current' next' counts' levels₁ ht'
    rcases phase_cases hphase ht' with ⟨-, hp'⟩ | ⟨hne, ht'⟩
    · cases hp'
    · have := honly t' hne
      rw [ht'] at this
      cases this
  · intro t' id' level' current' next' counts' levels₁ ht'
    rcases phase_cases hphase ht' with ⟨-, hp'⟩ | ⟨hne, ht'⟩
    · cases hp'
    · have := honly t' hne
      rw [ht'] at this
      cases this

theorem step [FloatText] [Xxh3] [BloomSizing] (h : Ranked s) (hl : s.LocksOk) {e : Event T} (hs : s.step e = some s')
    (hr : s.Unraced e) :
    Ranked s' := by
  cases Threads.step_move hs with
  | log c hp => exact h.leave rfl rfl rfl rfl rfl rfl
  | put hp => exact h.leave rfl rfl rfl rfl rfl rfl
  | check hp hp' =>
    rcases hp' with rfl | rfl
    · exact h.leave rfl rfl rfl rfl rfl rfl
    · exact h.leave rfl rfl rfl rfl rfl rfl
  | allocate hp =>
    rw [Threads.Unraced, hp] at hr
    exact h.allocate rfl rfl hr
  | publish hp hid hlevels hdb =>
    obtain ⟨tables, journal, rfl⟩ := hdb
    exact h.publish hl hp hid hlevels rfl rfl rfl rfl
  | noLevels hp _ hdb =>
    obtain ⟨tables, journal, rfl⟩ := hdb
    exact h.leave rfl rfl rfl rfl rfl rfl
  | truncate hp => exact h.leave rfl rfl rfl rfl rfl rfl
  | clear hp => exact h.leave rfl rfl rfl rfl rfl rfl
  | choose hp =>
    refine h.move_to rfl rfl rfl rfl (fun _ => Phase.noConfusion) (fun levels hlevels => ?_)
      (fun _ _ _ _ _ hp' => Phase.noConfusion hp') (fun _ _ _ _ _ _ => Phase.noConfusion)
    cases hlevels
    exact h.levelsToCompact_cases
  | finish hp => exact h.leave rfl rfl rfl rfl rfl rfl
  | skip hp =>
    refine h.move_to rfl rfl rfl rfl (fun _ => Phase.noConfusion) (fun levels hlevels => ?_)
      (fun _ _ _ _ _ hp' => Phase.noConfusion hp') (fun _ _ _ _ _ _ => Phase.noConfusion)
    cases hlevels
    rcases h.chosen _ _ hp with hchosen | hchosen
    · cases hchosen
    · exact Or.inl (List.cons.inj hchosen).2
  | openInputs hp hlevel =>
    refine h.move_to rfl rfl rfl rfl (fun _ => Phase.noConfusion)
      (fun _ hp' => Phase.noConfusion hp') (fun level current next counts levels hp' => ?_)
      (fun _ _ _ _ _ _ => Phase.noConfusion)
    cases hp'
    rcases h.chosen _ _ hp with hchosen | hchosen
    · cases hchosen
    obtain ⟨rfl, rfl⟩ := List.cons.inj hchosen
    refine ⟨rfl, rfl, ?_⟩
    match hsplit : s.db.leveledSstable, hlevel with
    | level0 :: level1 :: deeper, _ => exact ⟨[], deeper, by rw [List.append_nil]; rfl⟩
  | allocateMerged hp =>
    rw [Threads.Unraced, hp] at hr
    exact h.allocateMerged hp rfl rfl hr.1 hr.2.1 hr.2.2
  | merge hp hid hdb =>
    obtain ⟨tables, journal, rfl⟩ := hdb
    exact h.merge hl hp hid rfl rfl rfl rfl

end Ranked

/-- Without races in the allocation of ids, and below its wrap-around, a table that `get` looks at
first has the greater id. -/
theorem ids_follow_recency [FloatText] [Xxh3] [BloomSizing] {config : Config} (hthreshold : 2 ≤ config.sstableThreshold)
    {es : List (Event T)}
    (hr : Fold.Along Threads.step Threads.Unraced (Threads.start (.fresh config)) es) {s : Threads T}
    (hs : Threads.exec (Threads.start (.fresh config)) es = some s) :
    s.db.newestFirst.Pairwise fun a b => b.id < a.id := by
  have hinv : s.LocksOk ∧ Ranked s := by
    refine Fold.foldlM_along (P := fun s => s.LocksOk ∧ Ranked s) hs hr
      ⟨.start _, .start hthreshold⟩ ?_
    rintro s e s' - hr ⟨hl, h⟩ hs
    exact ⟨(Threads.step_move hs).locksOk hl, h.step hl hs hr⟩
  exact hinv.2.sorted

end General

section Concrete
open scoped Concrete

/-- Two flushes, and a flush of another thread while the compaction of their tables is at work. -/
def flushDuringMerge : List (Event (Bool)) :=
  [[.call false (.set "a" (.int 1))], Event.advances false 8, [.call false (.set "a" (.int 2))], Event.advances false 9,
    [.call true (.set "a" (.int 3))], Event.advances true 6, Event.advances false 2, Event.advances true 2].flatten

theorem ids_follow_recency_merge : ∃ s, Threads.exec (.start (.fresh ⟨2, 1, 2⟩)) flushDuringMerge = some s ∧
    s.db.newestFirst.map SSTable.id = [3, 2] ∧ s.db.newestFirst.Pairwise fun a b => b.id < a.id := by
  have hrun : ((Threads.exec (.start (.fresh ⟨2, 1, 2⟩)) flushDuringMerge).map fun s =>
      s.db.newestFirst.map SSTable.id) = some [3, 2] := by
    decide +kernel
  obtain ⟨s, hs, hrun⟩ := Option.map_eq_some_iff.mp hrun
  exact ⟨s, hs, hrun, ids_follow_recency (by decide) (by decide +kernel) hs⟩

/-- The other thread takes its id just before the compaction takes one. -/
def flushBeforeMerge : List (Event (Bool)) :=
  [[.call false (.set "a" (.int 1))], Event.advances false 8, [.call false (.set "a" (.int 2))], Event.advances false 8,
    [.call true (.set "a" (.int 3))], Event.advances true 6, Event.advances false 3, Event.advances true 2].flatten

/-- The older value is in the table with the greater id, and a reopened database finds it first. -/
theorem ids_against_recency : ∃ s, Threads.exec (.start (.fresh ⟨2, 1, 2⟩)) flushBeforeMerge = some s ∧
    s.Quiet ∧ s.db.newestFirst.map SSTable.id = [2, 3] ∧
    (s.db.get "a").toOption = some (some (.int 3)) ∧
    ((Database.openInDir s.db.disk ⟨2, 1, 2⟩).bind (·.get "a")).toOption = some (some (.int 2)) := by
  have hrun : ((Threads.exec (.start (.fresh ⟨2, 1, 2⟩)) flushBeforeMerge).map fun s =>
      (s.db.newestFirst.map SSTable.id, (s.db.get "a").toOption,
        ((Database.openInDir s.db.disk ⟨2, 1, 2⟩).bind (·.get "a")).toOption,
        (s.phase false).isIdle && (s.phase true).isIdle)) =
      some ([2, 3], some (some (.int 3)), some (some (.int 2)), true) := by
    decide +kernel
  obtain ⟨s, hs, hrun⟩ := Option.map_eq_some_iff.mp hrun
  simp only [Prod.mk.injEq, Bool.and_eq_true, Phase.isIdle_iff] at hrun
  obtain ⟨hids, hget, hreopen, h0, h1⟩ := hrun
  exact ⟨s, hs, Threads.quiet_of_both h0 h1, hids, hget, hreopen⟩

end Concrete
end KvRaft
