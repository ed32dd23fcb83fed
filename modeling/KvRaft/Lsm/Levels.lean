import KvRaft.Lsm.Refinement

/-! The levels along a run of writes and clean reopens: all tables but one are in level 0, in the order of
their ids, and the one in level 1 is older than they are. -/

namespace KvRaft
open Outcome Table

def FileOp.target : FileOp → Option UInt32
  | .createTable id | .appendTable id _ | .finishTable id _ => some id
  | .appendWal _ | .truncateWal | .removeTable _ => none

/-- The header of a table goes to its file last. -/
def FileOp.completes : FileOp → Bool
  | .finishTable .. => true
  | _ => false

def completed (ops : List FileOp) : Nat := ops.countP FileOp.completes

theorem completed_append (ops ops' : List FileOp) : completed (ops ++ ops') = completed ops + completed ops' :=
  List.countP_append

namespace Disk

def Below (d : Disk) (n : UInt32) : Prop := ∀ id ∈ d.tables, id < n

theorem Below.insert {d : Disk} {n : UInt32} (h : d.Below n) {id : UInt32} (hid : id < n) (file : Bytes) :
    Below { d with tables := d.tables.insert id file } n := by
  intro id' hmem
  rcases (AList.mem_insert _).mp hmem with rfl | hmem
  · exact hid
  · exact h id' hmem

theorem Below.apply {d : Disk} {n : UInt32} (h : d.Below n) {op : FileOp} (hop : ∀ id ∈ op.target, id < n) :
    (d.apply op).Below n := by
  cases op with
  | appendWal bytes => exact h
  | truncateWal => exact h
  | createTable id => exact h.insert (hop id rfl) _
  | appendTable id bytes => exact h.insert (hop id rfl) _
  | finishTable id header => exact h.insert (hop id rfl) _
  | removeTable id => exact fun id' hmem => h id' (AList.mem_erase.mp hmem).2

theorem Below.applyAll {d : Disk} {n : UInt32} (h : d.Below n) {ops : List FileOp}
    (hops : ∀ op ∈ ops, ∀ id ∈ op.target, id < n) : (d.applyAll ops).Below n := by
  induction ops generalizing d with
  | nil => exact h
  | cons op ops ih =>
    exact ih (h.apply (hops op (List.mem_cons_self ..))) fun op' hop' => hops op' (List.mem_cons_of_mem _ hop')

end Disk

namespace Database

structure Writes (id : UInt32) (ops : List FileOp) : Prop where
  target : ∀ op ∈ ops, ∀ id' ∈ op.target, id' = id
  completed : completed ops = 1

theorem contentOps_writes (id : UInt32) (c : Contents) : Writes id (contentOps id c) := by
  constructor
  · intro op hop id' hid'
    rcases List.mem_append.mp hop with hop | hop
    · obtain ⟨bytes, -, rfl⟩ := List.mem_map.mp hop
      exact (Option.some.inj hid').symm
    · rw [List.mem_singleton.mp hop] at hid'
      exact (Option.some.inj hid').symm
  · have hnone : completed (c.file.map (.appendTable id ·)) = 0 := by
      refine List.countP_eq_zero.mpr fun op hop => ?_
      obtain ⟨bytes, -, rfl⟩ := List.mem_map.mp hop
      exact Bool.false_ne_true
    rw [contentOps, completed_append, hnone]
    rfl

theorem Writes.around {id : UInt32} {ops before behind : List FileOp} (h : Writes id ops)
    (hbefore : ∀ op ∈ before, op.completes = false ∧ ∀ id' ∈ op.target, id' = id)
    (hbehind : ∀ op ∈ behind, op.completes = false ∧ ∀ id' ∈ op.target, id' = id) :
    Writes id (before ++ ops ++ behind) := by
  have hnone : ∀ {ops' : List FileOp}, (∀ op ∈ ops', op.completes = false ∧ ∀ id' ∈ op.target, id' = id) →
      KvRaft.completed ops' = 0 := fun hops' => List.countP_eq_zero.mpr fun op hop => by
    rw [(hops' op hop).1]
    exact Bool.false_ne_true
  constructor
  · intro op hop
    rcases List.mem_append.mp hop with hop | hop
    · rcases List.mem_append.mp hop with hop | hop
      · exact (hbefore op hop).2
      · exact h.target op hop
    · exact (hbehind op hop).2
  · rw [completed_append, completed_append, hnone hbefore, hnone hbehind, h.completed]

theorem flush_writes (id : UInt32) (c : Contents) : Writes id
    ([.createTable id, .appendTable id (writeHeader emptyHeader), .createTable id] ++ contentOps id c ++
      [.truncateWal]) := by
  refine (contentOps_writes id c).around (fun op hop => ?_) fun op hop => ?_
  · simp only [List.mem_cons, List.not_mem_nil, or_false] at hop
    rcases hop with rfl | rfl | rfl
    · exact ⟨rfl, fun id' hid' => (Option.some.inj hid').symm⟩
    · exact ⟨rfl, fun id' hid' => (Option.some.inj hid').symm⟩
    · exact ⟨rfl, fun id' hid' => (Option.some.inj hid').symm⟩
  · rw [List.mem_singleton.mp hop]
    exact ⟨rfl, fun id' hid' => nomatch hid'⟩

theorem compact_writes (id : UInt32) (c : Contents) (inputs : List SSTable) : Writes id
    ([.createTable id] ++ contentOps id c ++ inputs.map fun t => .removeTable t.id) := by
  refine (contentOps_writes id c).around (fun op hop => ?_) fun op hop => ?_
  · rw [List.mem_singleton.mp hop]
    exact ⟨rfl, fun id' hid' => (Option.some.inj hid').symm⟩
  · obtain ⟨t, -, rfl⟩ := List.mem_map.mp hop
    exact ⟨rfl, fun id' hid' => nomatch hid'⟩

structure Creates (db : Database) (t : SSTable) (levels : List (List SSTable)) (db' : Database) : Prop where
  id : t.id = db.nextSstableId
  next : db'.nextSstableId = db.nextSstableId + 1
  levels : db'.leveledSstable = levels
  threshold : db'.sstableThreshold = db.sstableThreshold
  files : ∃ ops, Writes db.nextSstableId ops ∧ db'.disk = db.disk.applyAll ops ∧ db'.journal = db.journal ++ ops

theorem lift_keeps {α : Type} (x : Except Fault α) (db : Database) :
    Runs (lift x) db True fun _ db' => db' = db := by
  cases x with
  | ok a => exact (rfl : db = db)
  | error e => exact trivial

section Create
variable {db : Database} {level0 level1 : List SSTable} {deep : List (List SSTable)}

theorem flush_creates [FloatText] [Xxh3] [BloomSizing] {levels : List (List SSTable)} (hdata : db.data.entries ≠ [])
    (hlevels : db.leveledSstable = level0 :: levels) :
    Runs flushMemoryToDisk db True fun _ db' => ∃ t, Creates db t ((level0 ++ [t]) :: levels) db' := by
  have hempty : db.data.entries.isEmpty = false := by
    cases h : db.data.entries with
    | nil => exact absurd h hdata
    | cons => rfl
  unfold flushMemoryToDisk
  refine .step rfl ?_
  simp only [hempty]
  refine .step (a := db.nextSstableId) rfl (.step (emit_eq _ _) (.step (emit_eq _ _) (.step (emit_eq _ _) ?_)))
  refine (lift_keeps _ _).bind ?_
  rintro c _ rfl
  refine .step (writeContents_eq _ _ _) (.step rfl ((lift_keeps _ _).bind ?_))
  rintro bloomFilter _ rfl
  simp only [after, hlevels]
  refine .step rfl (.step (emit_eq _ _) (.of_ok rfl ⟨⟨db.nextSstableId, c.index, bloomFilter⟩, ?_⟩))
  refine ⟨rfl, rfl, rfl, rfl, _, flush_writes db.nextSstableId c, ?_, ?_⟩
  · simp only [after, Disk.applyAll_append]
    rfl
  · simp only [after, List.append_assoc]
    rfl

theorem removeFiles_keeps (ts : List SSTable) (db : Database) :
    Runs (ts.forM fun t => removeFile t.id) db True fun _ db' =>
      db' = db.after (ts.map fun t => .removeTable t.id) := by
  refine Runs.forM (I := fun done db' => db' = db.after (done.map fun t : SSTable => .removeTable t.id)) ?_ ?_
  · simp [after, Disk.applyAll]
  · rintro done t rest db₁ - rfl
    refine .step rfl ((lift_keeps _ _).bind ?_)
    rintro _ _ rfl
    refine .of_ok (emit_eq _ _) ?_
    rw [after_after, List.map_append]
    rfl

theorem compact_creates [FloatText] [Xxh3] [BloomSizing] (hcurrent : level0 ≠ [])
    (hlevels : db.leveledSstable = level0 :: level1 :: deep) :
    Runs (compactLevel 0) db True fun _ db' => ∃ t, Creates db t ([] :: [t] :: deep) db' := by
  have hempty : level0.isEmpty = false := by
    cases level0 with
    | nil => exact absurd rfl hcurrent
    | cons => rfl
  unfold compactLevel
  refine .step rfl ?_
  simp only [hlevels, List.length_cons, List.getD_cons_zero, List.getD_cons_succ, hempty]
  rw [if_neg (by omega)]
  refine (lift_keeps _ _).bind ?_
  rintro counts db₁ heq
  rw [heq]
  refine .step (a := db.nextSstableId) rfl (.step (emit_eq _ _) (.step rfl ((lift_keeps _ _).bind ?_)))
  rintro c _ rfl
  refine .step (writeContents_eq _ _ _) (.step rfl ((lift_keeps _ _).bind ?_))
  rintro bloomFilter _ rfl
  refine .step rfl ((removeFiles_keeps _ _).mono ?_)
  rintro _ _ rfl
  refine ⟨⟨db.nextSstableId, c.index, bloomFilter⟩, rfl, rfl, ?_, rfl, _,
    compact_writes db.nextSstableId c (level0 ++ level1), ?_, ?_⟩
  · simp only [after, hlevels, List.modify_zero_cons, List.modify_succ_cons, List.drop_length, List.nil_append]
  · simp only [after, Disk.applyAll_append]
  · simp only [after, List.append_assoc]

end Create

/-- One table at most in level 1, and none below it. -/
structure Shaped (config : Config) (db : Database) : Prop where
  threshold : db.sstableThreshold = config.sstableThreshold
  levels : ∃ level0 level1 deep, db.leveledSstable = level0 :: level1 :: deep ∧ level1.length ≤ 1 ∧
    ∀ level ∈ deep, level = []

/-- The ids of the tables fall in the order of `get`, and the counter is above them. -/
structure Numbered (db : Database) : Prop where
  falling : db.newestFirst.Pairwise fun a b => b.id < a.id
  below : ∀ t ∈ db.newestFirst, t.id < db.nextSstableId
  files : db.disk.Below db.nextSstableId

def NumberedBy (n : Nat) (db : Database) : Prop :=
  n < 2 ^ 32 → db.Numbered ∧ db.nextSstableId.toNat ≤ n

theorem newestFirst_shaped {db : Database} {level0 level1 : List SSTable} {deep : List (List SSTable)}
    (hlevels : db.leveledSstable = level0 :: level1 :: deep) (hdeep : ∀ level ∈ deep, level = []) :
    db.newestFirst = level0.reverse ++ level1.reverse := by
  have hnil : (deep.map List.reverse).flatten = [] := by
    refine List.flatten_eq_nil_iff.mpr fun level hlevel => ?_
    obtain ⟨level', hlevel', rfl⟩ := List.mem_map.mp hlevel
    rw [hdeep level' hlevel', List.reverse_nil]
  rw [newestFirst, hlevels, List.map_cons, List.map_cons, List.flatten_cons, List.flatten_cons, hnil,
    List.append_nil]

section Creates
variable {config : Config} {db db' : Database} {t : SSTable} {levels : List (List SSTable)}

theorem Creates.numbered (hc : Creates db t levels db') {rest : List SSTable}
    (hfirst : db'.newestFirst = t :: rest) (hrest : rest.Sublist db.newestFirst) {n : Nat}
    (h : db.NumberedBy (n + completed db.journal)) : db'.NumberedBy (n + completed db'.journal) := by
  obtain ⟨ops, hops, hdisk, hjournal⟩ := hc.files
  rw [hjournal, completed_append, hops.completed, ← Nat.add_assoc]
  intro hlt
  obtain ⟨hnum, hle⟩ := h (by omega)
  have hwrap : db.nextSstableId < db.nextSstableId + 1 := by
    rw [UInt32.lt_iff_toNat_lt, UInt32.toNat_add]
    change _ < (db.nextSstableId.toNat + 1) % 2 ^ 32
    rw [Nat.mod_eq_of_lt (by omega)]
    exact Nat.lt_succ_self _
  refine ⟨⟨?_, ?_, ?_⟩, ?_⟩
  · rw [hfirst]
    refine List.pairwise_cons.mpr ⟨fun u hu => ?_, hnum.falling.sublist hrest⟩
    rw [hc.id]
    exact hnum.below u (hrest.subset hu)
  · rw [hfirst, hc.next]
    intro u hu
    rcases List.mem_cons.mp hu with rfl | hu
    · rw [hc.id]
      exact hwrap
    · exact UInt32.lt_trans (hnum.below u (hrest.subset hu)) hwrap
  · rw [hdisk, hc.next]
    have hfiles : db.disk.Below (db.nextSstableId + 1) := fun id hid => UInt32.lt_trans (hnum.files id hid) hwrap
    refine hfiles.applyAll fun op hop id hid => ?_
    rw [hops.target op hop id hid]
    exact hwrap
  · rw [hc.next, UInt32.toNat_add]
    exact (Nat.mod_le ..).trans (Nat.succ_le_succ hle)

end Creates

section Exec
variable {config : Config} {db : Database} {n : Nat}

theorem Shaped.short (h : Shaped config db) (hthreshold : 2 ≤ config.sstableThreshold) (level : Nat) :
    (db.leveledSstable.getD (level + 1) []).length < db.sstableThreshold := by
  obtain ⟨level0, level1, deep, hlevels, hone, hdeep⟩ := h.levels
  rw [h.threshold, hlevels, List.getD_cons_succ]
  cases level with
  | zero => exact hone.trans_lt hthreshold
  | succ level =>
    have hnil : deep.getD level [] = [] := by
      rw [List.getD_eq_getElem?_getD]
      cases hget : deep[level]? with
      | none => rfl
      | some tables => exact hdeep tables (List.mem_of_getElem? hget)
    rw [List.getD_cons_succ, hnil]
    exact Nat.zero_lt_of_lt hthreshold

theorem maybeFlush_keeps [FloatText] [Xxh3] [BloomSizing] (hdata : db.data.entries ≠ []) (h : Shaped config db)
    (hn : db.NumberedBy (n + completed db.journal)) : Runs maybeFlush db True fun _ db' =>
      Shaped config db' ∧ db'.NumberedBy (n + completed db'.journal) := by
  obtain ⟨level0, level1, deep, hlevels, hone, hdeep⟩ := h.levels
  change Runs (if db.dataThreshold ≤ db.data.entries.length then flushMemoryToDisk else pure ()) db True _
  split_ifs
  · refine (flush_creates hdata hlevels).mono ?_
    rintro _ db' ⟨t, hc⟩
    refine ⟨⟨hc.threshold.trans h.threshold, _, level1, deep, hc.levels, hone, hdeep⟩,
      hc.numbered ?_ (List.Sublist.refl _) hn⟩
    rw [newestFirst_shaped hc.levels hdeep, newestFirst_shaped hlevels hdeep, List.reverse_append]
    rfl
  · exact .of_ok rfl ⟨h, hn⟩

theorem maybeCompact_keeps [FloatText] [Xxh3] [BloomSizing] (hthreshold : 2 ≤ config.sstableThreshold)
    (h : Shaped config db) (hn : db.NumberedBy (n + completed db.journal)) : Runs maybeCompact db True fun _ db' =>
      Shaped config db' ∧ db'.NumberedBy (n + completed db'.journal) ∧
      (db'.leveledSstable.getD 0 []).length < config.sstableThreshold := by
  obtain ⟨level0, level1, deep, hlevels, hone, hdeep⟩ := h.levels
  change Runs (db.levelsToCompact.forM compactLevel) db True _
  rw [levelsToCompact_eq hlevels (h.short hthreshold)]
  split_ifs with hfull
  · have hcurrent : level0 ≠ [] := by
      rintro rfl
      rw [h.threshold] at hfull
      exact absurd (hthreshold.trans hfull) (by decide)
    refine Runs.bind (compact_creates hcurrent hlevels) ?_
    rintro _ db' ⟨t, hc⟩
    refine .of_ok rfl ⟨⟨hc.threshold.trans h.threshold, _, _, deep, hc.levels, le_rfl, hdeep⟩,
      hc.numbered (newestFirst_shaped hc.levels hdeep) (List.nil_sublist _) hn, ?_⟩
    · rw [hc.levels]
      exact Nat.zero_lt_of_lt hthreshold
  · refine .of_ok rfl ⟨h, hn, ?_⟩
    rw [hlevels, ← h.threshold]
    exact Nat.not_le.mp hfull

theorem exec_keeps [FloatText] [Xxh3] [BloomSizing] (hthreshold : 2 ≤ config.sstableThreshold) (h : Shaped config db)
    (hn : db.NumberedBy n) (c : Command) : Runs (exec c) db True fun _ db' =>
      Shaped config db' ∧ db'.NumberedBy (n + completed db'.journal) ∧
      (db'.leveledSstable.getD 0 []).length < config.sstableThreshold := by
  change Runs (maybeFlush >>= fun _ => maybeCompact) (({ db with journal := [] } : Database).written c) True _
  have hdata := written_nonempty { db with journal := [] } c
  have hwritten : (({ db with journal := [] } : Database).written c).NumberedBy (n + completed
      (({ db with journal := [] } : Database).written c).journal) := fun hlt =>
    ⟨⟨(hn hlt).1.falling, (hn hlt).1.below, (hn hlt).1.files⟩, (hn hlt).2⟩
  refine (maybeFlush_keeps hdata ⟨h.threshold, h.levels⟩ hwritten).bind fun _ db' h' => ?_
  exact maybeCompact_keeps hthreshold h'.1 h'.2

end Exec

section Reopen

theorem toNat_max (a b : UInt32) : (max a b).toNat = max a.toNat b.toNat := by
  change (if a ≤ b then b else a).toNat = _
  split_ifs with h
  · rw [Nat.max_eq_right (UInt32.le_iff_toNat_le.mp h)]
  · rw [Nat.max_eq_left (UInt32.le_iff_toNat_le.mp (UInt32.le_of_lt (UInt32.not_le.mp h)))]

theorem toNat_succ {a n : UInt32} (h : a < n) : (a + 1).toNat = a.toNat + 1 := by
  have := n.toNat_lt
  rw [UInt32.lt_iff_toNat_lt] at h
  rw [UInt32.toNat_add]
  change (a.toNat + 1) % 2 ^ 32 = _
  exact Nat.mod_eq_of_lt (by omega)

/-- The files in the order in which they are loaded. -/
def fileIds (d : Disk) : List UInt32 := d.tables.keys.insertionSort (· ≤ ·)

theorem mem_fileIds {d : Disk} {id : UInt32} : id ∈ fileIds d ↔ id ∈ d.tables := by
  rw [fileIds, (List.perm_insertionSort _ _).mem_iff]
  exact Iff.rfl

theorem fileIds_increasing (d : Disk) : (fileIds d).Pairwise (· < ·) := by
  have hle : (fileIds d).Pairwise (· ≤ ·) := List.pairwise_insertionSort (r := (· ≤ ·)) _
  have hne : (fileIds d).Nodup := (List.perm_insertionSort _ _).nodup_iff.mpr d.tables.keys_nodup
  exact hle.imp₂ (fun a b h h' => UInt32.lt_of_le_of_ne h h') hne

structure Loaded (config : Config) (d : Disk) (done : List UInt32) (db : Database) : Prop where
  threshold : db.sstableThreshold = config.sstableThreshold
  disk : db.disk = d
  journal : db.journal = []
  levels : ∃ level0, db.leveledSstable = level0 :: List.replicate (config.sstableLevel - 1) [] ∧
    level0.map SSTable.id = done
  next : ∀ n, d.Below n → (∀ id ∈ done, id < db.nextSstableId) ∧ db.nextSstableId ≤ n

theorem Loaded.step {config : Config} {d : Disk} {done : List UInt32} {db : Database}
    (h : Loaded config d done db) {id : UInt32} (hid : id ∈ d.tables) :
    Returns (loadTable db id) True (Loaded config d (done ++ [id])) := by
  obtain ⟨level0, hlevels, hdone⟩ := h.levels
  have hopen : Returns (SSTable.openFile db.disk id) True fun t => t.id = id := by
    unfold SSTable.openFile
    refine Returns.bind (Q := fun _ => True) ?_ fun file _ => Returns.bind (Q := fun _ => True) ?_
      fun bloomFilter _ => Returns.bind (Q := fun _ => True) ?_ fun index _ => .of_ok rfl rfl
    · unfold Returns
      split <;> trivial
    · unfold Returns
      split <;> trivial
    · unfold Returns
      split <;> trivial
  rw [loadTable, hlevels]
  refine hopen.bind fun t ht => .of_ok rfl ⟨h.threshold, h.disk, h.journal, ⟨_, rfl, ?_⟩, fun n hn => ?_⟩
  · rw [List.map_append, hdone, List.map_singleton, ht]
  · obtain ⟨hbelow, hle⟩ := h.next n hn
    have hlt := hn id hid
    have hsucc := toNat_succ hlt
    have hmax := toNat_max db.nextSstableId (id + 1)
    rw [UInt32.lt_iff_toNat_lt] at hlt
    rw [UInt32.le_iff_toNat_le] at hle
    refine ⟨fun id' hid' => UInt32.lt_iff_toNat_lt.mpr ?_, UInt32.le_iff_toNat_le.mpr ?_⟩
    · change id'.toNat < (max db.nextSstableId (id + 1)).toNat
      rw [hmax, hsucc]
      rcases List.mem_append.mp hid' with hid' | hid'
      · exact lt_max_of_lt_left (UInt32.lt_iff_toNat_lt.mp (hbelow id' hid'))
      · rw [List.mem_singleton.mp hid']
        exact lt_max_of_lt_right (Nat.lt_succ_self _)
    · change (max db.nextSstableId (id + 1)).toNat ≤ n.toNat
      rw [hmax, hsucc]
      exact max_le hle hlt

theorem Loaded.start {config : Config} (hlevel : 1 ≤ config.sstableLevel) (len : UInt64) (d : Disk) :
    Loaded config d [] { fresh config with logLen := len, disk := d } := by
  refine ⟨rfl, rfl, rfl, ⟨[], ?_, rfl⟩, fun n _ => ⟨fun id hid => absurd hid List.not_mem_nil, ?_⟩⟩
  · change List.replicate config.sstableLevel [] = _
    rw [← List.replicate_succ, Nat.sub_add_cancel hlevel]
  · exact UInt32.le_iff_toNat_le.mpr (Nat.zero_le _)

theorem open_loads [FloatText] {config : Config} (hlevel : 1 ≤ config.sstableLevel) (disk : Disk) :
    Returns (openInDir disk config) True fun db =>
      Loaded config { disk with wal := (Logger.openFile disk.wal).1 } (fileIds disk) db := by
  set d : Disk := { disk with wal := (Logger.openFile disk.wal).1 } with hd
  have hload :
      Returns (({ fresh config with logLen := (Logger.openFile disk.wal).2, disk := d } : Database).loadSstables)
      True (Loaded config d (fileIds d)) := by
    refine Returns.foldlM (I := fun done db => Loaded config d done db) (.start hlevel _ d) ?_
    rintro done id rest db hsplit h
    refine h.step (mem_fileIds.mp ?_)
    change id ∈ d.tables.keys.insertionSort (· ≤ ·)
    rw [hsplit]
    exact List.mem_append_right _ (List.mem_cons_self ..)
  exact hload.bind fun db h => .of_ok rfl ⟨h.threshold, h.disk, h.journal, h.levels, h.next⟩

theorem Loaded.shaped {config : Config} {d : Disk} {db : Database} (h : Loaded config d (fileIds d) db)
    (hlevel : 2 ≤ config.sstableLevel) : Shaped config db := by
  obtain ⟨level0, hlevels, -⟩ := h.levels
  refine ⟨h.threshold, level0, [], List.replicate (config.sstableLevel - 2) [], ?_, Nat.zero_le _,
    fun level hmem => List.eq_of_mem_replicate hmem⟩
  rw [hlevels, ← List.replicate_succ, show config.sstableLevel - 2 + 1 = config.sstableLevel - 1 by omega]

theorem newestFirst_level0 {db : Database} {level0 : List SSTable} {n : Nat}
    (hlevels : db.leveledSstable = level0 :: List.replicate n []) : db.newestFirst = level0.reverse := by
  rw [newestFirst, hlevels, List.map_cons, List.flatten_cons, List.map_replicate, List.reverse_nil,
    List.flatten_replicate_nil, List.append_nil]

theorem Loaded.numbered {config : Config} {d : Disk} {db : Database} (h : Loaded config d (fileIds d) db)
    {n : UInt32} (hn : d.Below n) : db.Numbered ∧ db.nextSstableId ≤ n := by
  obtain ⟨level0, hlevels, hids⟩ := h.levels
  obtain ⟨hbelow, hle⟩ := h.next n hn
  have hfirst := newestFirst_level0 hlevels
  refine ⟨⟨?_, fun t ht => ?_, ?_⟩, hle⟩
  · rw [hfirst, List.pairwise_reverse, ← List.pairwise_map (f := SSTable.id), hids]
    exact fileIds_increasing d
  · rw [hfirst, List.mem_reverse] at ht
    exact hbelow t.id (hids ▸ List.mem_map_of_mem ht)
  · rw [h.disk]
    exact fun id hid => hbelow id (mem_fileIds.mpr hid)

/-- A database that opens has its tables in level 0, under different ids. -/
theorem open_levels [FloatText] {disk : Disk} {config : Config} {db : Database} (h : openInDir disk config = .ok db) :
    (db.newestFirst.map SSTable.id).Nodup ∧ ∀ level ∈ db.leveledSstable.tail, level.length ≤ 1 := by
  cases hn : config.sstableLevel with
  | zero =>
    have hnone : Returns (openInDir disk config) True fun db => db.leveledSstable = [] := by
      refine Returns.bind (Q := fun db : Database => db.leveledSstable = []) ?_ fun db hdb => .of_ok rfl hdb
      refine Returns.foldlM (I := fun _ (db : Database) => db.leveledSstable = []) ?_ fun _ id _ db _ hdb => ?_
      · change List.replicate config.sstableLevel [] = []
        rw [hn, List.replicate_zero]
      · rw [loadTable, hdb]
        exact hdb
    rw [h] at hnone
    have hnil : db.leveledSstable = [] := hnone
    rw [newestFirst, hnil]
    exact ⟨.nil, fun level hlevel => absurd hlevel List.not_mem_nil⟩
  | succ n =>
    have hlevel : 1 ≤ config.sstableLevel := by
      rw [hn]
      exact Nat.succ_pos n
    have hloads := open_loads hlevel disk
    rw [h] at hloads
    obtain ⟨level0, hlevels, hids⟩ := Loaded.levels hloads
    constructor
    · rw [newestFirst_level0 hlevels, List.map_reverse, List.nodup_reverse, hids]
      exact (fileIds_increasing disk).imp fun hlt => UInt32.ne_of_lt hlt
    · rw [hlevels]
      intro level hlevel
      rw [List.eq_of_mem_replicate hlevel]
      exact Nat.zero_le 1

end Reopen
end Database

/-- A call of the process, or a clean end of it and the start of the next. -/
inductive Call where
  | write (c : Command)
  | reopen

structure Session where
  db : Database
  created : Nat

section Session
open Database

def Call.run [FloatText] [Xxh3] [BloomSizing] (config : Config) (db : Database) : Call → Except Fault Database
  | .write c => match exec c db with
    | .ok _ db => .ok db
    | .error e _ => .error e
  | .reopen => openInDir db.disk config

def Session.step [FloatText] [Xxh3] [BloomSizing] (config : Config) (s : Session) (call : Call) :
    Except Fault Session := do
  let db ← call.run config s.db
  return ⟨db, s.created + completed db.journal⟩

def Session.run [FloatText] [Xxh3] [BloomSizing] (config : Config) (calls : List Call) : Except Fault Session :=
  calls.foldlM (Session.step config) ⟨.fresh config, 0⟩

/-- How many tables are in level 0, by the last call. -/
def LevelZero (config : Config) (db : Database) : Option Call → Prop
  | some (.write _) => (db.leveledSstable.getD 0 []).length < config.sstableThreshold
  | some .reopen => (db.leveledSstable.getD 0 []).map SSTable.id = fileIds db.disk
  | none => db.leveledSstable.getD 0 [] = []

structure Leveled (config : Config) (last : Option Call) (db : Database) : Prop where
  deep : ∀ level, 2 ≤ level → db.leveledSstable.getD level [] = []
  single : (db.leveledSstable.getD 1 []).length ≤ 1
  count : LevelZero config db last
  increasing : ((db.leveledSstable.getD 0 []).map SSTable.id).Pairwise (· < ·)
  above : ∀ t ∈ db.leveledSstable.getD 0 [], ∀ u ∈ db.leveledSstable.getD 1 [], u.id < t.id
  next : ∀ t ∈ db.newestFirst, t.id < db.nextSstableId

theorem Leveled.of_shaped {config : Config} {last : Option Call} {db : Database} (h : Shaped config db)
    (hn : db.Numbered) (hcount : LevelZero config db last) : Leveled config last db := by
  obtain ⟨level0, level1, deep, hlevels, hone, hdeep⟩ := h.levels
  have hfalling := hn.falling
  rw [newestFirst_shaped hlevels hdeep, List.pairwise_append, List.pairwise_reverse] at hfalling
  refine ⟨fun level hlevel => ?_, ?_, hcount, ?_, ?_, hn.below⟩
  · obtain ⟨level, rfl⟩ := Nat.exists_eq_add_of_le' hlevel
    rw [hlevels, List.getD_cons_succ, List.getD_cons_succ, List.getD_eq_getElem?_getD]
    cases hget : deep[level]? with
    | none => rfl
    | some tables => exact hdeep tables (List.mem_of_getElem? hget)
  · rw [hlevels]
    exact hone
  · rw [hlevels]
    exact List.pairwise_map.mpr hfalling.1
  · rw [hlevels]
    exact fun t ht u hu => hfalling.2.2 t (List.mem_reverse.mpr ht) u (List.mem_reverse.mpr hu)

structure Session.Kept (config : Config) (calls : List Call) (s : Session) : Prop where
  shaped : Shaped config s.db
  numbered : s.db.NumberedBy s.created
  count : LevelZero config s.db calls.getLast?

theorem Session.Kept.start {config : Config} (hlevel : 2 ≤ config.sstableLevel) :
    Session.Kept config [] ⟨.fresh config, 0⟩ := by
  have hload : Loaded config .empty (fileIds .empty) (.fresh config) :=
    .start (Nat.one_le_of_lt hlevel) 0 .empty
  refine ⟨hload.shaped hlevel, fun _ => ?_, ?_⟩
  · have hempty : Disk.empty.Below 0 := fun id hid => absurd hid List.not_mem_nil
    obtain ⟨hn, hle⟩ := hload.numbered hempty
    exact ⟨hn, UInt32.le_iff_toNat_le.mp hle⟩
  · obtain ⟨level0, hlevels, hids⟩ := hload.levels
    change (Database.fresh config).leveledSstable.getD 0 [] = []
    rw [hlevels]
    exact List.map_eq_nil_iff.mp hids

theorem Session.Kept.step [FloatText] [Xxh3] [BloomSizing] {config : Config} (hlevel : 2 ≤ config.sstableLevel)
    (hthreshold : 2 ≤ config.sstableThreshold) {calls : List Call} {s : Session} (h : s.Kept config calls)
    (call : Call) : Returns (s.step config call) True (Session.Kept config (calls ++ [call])) := by
  have hlast : (calls ++ [call]).getLast? = some call := List.getLast?_concat
  cases call with
  | write c =>
    have hexec := exec_keeps hthreshold h.shaped h.numbered c
    rw [Session.step, Call.run]
    cases heq : exec c s.db with
    | error e db => exact trivial
    | ok a db =>
      obtain ⟨hshaped, hnumbered, hcount⟩ := hexec.of_eq_ok heq
      exact ⟨hshaped, hnumbered, by rw [hlast]; exact hcount⟩
  | reopen =>
    refine (open_loads (Nat.one_le_of_lt hlevel) s.db.disk).bind fun db hdb => .of_ok rfl ?_
    have hcreated : s.created + completed db.journal = s.created := by
      rw [hdb.journal]
      rfl
    rw [hcreated]
    refine ⟨hdb.shaped hlevel, fun hlt => ?_, ?_⟩
    · obtain ⟨hn, hle⟩ := h.numbered hlt
      obtain ⟨hn', hle'⟩ := hdb.numbered hn.files
      exact ⟨hn', (UInt32.le_iff_toNat_le.mp hle').trans hle⟩
    · rw [hlast]
      obtain ⟨level0, hlevels, hids⟩ := hdb.levels
      change (db.leveledSstable.getD 0 []).map SSTable.id = fileIds db.disk
      rw [hlevels, hdb.disk]
      exact hids

/-- After every run of fewer than `2 ^ 32` tables the levels are in shape. -/
theorem levels_in_shape [FloatText] [Xxh3] [BloomSizing] {config : Config} (hlevel : 2 ≤ config.sstableLevel)
    (hthreshold : 2 ≤ config.sstableThreshold) {calls : List Call} {s : Session}
    (hrun : Session.run config calls = .ok s) (hcreated : s.created < 2 ^ 32) :
    Leveled config calls.getLast? s.db := by
  have hkept : Returns (Session.run config calls) True (Session.Kept config calls) := by
    exact Returns.foldlM (I := fun done s => Session.Kept config done s) (.start hlevel)
      fun done call rest s _ h => h.step hlevel hthreshold call
  rw [hrun] at hkept
  have hkept : s.Kept config calls := hkept
  exact .of_shaped hkept.shaped (hkept.numbered hcreated).1 hkept.count

end Session

section Concrete
open scoped Concrete

/-- Three flushes and a compaction, then a reopen. -/
def reopenedRun : List Call :=
  [.write (.set "a" (.int 1)), .write (.set "b" (.int 2)), .write (.set "a" (.int 3)), .reopen]

theorem levels_in_shape_reopened : ∃ s, Session.run ⟨2, 1, 2⟩ reopenedRun = .ok s ∧
    s.db.leveledSstable.map (·.map SSTable.id) = [[2, 3], []] ∧
      Leveled ⟨2, 1, 2⟩ reopenedRun.getLast? s.db := by
  have hrun : ((Session.run ⟨2, 1, 2⟩ reopenedRun).toOption.map fun s =>
      (s.db.leveledSstable.map (·.map SSTable.id), s.created)) = some ([[2, 3], []], 4) := by
    decide +kernel
  cases heq : Session.run ⟨2, 1, 2⟩ reopenedRun with
  | error e =>
    rw [heq] at hrun
    cases hrun
  | ok s =>
    rw [heq] at hrun
    obtain ⟨hids, hcreated⟩ := Prod.mk.inj (Option.some.inj hrun)
    exact ⟨s, rfl, hids, levels_in_shape (by decide) (by decide) heq (hcreated ▸ by decide)⟩

end Concrete
end KvRaft
