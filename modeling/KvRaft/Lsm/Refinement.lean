import KvRaft.Lsm.DatabaseSpec

/-! The operations of the database against the map that its commands leave. -/

namespace KvRaft
open Outcome Table

def lastEntry (cs : List Command) (k : String) : Option Entry :=
  cs.foldl (fun e c => if k = c.key then some c.entry else e) none

theorem lastEntry_concat (cs : List Command) (c : Command) (k : String) :
    lastEntry (cs ++ [c]) k = if k = c.key then some c.entry else lastEntry cs k := by
  rw [lastEntry, List.foldl_append]
  rfl

/-- The map of the commands is what can be seen of the last entries. -/
theorem fold_eq_visible (cs : List Command) (k : String) :
    Storage.fold cs k = Database.visible (lastEntry cs k) := by
  induction cs using List.reverseRecOn with
  | nil => rfl
  | append_singleton cs c ih =>
    rw [lastEntry_concat, Storage.fold, List.foldl_append]
    cases c with
    | set k' v =>
      change (if k = k' then some v else Storage.fold cs k) = _
      rw [ih]
      split_ifs <;> first | rfl | contradiction
    | delete k' =>
      change (if k = k' then none else Storage.fold cs k) = _
      rw [ih]
      split_ifs <;> first | rfl | contradiction

theorem lookup_foldl_put (cs : List Command) (k : String) :
    (cs.foldl Database.put ∅).lookup k = lastEntry cs k := by
  induction cs using List.reverseRecOn with
  | nil => rfl
  | append_singleton cs c ih =>
    rw [List.foldl_append, lastEntry_concat, ← ih]
    change ((cs.foldl Database.put ∅).insert c.key c.entry).lookup k = _
    split_ifs with h
    · rw [h, AList.lookup_insert]
    · rw [AList.lookup_insert_ne h]

section Volume
variable [FloatText]

/-- What a command can take up in a table. -/
def Command.size (c : Command) : Nat :=
  22 + 2 * (utf8 c.key).length + (match c.value with | some v => v.asBytes.length | none => 0)

def volume (cs : List Command) : Nat := (cs.map Command.size).sum

theorem volume_append (cs cs' : List Command) : volume (cs ++ cs') = volume cs + volume cs' := by
  rw [volume, List.map_append, List.sum_append]
  rfl

theorem entry_size (p : String × Entry) :
    (p.2.command p.1).size = 22 + 2 * (utf8 p.1).length + (valueBytes p.2).length := by
  obtain ⟨k, e⟩ := p
  cases e <;> rfl

theorem recordsSize_add_index (offset : Nat) (es : List (String × Entry)) :
    recordsSize es + (indexBytes (indexFrom offset es)).length =
      ((es.map fun p => p.2.command p.1).map Command.size).sum := by
  induction es generalizing offset with
  | nil => rfl
  | cons p es ih =>
    have := ih (offset + (recordBytes p).length)
    have hrecord : (recordBytes p).length = 10 + (utf8 p.1).length + (valueBytes p.2).length := by
      simp [recordBytes]
      omega
    rw [List.map_cons, List.map_cons, List.sum_cons, ← this, entry_size, indexFrom, indexBytes,
      ← List.singleton_append, recordsSize_append, recordsSize_singleton]
    simp only [List.length_append, Bytes.leBytes_length]
    omega

theorem volume_of_sorted {cs : List Command} {es : List (String × Entry)}
    (hes : es.Pairwise fun a b => a.1 < b.1) (hcs : ∀ p ∈ es, p.2.command p.1 ∈ cs) :
    volume (es.map fun p => p.2.command p.1) ≤ volume cs := by
  have hnodup : (es.map fun p => p.2.command p.1).Nodup := by
    refine List.pairwise_map.mpr (hes.imp fun {a b} hab heq => hab.ne ?_)
    have hkey : ∀ p : String × Entry, (p.2.command p.1).key = p.1 := fun p => by
      rcases p with ⟨k, _ | _⟩ <;> rfl
    rw [← hkey a, heq, hkey b]
  have hsub : (es.map fun p => p.2.command p.1).Subperm cs := hnodup.subperm fun c hc => by
    obtain ⟨p, hp, rfl⟩ := List.mem_map.mp hc
    exact hcs p hp
  obtain ⟨l, hperm, hsublist⟩ := hsub
  rw [volume, volume, ← (hperm.map Command.size).sum_eq]
  exact (hsublist.map _).sum_le_sum fun _ _ => Nat.zero_le _

variable [Xxh3]

variable [BloomSizing]

theorem volume_of_tableSize {n : Nat} {cs : List Command} {es : List (String × Entry)}
    (hes : es.Pairwise fun a b => a.1 < b.1) (hcs : ∀ p ∈ es, p.2.command p.1 ∈ cs)
    (h : 2 ^ 64 ≤ tableSize n es) : 2 ^ 63 ≤ volume cs := by
  have hbloom : (bloomOf n es).toBytes.length ≤ 25 + 2 ^ 61 := by
    have hlt := (bloomOf n es).numBits_lt
    have hlen := (bloomOf n es).length_eq
    simp only [BloomFilter.toBytes, List.length_append, Bytes.leBytes_length, List.length_singleton]
    omega
  have hle := volume_of_sorted hes hcs
  have hsum := recordsSize_add_index headerSize es
  rw [volume] at hle
  rw [tableSize] at h
  have : headerSize = 45 := rfl
  omega

end Volume

namespace Database
variable [FloatText] [Xxh3] [BloomSizing]

/-! When a run creates tables. -/

/-- The state after the write-ahead record and the change of the memtable. -/
def written (db : Database) (c : Command) : Database :=
  { db.after [.appendWal (LogRecord.new db.logLen c).writeTo] with
    logLen := db.logLen + 1
    data := put db.data c }

def FlushDue (db : Database) : Prop := db.dataThreshold ≤ db.data.entries.length

/-- `Q` holds of the state that an operation leaves, if it does not fail. -/
def Then (x : Op Unit) (db : Database) (Q : Database → Prop) : Prop :=
  match x db with
  | .ok _ db' => Q db'
  | .error _ _ => True

omit [FloatText] [Xxh3] [BloomSizing] in
theorem Then.of_eq {x : Op Unit} {db db' : Database} {Q : Database → Prop} (h : Then x db Q)
    (hx : x db = .ok () db') : Q db' := by
  rw [Then, hx] at h
  exact h

omit [FloatText] [Xxh3] [BloomSizing] in
theorem Then.mono {x : Op Unit} {db : Database} {Q Q' : Database → Prop} (h : Then x db Q)
    (hQ : ∀ db', x db = .ok () db' → Q db' → Q' db') : Then x db Q' := by
  unfold Then at h ⊢
  cases hx : x db with
  | ok a db' =>
    rw [hx] at h
    exact hQ db' hx h
  | error e db' => trivial

instance (x : Op Unit) (db : Database) (Q : Database → Prop) [∀ db, Decidable (Q db)] :
    Decidable (Then x db Q) :=
  match h : x db with
  | .ok _ db' => decidable_of_iff (Q db') (by rw [Then, h])
  | .error _ _ => .isTrue (by rw [Then, h]; trivial)

/-- `P` holds whenever compacting the given levels in turn creates a table; `P` is told the level. -/
def CompactsIn (P : Database → Option Nat → Prop) : List Nat → Database → Prop
  | [], _ => True
  | level :: levels, db =>
    (level + 1 < db.leveledSstable.length → db.leveledSstable.getD level [] ≠ [] → P db (some level)) ∧
      Then (compactLevel level) db (CompactsIn P levels)

def CreatesIn (P : Database → Option Nat → Prop) (db : Database) (c : Command) : Prop :=
  let db := ({ db with journal := [] } : Database).written c
  (db.FlushDue → P db none) ∧ Then maybeFlush db fun db => CompactsIn P db.levelsToCompact db

def RunCreatesIn (P : Database → Option Nat → Prop) : List Command → Database → Prop
  | [], _ => True
  | c :: cs, db => db.CreatesIn P c ∧ Then (exec c) db (RunCreatesIn P cs)

/-- The file name that the next table will get is not that of a live table. -/
def NextFree (db : Database) (_ : Option Nat) : Prop := ∀ t ∈ db.newestFirst, t.id ≠ db.nextSstableId

section Decidable
variable {P : Database → Option Nat → Prop} [∀ db level, Decidable (P db level)]

instance decidableCompactsIn : ∀ levels db, Decidable (CompactsIn P levels db)
  | [], _ => .isTrue trivial
  | _ :: levels, _ =>
    have := decidableCompactsIn levels
    inferInstanceAs (Decidable (_ ∧ _))

instance (db : Database) : Decidable db.FlushDue := inferInstanceAs (Decidable (_ ≤ _))

instance (db : Database) (c : Command) : Decidable (db.CreatesIn P c) := inferInstanceAs (Decidable (_ ∧ _))

instance decidableRunCreatesIn : ∀ cs db, Decidable (RunCreatesIn P cs db)
  | [], _ => .isTrue trivial
  | _ :: cs, _ =>
    have := decidableRunCreatesIn cs
    inferInstanceAs (Decidable (_ ∧ _))

instance (db : Database) (level : Option Nat) : Decidable (db.NextFree level) :=
  inferInstanceAs (Decidable (∀ t ∈ db.newestFirst, t.id ≠ db.nextSstableId))

end Decidable

theorem RunCreatesIn.of_append {P : Database → Option Nat → Prop} {cs cs' : List Command} {db : Database}
    (h : RunCreatesIn P (cs ++ cs') db) : RunCreatesIn P cs db := by
  induction cs generalizing db with
  | nil => trivial
  | cons c cs ih => exact ⟨h.1, h.2.mono fun _ _ hrest => ih hrest⟩

theorem execAll_cons {db db' : Database} {c : Command} {cs : List Command}
    (h : execAll (c :: cs) db = .ok () db') :
    ∃ db₁, exec c db = .ok () db₁ ∧ execAll cs db₁ = .ok () db' := by
  obtain ⟨_, db₁, hone, hrest⟩ := bind_eq_ok h
  exact ⟨db₁, hone, hrest⟩

theorem RunCreatesIn.last {P : Database → Option Nat → Prop} {cs : List Command} {c : Command} {db db' : Database}
    (h : RunCreatesIn P (cs ++ [c]) db) (hrun : execAll cs db = .ok () db') : db'.CreatesIn P c := by
  induction cs generalizing db with
  | nil =>
    have hrun : EStateM.Result.ok () db = .ok () db' := hrun
    cases hrun
    exact h.1
  | cons c' cs ih =>
    obtain ⟨db₁, hone, hrest⟩ := execAll_cons hrun
    exact ih (h.2.of_eq hone) hrest

theorem execAll_append {db db₁ : Database} {cs : List Command} (h : execAll cs db = .ok () db₁)
    (cs' : List Command) : execAll (cs ++ cs') db = execAll cs' db₁ := by
  induction cs generalizing db with
  | nil =>
    have h : EStateM.Result.ok () db = .ok () db₁ := h
    cases h
    rfl
  | cons c cs ih =>
    obtain ⟨db₂, hone, hrest⟩ := execAll_cons h
    change EStateM.bind (exec c) (fun _ => execAll (cs ++ cs')) db = _
    rw [EStateM.bind, hone]
    exact ih hrest

theorem execAll_split {db db' : Database} {cs cs' : List Command} (h : execAll (cs ++ cs') db = .ok () db') :
    ∃ db₁, execAll cs db = .ok () db₁ ∧ execAll cs' db₁ = .ok () db' := by
  induction cs generalizing db with
  | nil => exact ⟨db, rfl, h⟩
  | cons c cs ih =>
    obtain ⟨db₁, hone, hrest⟩ := execAll_cons h
    obtain ⟨db₂, hfirst, hlast⟩ := ih hrest
    refine ⟨db₂, ?_, hlast⟩
    change EStateM.bind (exec c) (fun _ => execAll cs) db = _
    rw [EStateM.bind, hone]
    exact hfirst

section Rules
variable {P : Database → Option Nat → Prop} {I : Database → Prop} {E : Prop}

theorem compactLevel_skip {db : Database} {level : Nat}
    (h : ¬ (level + 1 < db.leveledSstable.length ∧ db.leveledSstable.getD level [] ≠ [])) :
    compactLevel level db = .ok () db := by
  unfold compactLevel
  change EStateM.bind EStateM.get _ db = _
  delta EStateM.bind EStateM.get
  dsimp only
  by_cases hlevel : level + 1 < db.leveledSstable.length
  · have hnil : db.leveledSstable.getD level [] = [] := by
      by_contra hne
      exact h ⟨hlevel, hne⟩
    simp only [Nat.not_le.mpr hlevel, if_false, hnil, List.isEmpty_nil, if_true]
    rfl
  · simp only [Nat.not_lt.mp hlevel, if_true]
    rfl

theorem compactLevels_runs
    (hcompact : ∀ db level, I db → level + 1 < db.leveledSstable.length →
      db.leveledSstable.getD level [] ≠ [] → P db (some level) → Runs (compactLevel level) db E fun _ => I)
    {levels : List Nat} {db : Database} (hI : I db) (hP : CompactsIn P levels db) :
    Runs (levels.forM compactLevel) db E fun _ => I := by
  induction levels generalizing db with
  | nil => exact .of_ok rfl hI
  | cons level levels ih =>
    obtain ⟨hcreate, hrest⟩ := hP
    have hone : Runs (compactLevel level) db E fun _ => I := by
      by_cases hwork : level + 1 < db.leveledSstable.length ∧ db.leveledSstable.getD level [] ≠ []
      · exact hcompact db level hI hwork.1 hwork.2 (hcreate hwork.1 hwork.2)
      · exact .of_ok (compactLevel_skip hwork) hI
    exact hone.with_eq.bind fun _ db' ⟨heq, hI'⟩ => ih hI' (hrest.of_eq heq)

omit [Xxh3] [BloomSizing] in
theorem written_nonempty (db : Database) (c : Command) : (db.written c).data.entries ≠ [] := by
  change (put db.data c).entries ≠ []
  rw [put, AList.entries_insert]
  exact List.cons_ne_nil _ _

theorem maybeFlush_runs {db : Database} (hdata : db.data.entries ≠ []) (hI : I db) (hP : db.FlushDue → P db none)
    (hflush : ∀ db, I db → db.data.entries ≠ [] → P db none → Runs flushMemoryToDisk db E fun _ => I) :
    Runs maybeFlush db E fun _ => I := by
  change Runs (if db.dataThreshold ≤ db.data.entries.length then flushMemoryToDisk else pure ()) db E _
  split_ifs with h
  · exact hflush db hI hdata (hP h)
  · exact .of_ok rfl hI

theorem exec_runs {db : Database} {c : Command}
    (hwrite : I (({ db with journal := [] } : Database).written c))
    (hflush : ∀ db, I db → db.data.entries ≠ [] → P db none → Runs flushMemoryToDisk db E fun _ => I)
    (hcompact : ∀ db level, I db → level + 1 < db.leveledSstable.length →
      db.leveledSstable.getD level [] ≠ [] → P db (some level) → Runs (compactLevel level) db E fun _ => I)
    (hP : db.CreatesIn P c) : Runs (exec c) db E fun _ => I := by
  obtain ⟨hdue, hrest⟩ := hP
  have hdata := written_nonempty { db with journal := [] } c
  change Runs (maybeFlush >>= fun _ => maybeCompact) (({ db with journal := [] } : Database).written c) E _
  generalize ({ db with journal := [] } : Database).written c = db₁ at hwrite hdue hrest hdata
  refine (maybeFlush_runs hdata hwrite hdue hflush).with_eq.bind fun _ db₂ ⟨heq, hI⟩ => ?_
  exact compactLevels_runs hcompact hI (hrest.of_eq heq)

end Rules

/-! The refinement. -/

/-- The database stands for the map that the commands `cs` leave; `runs` tells what its tables hold. -/
structure Refines (cs : List Command) (runs : UInt32 → Run String Entry) (db : Database) : Prop where
  stored : ∀ t ∈ db.newestFirst, StoredIn db.disk t (runs t.id)
  nodup : (db.newestFirst.map SSTable.id).Nodup
  thin : ∀ level ∈ db.leveledSstable.tail, level.length ≤ 1
  tables_from : ∀ t ∈ db.newestFirst, ∀ p ∈ (runs t.id).entries, p.2.command p.1 ∈ cs
  data_from : ∀ k e, db.data.lookup k = some e → e.command k ∈ cs
  view : ∀ k, (db.data.lookup k).or (Run.view (db.newestFirst.map fun t => runs t.id) k) = lastEntry cs k

section Refines
variable {cs : List Command} {runs : UInt32 → Run String Entry} {db : Database}

theorem readEntry_stored {d : Disk} {t : SSTable} {r : Run String Entry} (h : StoredIn d t r) (k : String) :
    t.readEntry d k = .ok (r.lookup k) := by
  obtain ⟨file, hread, -, hholds⟩ := h.read
  rw [SSTable.readEntry]
  cases hmay : t.bloomFilter.mayContain k with
  | false => rw [hholds.mayContain hmay]; rfl
  | true =>
    rw [if_neg (by simp), hread]
    exact hholds.readEntry k

theorem findEntry_stored {d : Disk} {ts : List SSTable} (h : ∀ t ∈ ts, StoredIn d t (runs t.id)) (k : String) :
    findEntry d k ts = .ok (Run.view (ts.map fun t => runs t.id) k) := by
  induction ts with
  | nil => rfl
  | cons t ts ih =>
    rw [findEntry, readEntry_stored (h t (List.mem_cons_self ..)), List.map_cons, Run.view_cons]
    have ih := ih fun u hu => h u (List.mem_cons_of_mem _ hu)
    cases hk : (runs t.id).lookup k with
    | none => exact ih
    | some e => rfl

theorem get_stored (h : ∀ t ∈ db.newestFirst, StoredIn db.disk t (runs t.id)) (k : String) :
    db.get k = .ok (visible ((db.data.lookup k).or
      (Run.view (db.newestFirst.map fun t => runs t.id) k))) := by
  rw [get]
  cases db.data.lookup k with
  | some e => rfl
  | none =>
    rw [findEntry_stored h]
    rfl

theorem Refines.get_eq (h : Refines cs runs db) (k : String) : db.get k = .ok (Storage.fold cs k) := by
  rw [get_stored h.stored, h.view, fold_eq_visible]

theorem Refines.fresh (config : Config) (runs : UInt32 → Run String Entry) :
    Refines [] runs (Database.fresh config) := by
  have hnone : (Database.fresh config).newestFirst = [] := by
    simp [newestFirst, Database.fresh]
  refine ⟨?_, ?_, fun level hlevel => ?_, ?_, fun k e h => ?_, fun k => ?_⟩
  · rw [hnone]
    exact fun t ht => nomatch ht
  · rw [hnone]
    exact .nil
  · rw [List.eq_of_mem_replicate (List.mem_of_mem_tail hlevel)]
    exact Nat.zero_le _
  · rw [hnone]
    exact fun t ht => nomatch ht
  · cases h
  · rw [hnone]
    rfl

def commandsOf (r : Run String Entry) : List Command := r.entries.map fun p => p.2.command p.1

omit [FloatText] [Xxh3] [BloomSizing] in
theorem lastEntry_commandsOf (cs : List Command) (r : Run String Entry) (k : String) :
    lastEntry (cs ++ commandsOf r) k = (r.lookup k).or (lastEntry cs k) := by
  obtain ⟨es, hes⟩ := r
  change lastEntry (cs ++ es.map fun p => p.2.command p.1) k = (es.lookup k).or (lastEntry cs k)
  induction es generalizing cs with
  | nil => rw [List.map_nil, List.append_nil, List.lookup_nil, Option.none_or]
  | cons p es ih =>
    obtain ⟨hp, hes⟩ := List.pairwise_cons.mp hes
    have hkey : (p.2.command p.1).key = p.1 := by rcases p with ⟨k, _ | _⟩ <;> rfl
    have hentry : (p.2.command p.1).entry = p.2 := by rcases p with ⟨k, _ | _⟩ <;> rfl
    rw [List.map_cons, ← List.singleton_append, ← List.append_assoc, ih _ hes, lastEntry_concat, hkey, hentry,
      List.lookup_cons]
    by_cases hk : k = p.1
    · subst hk
      -- the keys of a run differ
      have hnone : es.lookup p.1 = none := by
        cases hlookup : es.lookup p.1 with
        | none => rfl
        | some e => exact absurd (hp _ ((Run.lookup_eq_some_iff_mem hes).mp hlookup)) (lt_irrefl p.1)
      rw [hnone, if_pos rfl, beq_self_eq_true]
      rfl
    · rw [if_neg hk, beq_eq_false_iff_ne.mpr hk]

omit [FloatText] [Xxh3] [BloomSizing] in
theorem lastEntry_view (rs : List (Run String Entry)) (k : String) :
    lastEntry (rs.reverse.flatMap commandsOf) k = Run.view rs k := by
  induction rs with
  | nil => rfl
  | cons r rs ih =>
    rw [List.reverse_cons, List.flatMap_append, List.flatMap_singleton, lastEntry_commandsOf, ih, Run.view_cons]

/-- A database whose tables are in order stands for the map of some commands. -/
theorem exists_refines (hstored : ∀ t ∈ db.newestFirst, StoredIn db.disk t (runs t.id))
    (hnodup : (db.newestFirst.map SSTable.id).Nodup) (hthin : ∀ level ∈ db.leveledSstable.tail, level.length ≤ 1) :
    ∃ cs, Refines cs runs db := by
  set rs := memRun db.data :: db.newestFirst.map fun t => runs t.id with hrs
  have hmem : ∀ r ∈ rs, ∀ p ∈ r.entries, p.2.command p.1 ∈ rs.reverse.flatMap commandsOf := fun r hr p hp =>
    List.mem_flatMap.mpr ⟨r, List.mem_reverse.mpr hr, List.mem_map_of_mem hp⟩
  refine ⟨rs.reverse.flatMap commandsOf, hstored, hnodup, hthin, fun t ht => ?_, fun k e he => ?_, fun k => ?_⟩
  · exact hmem _ (List.mem_cons_of_mem _ (List.mem_map_of_mem (f := fun t => runs t.id) ht))
  · exact hmem _ (List.mem_cons_self ..) (k, e) ((mem_sortedEntries db.data).mpr he)
  · rw [lastEntry_view, Run.view_cons, memRun_lookup]

theorem Refines.frame (h : Refines cs runs db) {db' : Database} (hdata : db'.data = db.data)
    (hlevels : db'.leveledSstable = db.leveledSstable)
    (hdisk : ∀ t ∈ db.newestFirst, db'.disk.tables.lookup t.id = db.disk.tables.lookup t.id) :
    Refines cs runs db' := by
  have hfirst : db'.newestFirst = db.newestFirst := by rw [newestFirst, newestFirst, hlevels]
  refine ⟨?_, ?_, ?_, ?_, ?_, ?_⟩
  · rw [hfirst]
    intro t ht
    obtain ⟨file, hfile, hholds⟩ := h.stored t ht
    exact ⟨file, (hdisk t ht).trans hfile, hholds⟩
  · rw [hfirst]
    exact h.nodup
  · rw [hlevels]
    exact h.thin
  · rw [hfirst]
    exact h.tables_from
  · rw [hdata]
    exact h.data_from
  · rw [hdata, hfirst]
    exact h.view

theorem Refines.write (h : Refines cs runs db) (c : Command) : Refines (cs ++ [c]) runs
    (({ db with journal := [] } : Database).written c) := by
  refine ⟨h.stored, h.nodup, h.thin, fun t ht p hp => List.mem_append_left _ (h.tables_from t ht p hp),
    fun k e he => ?_, fun k => ?_⟩
  · change (put db.data c).lookup k = some e at he
    by_cases hk : k = c.key
    · subst hk
      rw [put, AList.lookup_insert] at he
      obtain rfl := Option.some.inj he
      refine List.mem_append_right _ (List.mem_singleton.mpr ?_)
      cases c <;> rfl
    · rw [put, AList.lookup_insert_ne hk] at he
      exact List.mem_append_left _ (h.data_from k e he)
  · change ((put db.data c).lookup k).or (Run.view (db.newestFirst.map fun t => runs t.id) k) = _
    rw [lastEntry_concat]
    split_ifs with hk
    · rw [hk, put, AList.lookup_insert]
      rfl
    · rw [put, AList.lookup_insert_ne hk]
      exact h.view k

theorem memRun_from (h : Refines cs runs db) : ∀ p ∈ (memRun db.data).entries, p.2.command p.1 ∈ cs :=
  fun p hp => h.data_from p.1 p.2 ((mem_sortedEntries db.data).mp hp)

theorem Refines.publish (h : Refines cs runs db) (hfree : ∀ t ∈ db.newestFirst, t.id ≠ db.nextSstableId)
    {db' : Database} {n : Nat} {r : Run String Entry} {newer older : List SSTable}
    (hfirst : db'.newestFirst = newer ++ tableOf db.nextSstableId n r :: older)
    (hsub : (newer ++ older).Sublist db.newestFirst)
    (hfile : db'.disk.tables.lookup db.nextSstableId = some (encode n r.entries))
    (hkeep : ∀ t ∈ newer ++ older, db'.disk.tables.lookup t.id = db.disk.tables.lookup t.id)
    (hfits : ∀ p ∈ r.entries, Fits p) (hsize : tableSize n r.entries < 2 ^ 64)
    (hfrom : ∀ p ∈ r.entries, p.2.command p.1 ∈ cs)
    (hthin : ∀ level ∈ db'.leveledSstable.tail, level.length ≤ 1)
    (hdata : ∀ k e, db'.data.lookup k = some e → e.command k ∈ cs)
    (hview : ∀ k, (db'.data.lookup k).or (Run.view (newer.map (fun t => runs t.id) ++
      r :: older.map fun t => runs t.id) k) = lastEntry cs k) :
    Refines cs (Function.update runs db.nextSstableId r) db' := by
  set id := db.nextSstableId
  have hmem : ∀ t ∈ db'.newestFirst, t = tableOf id n r ∨ t ∈ newer ++ older := fun t ht => by
    rw [hfirst, List.mem_append, List.mem_cons] at ht
    rw [List.mem_append]
    tauto
  -- a fresh id: the runs of the other tables are not overwritten
  have hold : ∀ t ∈ newer ++ older, t.id ≠ id := fun t ht => hfree t (hsub.subset ht)
  have hself : Function.update runs id r (tableOf id n r).id = r := Function.update_self ..
  have hmap : (db'.newestFirst.map fun t => Function.update runs id r t.id) =
      newer.map (fun t => runs t.id) ++ r :: older.map fun t => runs t.id := by
    rw [hfirst, List.map_append, List.map_cons, hself]
    congr 1
    · exact List.map_congr_left fun t ht =>
        Function.update_of_ne (hold t (List.mem_append_left _ ht)) ..
    · exact congrArg _ (List.map_congr_left fun t ht =>
        Function.update_of_ne (hold t (List.mem_append_right _ ht)) ..)
  refine ⟨fun t ht => ?_, ?_, hthin, fun t ht p hp => ?_, hdata, fun k => ?_⟩
  · rcases hmem t ht with rfl | ht
    · rw [hself]
      exact ⟨_, hfile, holds_encode hfits hsize id⟩
    · rw [Function.update_of_ne (hold t ht)]
      obtain ⟨file, hf, hholds⟩ := h.stored t (hsub.subset ht)
      exact ⟨file, (hkeep t ht).trans hf, hholds⟩
  · rw [hfirst, (List.perm_middle.map SSTable.id).nodup_iff, List.map_cons, List.nodup_cons]
    refine ⟨fun hid => ?_, (hsub.map SSTable.id).nodup h.nodup⟩
    obtain ⟨t, ht, hteq⟩ := List.mem_map.mp hid
    exact hold t ht hteq
  · rcases hmem t ht with rfl | ht
    · rw [hself] at hp
      exact hfrom p hp
    · rw [Function.update_of_ne (hold t ht)] at hp
      exact h.tables_from t (hsub.subset ht) p hp
  · rw [hmap]
    exact hview k

theorem flushed_nil (hlevels : db.leveledSstable = []) (r : Run String Entry) :
    db.flushed r = { db.after (flushOps db.nextSstableId r) with
      nextSstableId := db.nextSstableId + 1 } := by
  rw [flushed, hlevels]

theorem flushed_cons {level0 : List SSTable} {levels : List (List SSTable)}
    (hlevels : db.leveledSstable = level0 :: levels) (r : Run String Entry) :
    db.flushed r = { db.after (flushOps db.nextSstableId r ++ [.truncateWal]) with
      nextSstableId := db.nextSstableId + 1
      leveledSstable := (level0 ++ [tableOf db.nextSstableId r.entries.length r]) :: levels
      logLen := 0
      data := ∅ } := by
  rw [flushed, hlevels]

theorem flushed_newestFirst {level0 : List SSTable} {levels : List (List SSTable)}
    (hlevels : db.leveledSstable = level0 :: levels) (r : Run String Entry) :
    (db.flushed r).newestFirst = tableOf db.nextSstableId r.entries.length r :: db.newestFirst := by
  simp only [newestFirst, flushed, hlevels, List.map_cons, List.flatten_cons, List.reverse_append,
    List.reverse_singleton, List.cons_append, List.nil_append]

theorem flushed_tables (db : Database) (r : Run String Entry) : (db.flushed r).disk.tables =
    db.disk.tables.insert db.nextSstableId (encode r.entries.length r.entries) := by
  cases hlevels : db.leveledSstable with
  | nil =>
    rw [flushed_nil hlevels]
    exact congrArg Disk.tables (applyAll_flushOps ..)
  | cons level0 levels =>
    rw [flushed_cons hlevels]
    change (db.disk.applyAll (_ ++ [.truncateWal])).tables = _
    rw [Disk.applyAll_append]
    exact congrArg Disk.tables (applyAll_flushOps ..)

theorem Refines.published (h : Refines cs runs db) (hfree : db.NextFree none)
    (hfits : ∀ p ∈ (memRun db.data).entries, Fits p)
    (hsize : tableSize (memRun db.data).entries.length (memRun db.data).entries < 2 ^ 64)
    {level0 : List SSTable} {levels : List (List SSTable)} (hlevels : db.leveledSstable = level0 :: levels)
    {db' : Database} (hdata : db'.data = db.data ∨ db'.data = ∅)
    (hlevels' : db'.leveledSstable = (level0 ++
      [tableOf db.nextSstableId (memRun db.data).entries.length (memRun db.data)]) :: levels)
    (htables : db'.disk.tables = db.disk.tables.insert db.nextSstableId
      (encode (memRun db.data).entries.length (memRun db.data).entries)) :
    Refines cs (Function.update runs db.nextSstableId (memRun db.data)) db' := by
  have hfirst : db'.newestFirst = [] ++
      tableOf db.nextSstableId (memRun db.data).entries.length (memRun db.data) :: db.newestFirst := by
    simp only [newestFirst, hlevels, hlevels', List.map_cons, List.flatten_cons, List.reverse_append,
      List.reverse_singleton, List.cons_append, List.nil_append]
  have hthin := h.thin
  rw [hlevels] at hthin
  refine h.publish hfree hfirst (List.Sublist.refl _) ?_ ?_ hfits hsize (memRun_from h) ?_ ?_ ?_
  · rw [htables]
    exact AList.lookup_insert _
  · intro t ht
    rw [htables]
    exact AList.lookup_insert_ne (hfree t ht)
  · rw [hlevels']
    exact hthin
  · intro k e he
    rcases hdata with hdata | hdata
    · exact h.data_from k e (hdata ▸ he)
    · rw [hdata] at he
      cases he
  · intro k
    rw [← h.view k, List.map_nil, List.nil_append, Run.view_cons, memRun_lookup]
    rcases hdata with hdata | hdata
    · rw [hdata]
      cases db.data.lookup k <;> rfl
    · rw [hdata]
      rfl

theorem Refines.flush (h : Refines cs runs db) (hfree : db.NextFree none)
    (hfits : ∀ p ∈ (memRun db.data).entries, Fits p)
    (hsize : tableSize (memRun db.data).entries.length (memRun db.data).entries < 2 ^ 64) :
    Refines cs (Function.update runs db.nextSstableId (memRun db.data)) (db.flushed (memRun db.data)) := by
  cases hlevels : db.leveledSstable with
  | nil =>
    have hnone : db.newestFirst = [] := by
      rw [newestFirst, hlevels]
      rfl
    have hview := h.view
    rw [hnone] at hview
    rw [flushed_nil hlevels]
    have hnone' : ({ db.after (flushOps db.nextSstableId (memRun db.data)) with
        nextSstableId := db.nextSstableId + 1 } : Database).newestFirst = [] := hnone
    refine ⟨?_, ?_, h.thin, ?_, h.data_from, ?_⟩
    · rw [hnone']
      exact fun t ht => nomatch ht
    · rw [hnone']
      exact .nil
    · rw [hnone']
      exact fun t ht => nomatch ht
    · rw [hnone']
      exact hview
  | cons level0 levels =>
    have htables := flushed_tables db (memRun db.data)
    rw [flushed_cons hlevels] at htables ⊢
    exact h.published hfree hfits hsize hlevels (Or.inr rfl) rfl htables

omit [FloatText] [Xxh3] [BloomSizing] in
theorem split_levels {α : Type} {ls : List α} {i : Nat} (h : i + 1 < ls.length) :
    ∃ above x y below, ls = above ++ x :: y :: below ∧ above.length = i := by
  refine ⟨ls.take i, ls[i], ls[i + 1], ls.drop (i + 2), ?_, List.length_take_of_le (by omega)⟩
  rw [List.getElem_cons_drop, List.getElem_cons_drop, List.take_append_drop]

omit [FloatText] [Xxh3] [BloomSizing] in
theorem modify_append_cons {α : Type} (above : List α) (x : α) (below : List α) (f : α → α) :
    (above ++ x :: below).modify above.length f = above ++ f x :: below := by
  induction above with
  | nil => rfl
  | cons a above ih => exact congrArg (a :: ·) ih

section Split
variable {above below : List (List SSTable)} {x y : List SSTable}
  (hlevels : db.leveledSstable = above ++ x :: y :: below)
include hlevels

omit [FloatText] [Xxh3] [BloomSizing] in
theorem getD_current : db.leveledSstable.getD above.length [] = x := by
  rw [hlevels]
  simp

omit [FloatText] [Xxh3] [BloomSizing] in
theorem getD_next : db.leveledSstable.getD (above.length + 1) [] = y := by
  rw [hlevels]
  simp

omit [FloatText] [Xxh3] [BloomSizing] in
theorem inputs_split : db.inputs above.length = x ++ y := by
  rw [inputs, getD_current hlevels, getD_next hlevels]

omit [FloatText] [Xxh3] [BloomSizing] in
theorem newestFirst_split : db.newestFirst = (above.map List.reverse).flatten ++
    ((x.reverse ++ y.reverse) ++ (below.map List.reverse).flatten) := by
  rw [newestFirst, hlevels]
  simp

theorem compacted_levels (r : Run String Entry) : (db.compacted above.length r).leveledSstable =
    above ++ [] :: [tableOf db.nextSstableId 1024 r] :: below := by
  have hlen : above.length + 1 = (above ++ [[]]).length := by
    rw [List.length_append, List.length_singleton]
  change ((db.leveledSstable.modify above.length _).modify (above.length + 1) _) = _
  rw [getD_current hlevels, getD_next hlevels, hlevels, modify_append_cons, List.drop_length, hlen,
    ← List.singleton_append, ← List.append_assoc, modify_append_cons, List.drop_length, List.append_assoc]
  rfl

theorem compacted_newestFirst (r : Run String Entry) : (db.compacted above.length r).newestFirst =
    (above.map List.reverse).flatten ++
      tableOf db.nextSstableId 1024 r :: (below.map List.reverse).flatten := by
  rw [newestFirst, compacted_levels hlevels]
  simp

omit [FloatText] [Xxh3] [BloomSizing] in
theorem newestFirst_perm : db.newestFirst.Perm (db.inputs above.length ++
    ((above.map List.reverse).flatten ++ (below.map List.reverse).flatten)) := by
  rw [newestFirst_split hlevels, inputs_split hlevels]
  exact (List.perm_append_comm_assoc ..).trans
    (((List.reverse_perm x).append (List.reverse_perm y)).append_right _)

omit [FloatText] [Xxh3] [BloomSizing] in
theorem inputs_apart (hnodup : (db.newestFirst.map SSTable.id).Nodup) {t : SSTable}
    (ht : t ∈ (above.map List.reverse).flatten ++ (below.map List.reverse).flatten) {u : SSTable}
    (hu : u ∈ db.inputs above.length) : u.id ≠ t.id := by
  rw [((newestFirst_perm hlevels).map SSTable.id).nodup_iff, List.map_append] at hnodup
  intro heq
  exact List.disjoint_of_nodup_append hnodup (List.mem_map_of_mem hu) (heq ▸ List.mem_map_of_mem ht)

end Split

omit [FloatText] [Xxh3] [BloomSizing] in
theorem lookup_removeTables (d : Disk) (ts : List SSTable) {k : UInt32} (hk : ∀ t ∈ ts, t.id ≠ k) :
    (d.applyAll (ts.map fun t => .removeTable t.id)).tables.lookup k = d.tables.lookup k := by
  induction ts generalizing d with
  | nil => rfl
  | cons t ts ih =>
    have hne : k ≠ t.id := (hk t (List.mem_cons_self ..)).symm
    exact (ih _ fun u hu => hk u (List.mem_cons_of_mem _ hu)).trans (AList.lookup_erase_ne hne)

theorem compacted_disk (db : Database) (level : Nat) (r : Run String Entry) : (db.compacted level r).disk =
    (db.disk.store db.nextSstableId (encode 1024 r.entries)).applyAll
      ((db.inputs level).map fun t => .removeTable t.id) := by
  change db.disk.applyAll (compactOps _ _ _) = _
  rw [compactOps, Disk.applyAll_append]
  exact congrArg (Disk.applyAll · _) (applyAll_contentOps ..)

theorem compacted_lookup (level : Nat) (r : Run String Entry) {k : UInt32}
    (hk : ∀ t ∈ db.inputs level, t.id ≠ k) : (db.compacted level r).disk.tables.lookup k =
      (db.disk.tables.insert db.nextSstableId (encode 1024 r.entries)).lookup k := by
  rw [compacted_disk, lookup_removeTables _ _ hk]
  rfl

/-- The database after a compaction, whichever of its inputs have been removed. -/
structure MergedInto (db : Database) (level : Nat) (r : Run String Entry) (db' : Database) : Prop where
  data : db'.data = db.data
  levels : db'.leveledSstable = (db.compacted level r).leveledSstable
  file : db'.disk.tables.lookup db.nextSstableId = some (encode 1024 r.entries)
  keep : ∀ id, (∀ t ∈ db.inputs level, t.id ≠ id) → id ≠ db.nextSstableId →
    db'.disk.tables.lookup id = db.disk.tables.lookup id

theorem compacted_merged (level : Nat) (r : Run String Entry)
    (hfree : ∀ t ∈ db.inputs level, t.id ≠ db.nextSstableId) : MergedInto db level r (db.compacted level r) where
  data := rfl
  levels := rfl
  file := by
    rw [compacted_lookup _ _ hfree]
    exact AList.lookup_insert _
  keep id hid hne := by
    rw [compacted_lookup _ _ hid]
    exact AList.lookup_insert_ne hne

theorem Refines.merged (h : Refines cs runs db) (hfree : ∀ t ∈ db.newestFirst, t.id ≠ db.nextSstableId)
    {level : Nat} (hlevel : level + 1 < db.leveledSstable.length) {r : Run String Entry}
    (hfits : ∀ p ∈ r.entries, Fits p) (hsize : tableSize 1024 r.entries < 2 ^ 64)
    (hview : ∀ k, r.lookup k = Run.view (((db.leveledSstable.getD level []).reverse ++
      (db.leveledSstable.getD (level + 1) []).reverse).map fun t => runs t.id) k)
    {db' : Database} (hm : MergedInto db level r db') :
    Refines cs (Function.update runs db.nextSstableId r) db' := by
  obtain ⟨above, x, y, below, hlevels, rfl⟩ := split_levels hlevel
  rw [getD_current hlevels, getD_next hlevels] at hview
  have hfirst := newestFirst_split hlevels
  have hfirst' : db'.newestFirst = (above.map List.reverse).flatten ++
      tableOf db.nextSstableId 1024 r :: (below.map List.reverse).flatten := by
    rw [newestFirst, hm.levels]
    exact compacted_newestFirst hlevels r
  have hsub : ((above.map List.reverse).flatten ++ (below.map List.reverse).flatten).Sublist
      db.newestFirst := hfirst ▸ (List.Sublist.refl _).append (List.sublist_append_right ..)
  refine h.publish hfree hfirst' hsub hm.file
    (fun t ht => hm.keep t.id (fun u => inputs_apart hlevels h.nodup ht) (hfree t (hsub.subset ht))) hfits hsize
    (fun p hp => ?_) ?_ (hm.data ▸ h.data_from) fun k => ?_
  · -- an entry of the merge comes from one of its inputs
    have hp' : r.lookup p.1 = some p.2 := r.lookup_eq_some.mpr hp
    rw [hview] at hp'
    obtain ⟨run, hrun, hmem⟩ := Run.mem_of_view hp'
    obtain ⟨t, ht, rfl⟩ := List.mem_map.mp hrun
    refine h.tables_from t (hfirst ▸ List.mem_append_right _ (List.mem_append_left _ ht)) p hmem
  · rw [hm.levels, compacted_levels hlevels]
    have hthin := h.thin
    rw [hlevels] at hthin
    cases above with
    | nil =>
      intro level hl
      rcases List.mem_cons.mp hl with rfl | hl
      · exact le_rfl
      · exact hthin level (List.mem_cons_of_mem _ hl)
    | cons a above =>
      intro level hl
      rcases List.mem_append.mp hl with hl | hl
      · exact hthin level (List.mem_append_left _ hl)
      · rcases List.mem_cons.mp hl with rfl | hl
        · exact Nat.zero_le _
        · rcases List.mem_cons.mp hl with rfl | hl
          · exact le_rfl
          · exact hthin level (List.mem_append_right _ (List.mem_cons_of_mem _ (List.mem_cons_of_mem _ hl)))
  · -- a merged run stands for its inputs where they stood
    have hlookup : r.lookup = Run.view ((x.reverse ++ y.reverse).map fun t => runs t.id) := funext hview
    rw [Run.view_merge hlookup, ← h.view k, hfirst, hm.data]
    simp only [List.map_append]

omit [FloatText] [Xxh3] [BloomSizing] in
theorem mem_of_inputs {level : Nat} (hlevel : level + 1 < db.leveledSstable.length) {t : SSTable}
    (ht : t ∈ db.inputs level) : t ∈ db.newestFirst := by
  obtain ⟨above, x, y, below, hlevels, rfl⟩ := split_levels hlevel
  exact (newestFirst_perm hlevels).symm.subset (List.mem_append_left _ ht)

theorem Refines.inputs_nodup (h : Refines cs runs db) {level : Nat} (hlevel : level + 1 < db.leveledSstable.length) :
    ((db.inputs level).map SSTable.id).Nodup := by
  obtain ⟨above, x, y, below, hlevels, rfl⟩ := split_levels hlevel
  have hnodup := ((newestFirst_perm hlevels).map SSTable.id).nodup_iff.mp h.nodup
  rw [List.map_append] at hnodup
  exact hnodup.of_append_left

theorem Refines.next_single (h : Refines cs runs db) (level : Nat) :
    (db.leveledSstable.getD (level + 1) []).length ≤ 1 := by
  rw [List.getD_eq_getElem?_getD]
  cases hget : db.leveledSstable[level + 1]? with
  | none => exact Nat.zero_le 1
  | some tables =>
    refine h.thin tables (List.mem_of_getElem? (i := level) ?_)
    rw [List.getElem?_tail]
    exact hget

/-! A run. -/

structure Alongside (P : Database → Option Nat → Prop) (J : Database → Prop) : Prop where
  free : ∀ db level, J db → P db level → db.NextFree level
  write : ∀ db c, c.Fits → J db → J (({ db with journal := [] } : Database).written c)
  flush : ∀ db, J db → P db none → J (db.flushed (memRun db.data))
  compact : ∀ db level r, J db → P db (some level) → level + 1 < db.leveledSstable.length →
    J (db.compacted level r)

theorem Alongside.nextFree : Alongside NextFree fun _ => True where
  free _ _ _ h := h
  write _ _ _ _ := trivial
  flush _ _ _ := trivial
  compact _ _ _ _ _ _ := trivial

section Alongside
variable {P : Database → Option Nat → Prop} {J : Database → Prop} (hJ : Alongside P J)
include hJ

theorem Refines.exec (h : Refines cs runs db) (hj : J db) {c : Command} (hfits : ∀ c' ∈ cs ++ [c], c'.Fits)
    (hP : db.CreatesIn P c) : Runs (exec c) db (2 ^ 63 ≤ volume (cs ++ [c]))
      fun _ db' => (∃ runs', Refines (cs ++ [c]) runs' db') ∧ J db' := by
  have hc : c.Fits := hfits c (List.mem_append_right _ (List.mem_singleton_self c))
  refine exec_runs (P := P) ⟨⟨runs, h.write c⟩, hJ.write db c hc hj⟩ ?_ ?_ hP
  · rintro db ⟨⟨runs, h⟩, hj⟩ hdata hnone
    have hmem : ∀ p ∈ (memRun db.data).entries, Fits p := fun p hp => hfits _ (memRun_from h p hp)
    refine (flush_runs db hdata hmem (volume_of_tableSize (memRun db.data).sorted (memRun_from h))).mono ?_
    rintro _ _ ⟨rfl, hsize⟩
    exact ⟨⟨_, h.flush (hJ.free db none hj hnone) hmem hsize⟩, hJ.flush db hj hnone⟩
  · rintro db level ⟨⟨runs, h⟩, hj⟩ hlevel hcurrent hsome
    have hfree := hJ.free db (some level) hj hsome
    have hinputs : ∀ t ∈ db.inputs level, t ∈ db.newestFirst := fun t => mem_of_inputs hlevel
    refine (compact_runs hlevel hcurrent (h.next_single level) (fun t ht => h.stored t (hinputs t ht))
      (h.inputs_nodup hlevel) (fun t ht => hfree t (hinputs t ht))
      fun es hes hfrom => volume_of_tableSize hes fun p hp => ?_).mono ?_
    · obtain ⟨t, ht, hpt⟩ := hfrom p hp
      exact h.tables_from t (hinputs t ht) p hpt
    · rintro _ _ ⟨r, rfl, hsize, hfits, hview⟩
      exact ⟨⟨_, h.merged hfree hlevel hfits hsize hview
        (compacted_merged level r fun t ht => hfree t (hinputs t ht))⟩, hJ.compact db level r hj hsome hlevel⟩

theorem Refines.execAll {cs' : List Command} (h : Refines cs runs db) (hj : J db)
    (hfits : ∀ c ∈ cs ++ cs', c.Fits) (hP : RunCreatesIn P cs' db) :
    Runs (execAll cs') db (2 ^ 63 ≤ volume (cs ++ cs'))
      fun _ db' => (∃ runs', Refines (cs ++ cs') runs' db') ∧ J db' := by
  induction cs' generalizing cs runs db with
  | nil => exact .of_ok rfl ⟨⟨runs, by rwa [List.append_nil]⟩, hj⟩
  | cons c cs' ih =>
    have hsplit : cs ++ c :: cs' = cs ++ [c] ++ cs' := by rw [List.append_assoc, List.singleton_append]
    rw [hsplit] at hfits ⊢
    have hone := h.exec hJ hj (fun c' hc' => hfits c' (List.mem_append_left _ hc')) hP.1
    refine (hone.weaken fun hbig => hbig.trans ?_).with_eq.bind ?_
    · rw [volume_append (cs ++ [c])]
      exact Nat.le_add_right ..
    · rintro _ db' ⟨heq, ⟨runs', h'⟩, hj'⟩
      exact ih h' hj' hfits (hP.2.of_eq heq)

end Alongside
end Refines

section Fresh
variable {config : Config} {cs : List Command} (hfits : ∀ c ∈ cs, c.Fits)
include hfits

theorem fresh_execAll {P : Database → Option Nat → Prop} {J : Database → Prop} (hJ : Alongside P J)
    (hj : J (.fresh config)) (hP : RunCreatesIn P cs (.fresh config)) :
    Runs (execAll cs) (.fresh config) (2 ^ 63 ≤ volume cs) fun _ db => (∃ runs, Refines cs runs db) ∧ J db :=
  (Refines.fresh config fun _ => ⟨[], .nil⟩).execAll hJ hj hfits hP

theorem fresh_ends {P : Database → Option Nat → Prop} {J : Database → Prop} (hJ : Alongside P J)
    (hj : J (.fresh config)) (hP : RunCreatesIn P cs (.fresh config)) (hsmall : volume cs < 2 ^ 63) :
    ∃ db runs, execAll cs (.fresh config) = .ok () db ∧ Refines cs runs db := by
  have hrun := fresh_execAll hfits hJ hj hP
  obtain ⟨_, db, heq⟩ := hrun.ok_of_not (Nat.not_le.mpr hsmall)
  obtain ⟨⟨runs, h⟩, -⟩ := hrun.of_eq_ok heq
  exact ⟨db, runs, heq, h⟩

end Fresh

theorem fresh_runs (config : Config) {cs : List Command} (hfits : ∀ c ∈ cs, c.Fits)
    (hP : RunCreatesIn NextFree cs (.fresh config)) :
    Runs (execAll cs) (.fresh config) (2 ^ 63 ≤ volume cs) fun _ db => ∃ runs, Refines cs runs db :=
  (fresh_execAll hfits .nextFree trivial hP).mono fun _ _ h => h.1

theorem fresh_refines (config : Config) {cs : List Command} (hfits : ∀ c ∈ cs, c.Fits)
    (hP : RunCreatesIn NextFree cs (.fresh config)) (hsmall : volume cs < 2 ^ 63) :
    ∃ db runs, execAll cs (.fresh config) = .ok () db ∧ Refines cs runs db :=
  fresh_ends hfits .nextFree trivial hP hsmall

end Database

end KvRaft
