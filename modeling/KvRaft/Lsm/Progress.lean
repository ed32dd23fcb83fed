import KvRaft.Lsm.Linearizable

/-! The threads of a database do not block each other: a lock is held only inside an operation, a thread that
holds one waits for nobody but lookups, and a lookup inside the tables waits for nothing. -/

namespace KvRaft
open Outcome Table Database

/-- The next step needs the memtable, which a flush may have. -/
def Phase.needsData : Phase → Bool
  | .logged .. | .updated | .full => true
  | _ => false

theorem Phase.needsData_of_holdsData {p : Phase} (h : p.holdsData = true) : p.needsData = false := by
  cases p with
  | flushing | published | truncated => rfl
  | _ => cases h

def Reader.inside : Reader → Bool
  | .idle | .done .. => false
  | _ => true

namespace Threads
variable {T : Type} {s s' : Threads T} {t : T}

/-- A lock is held by a thread that is in its critical section. -/
structure Held (s : Threads T) : Prop where
  data : ∀ t, s.dataLock = some t → (s.phase t).holdsData = true
  compaction : ∀ t, s.compactionLock = some t → (s.phase t).holdsCompaction = true

theorem Held.start (db : Database) : (start db : Threads T).Held :=
  ⟨fun _ h => (by cases h), fun _ h => (by cases h)⟩

variable [DecidableEq T]

theorem held_update {holds : Phase → Bool} {l l' : Option T} {phase : T → Phase}
    (h : ∀ t, l = some t → holds (phase t) = true) {p : Phase}
    (hl : l' = none ∨ (l' = some t ∧ holds p = true) ∨ (l' = l ∧ holds (phase t) = false)) :
    ∀ t', l' = some t' → holds (Function.update phase t p t') = true := by
  intro t' ht'
  rcases hl with rfl | ⟨rfl, hp⟩ | ⟨rfl, hp⟩
  · cases ht'
  · obtain rfl := Option.some.inj ht'
    rwa [Function.update_self]
  · have hold := h t' ht'
    rw [Function.update_of_ne]
    · exact hold
    · rintro rfl
      rw [hp] at hold
      cases hold

variable [FloatText]

theorem Move.held {e : Event T} (hs : Move s e s') (hl : s.LocksOk) (h : s.Held) : s'.Held := by
  have hd : ∀ {t : T} {p : Phase}, (s.phase t).holdsData = false → ∀ t', s.dataLock = some t' →
      (Function.update s.phase t p t').holdsData = true := fun hp => held_update h.data (.inr (.inr ⟨rfl, hp⟩))
  have hc : ∀ {t : T} {p : Phase}, (s.phase t).holdsCompaction = false → ∀ t', s.compactionLock = some t' →
      (Function.update s.phase t p t').holdsCompaction = true := fun hp =>
    held_update h.compaction (.inr (.inr ⟨rfl, hp⟩))
  -- a thread that keeps its lock
  have hkd : ∀ {t : T} {p : Phase}, (s.phase t).holdsData = true → p.holdsData = true → ∀ t', s.dataLock = some t' →
      (Function.update s.phase t p t').holdsData = true := fun hp hp' =>
    held_update h.data (.inr (.inl ⟨hl.data _ hp, hp'⟩))
  have hkc : ∀ {t : T} {p : Phase}, (s.phase t).holdsCompaction = true → p.holdsCompaction = true → ∀ t',
      s.compactionLock = some t' → (Function.update s.phase t p t').holdsCompaction = true := fun hp hp' =>
    held_update h.compaction (.inr (.inl ⟨hl.compaction _ hp, hp'⟩))
  cases hs with
  | log c hp => exact ⟨hd (by rw [hp]; rfl), hc (by rw [hp]; rfl)⟩
  | put hp hlock => exact ⟨hd (by rw [hp]; rfl), hc (by rw [hp]; rfl)⟩
  | check hp hp' =>
    rcases hp with hp | hp
    · exact ⟨hd (by rw [hp]; rfl), hc (by rw [hp]; rfl)⟩
    · exact ⟨hd (by rw [hp]; rfl), hc (by rw [hp]; rfl)⟩
  | allocate hp hlock => exact ⟨held_update h.data (.inr (.inl ⟨rfl, rfl⟩)), hc (by rw [hp]; rfl)⟩
  | publish hp => exact ⟨hkd (by rw [hp]; rfl) rfl, hc (by rw [hp]; rfl)⟩
  | noLevels hp => exact ⟨held_update h.data (.inl rfl), hc (by rw [hp]; rfl)⟩
  | truncate hp => exact ⟨hkd (by rw [hp]; rfl) rfl, hc (by rw [hp]; rfl)⟩
  | clear hp => exact ⟨held_update h.data (.inl rfl), hc (by rw [hp]; rfl)⟩
  | choose hp hlock => exact ⟨hd (by rw [hp]; rfl), held_update h.compaction (.inr (.inl ⟨rfl, rfl⟩))⟩
  | finish hp => exact ⟨hd (by rw [hp]; rfl), held_update h.compaction (.inl rfl)⟩
  | skip hp => exact ⟨hd (by rw [hp]; rfl), hkc (by rw [hp]; rfl) rfl⟩
  | openInputs hp => exact ⟨hd (by rw [hp]; rfl), hkc (by rw [hp]; rfl) rfl⟩
  | allocateMerged hp => exact ⟨hd (by rw [hp]; rfl), hkc (by rw [hp]; rfl) rfl⟩
  | merge hp => exact ⟨hd (by rw [hp]; rfl), hkc (by rw [hp]; rfl) rfl⟩

theorem Move.tables (hs : Move s (.advance t) s') (hplain : (s.phase t).tableId = none) :
    s'.db.disk.tables = s.db.disk.tables := by
  cases hs with
  | publish hp | noLevels hp | merge hp =>
    rw [hp] at hplain
    cases hplain
  | _ => rfl

theorem Move.phase_ne {e : Event T} (hs : Move s e s') {t' : T} (h : t' ≠ e.thread) : s'.phase t' = s.phase t' := by
  cases hs <;> exact Function.update_of_ne h ..

end Threads

namespace Lookups

section Progress
variable {T R : Type} [FloatText] [Xxh3]

structure Orderly (s : Lookups T R) : Prop where
  held : s.threads.Held
  readers : ∀ r ∈ s.levelsLock, ∃ key since todo, s.reader r = .searching key since todo
  once : s.levelsLock.Nodup
  removing : ∀ t, s.removing t ≠ [] → ∃ levels, s.threads.phase t = .compacting levels
  files : ∀ t, ((s.removing t).map SSTable.id).Nodup ∧
    ∀ table ∈ s.removing t, table.id ∈ s.threads.db.disk.tables

namespace Orderly
variable {runs : UInt32 → Run String Entry} {s s' : Lookups T R} {threads : Threads T} {t : T}

omit [FloatText] [Xxh3] in
theorem advances (h : Orderly s) (hheld : threads.Held) (hphase : ∀ t' ≠ t, threads.phase t' = s.threads.phase t')
    (hidle : s.removing t = []) (hfiles : ∀ id ∈ s.threads.db.disk.tables, id ∈ threads.db.disk.tables)
    (taken : List Command) (allocated : Nat) :
    Orderly { s with threads := threads, taken := taken, allocated := allocated } := by
  refine ⟨hheld, h.readers, h.once, fun t' hne => ?_, fun t' => ⟨(h.files t').1, fun table htable => ?_⟩⟩
  · have hother : t' ≠ t := by
      rintro rfl
      exact hne hidle
    obtain ⟨levels, hlevels⟩ := h.removing t' hne
    exact ⟨levels, (hphase t' hother).trans hlevels⟩
  · exact hfiles _ ((h.files t').2 table htable)

theorem flush_files [DecidableEq T] [BloomSizing] (hsound : Sound runs s) {id : UInt32}
    (hid : s.threads.phase t = .flushing id)
    (hs : s.threads.advance t = some threads) : ∀ i ∈ s.threads.db.disk.tables, i ∈ threads.db.disk.tables := by
  simp only [Threads.advance, hid] at hs
  obtain ⟨⟨ok, db⟩, hr, rfl⟩ := Option.map_eq_some_iff.mp hs
  have htables : db.disk.tables = s.threads.db.disk.tables.insert id
      (encode (memRun s.threads.db.data).entries.length (memRun s.threads.db.data).entries) := by
    rcases (hsound.flush_runs id).of_eq_ok (Threads.succeed_eq_some hr) with ⟨-, -, rfl⟩ | ⟨_, _, -, -, -, rfl⟩ <;>
      exact congrArg Disk.tables (applyAll_flushOps ..)
  intro i hi
  have hmem : i ∈ db.disk.tables := by
    rw [htables]
    exact AList.mem_insert _ |>.mpr (.inr hi)
  cases ok with
  | false => exact hmem
  | true => exact hmem

theorem merge [DecidableEq T] [BloomSizing] (h : Orderly s) (hsound : Sound runs s) {id : UInt32} {level : Nat}
    {current next : List SSTable}
    {counts levels : List Nat} (hid : s.threads.phase t = .merging id level current next counts levels)
    (hs : s.merge t id level current next counts levels = some s') : Orderly s' := by
  obtain ⟨hinputs, -⟩ := hsound.merge_inputs hid
  obtain ⟨⟨_, db⟩, hr, rfl⟩ := Option.map_eq_some_iff.mp hs
  obtain ⟨run, hdb, -⟩ := (hsound.merge_runs hid).of_eq_ok (Threads.succeed_eq_some hr)
  have htables : db.disk.tables = s.threads.db.disk.tables.insert id (encode 1024 run.entries) := by
    rw [show db = _ from hdb]
    exact congrArg Disk.tables (applyAll_mergeOps ..)
  have hkeep : ∀ i ∈ s.threads.db.disk.tables, i ∈ db.disk.tables := by
    intro i hi
    rw [htables]
    exact AList.mem_insert _ |>.mpr (.inr hi)
  have hholds := hsound.locks.compaction t (by rw [hid]; rfl)
  -- the thread has been the only one to compact, so that no other one has files to remove
  have hidle : ∀ t' ≠ t, s.removing t' = [] := by
    intro t' hne
    by_contra hsome
    obtain ⟨levels', hlevels⟩ := h.removing t' hsome
    exact hne (hsound.locks.compacts_alone (by rw [hid]; rfl) (by rw [hlevels]; rfl))
  refine ⟨⟨?_, ?_⟩, h.readers, h.once, fun t' hne => ?_, fun t' => ?_⟩
  · exact Threads.held_update h.held.data (.inr (.inr ⟨rfl, by rw [hid]; rfl⟩))
  · exact Threads.held_update h.held.compaction (.inr (.inl ⟨hholds, rfl⟩))
  · by_cases heq : t' = t
    · subst heq
      exact ⟨levels, Threads.goto_phase_self ..⟩
    · refine absurd ?_ hne
      exact (Function.update_of_ne heq ..).trans (hidle t' heq)
  · change ((Function.update s.removing t (current ++ next) t').map SSTable.id).Nodup ∧
      ∀ table ∈ Function.update s.removing t (current ++ next) t', table.id ∈ db.disk.tables
    by_cases heq : t' = t
    · subst heq
      rw [Function.update_self]
      refine ⟨?_, fun table htable => hkeep _ ?_⟩
      · obtain ⟨newer, older, hreplaces⟩ := hinputs.replaced (congrArg Database.leveledSstable hdb)
        exact hreplaces.inputs_nodup hsound.refines.nodup
      · obtain ⟨file, hfile, -⟩ := hsound.refines.stored table (hinputs.live table htable)
        exact AList.lookup_isSome.mp (hfile ▸ rfl)
    · rw [Function.update_of_ne heq, hidle t' heq]
      exact ⟨.nil, fun table htable => absurd htable List.not_mem_nil⟩

omit [FloatText] [Xxh3] in
theorem remove [DecidableEq T] (h : Orderly s) (hlocks : s.threads.LocksOk) {input : SSTable} {inputs : List SSTable}
    (hremoving : s.removing t = input :: inputs) {r : Unit × Database}
    (hr : removeFile input.id s.threads.db = .ok r.1 r.2) :
    Orderly { s with
      threads := { s.threads with db := r.2 }
      removing := Function.update s.removing t inputs } := by
  have hdb := (removeFile_runs input.id s.threads.db).of_eq_ok hr
  generalize r.2 = db at hdb
  subst hdb
  have hself := h.files t
  rw [hremoving] at hself
  obtain ⟨hnot, hnodup⟩ := List.nodup_cons.mp hself.1
  obtain ⟨levels, hlevels⟩ := h.removing t (by rw [hremoving]; exact List.cons_ne_nil _ _)
  have hidle : ∀ t' ≠ t, s.removing t' = [] := by
    intro t' hne
    by_contra hsome
    obtain ⟨levels', hlevels'⟩ := h.removing t' hsome
    exact hne (hlocks.compacts_alone (by rw [hlevels]; rfl) (by rw [hlevels']; rfl))
  refine ⟨⟨h.held.data, h.held.compaction⟩, h.readers, h.once, fun t' hne => ?_, fun t' => ?_⟩
  · by_cases heq : t' = t
    · subst heq
      exact ⟨levels, hlevels⟩
    · refine absurd ?_ hne
      exact (Function.update_of_ne heq ..).trans (hidle t' heq)
  · change ((Function.update s.removing t inputs t').map SSTable.id).Nodup ∧
      ∀ table ∈ Function.update s.removing t inputs t', table.id ∈ s.threads.db.disk.tables.erase input.id
    by_cases heq : t' = t
    · subst heq
      rw [Function.update_self]
      refine ⟨hnodup, fun table htable => AList.mem_erase.mpr ⟨?_, ?_⟩⟩
      · rintro heq
        exact hnot (heq ▸ List.mem_map_of_mem htable)
      · exact hself.2 table (List.mem_cons_of_mem input htable)
    · rw [Function.update_of_ne heq, hidle t' heq]
      exact ⟨.nil, fun table htable => absurd htable List.not_mem_nil⟩

theorem advance [DecidableEq T] [BloomSizing] (h : Orderly s) (hsound : Sound runs s) (hs : s.advance t = some s') :
    Orderly s' := by
  unfold Lookups.advance at hs
  split at hs
  · next input inputs hremoving =>
    obtain ⟨r, hr, rfl⟩ := Option.map_eq_some_iff.mp hs
    exact h.remove hsound.locks hremoving (Threads.succeed_eq_some hr)
  · next hidle =>
    split_ifs at hs
    split at hs
    · next hid => exact h.merge hsound hid hs
    · next hother =>
      obtain ⟨threads, hthreads, rfl⟩ := Option.map_eq_some_iff.mp hs
      have hmove := Threads.advance_move hthreads
      refine h.advances (t := t) (hmove.held hsound.locks h.held) (fun t' hne => hmove.phase_ne hne) hidle ?_ _ _
      cases hid : (s.threads.phase t).tableId with
      | none =>
        rw [hmove.tables hid]
        exact fun i hi => hi
      | some id =>
        cases hp : s.threads.phase t with
        | flushing id' => exact flush_files hsound hp hthreads
        | merging => exact (hother _ _ _ _ _ _ hp).elim
        | _ => rw [hp] at hid; cases hid

section Read
variable {r : R} {reader : Reader}

omit [FloatText] [Xxh3] in
theorem setReader [DecidableEq R] (h : Orderly s) {lock : List R} (honce : lock.Nodup)
    (hreaders : ∀ r' ∈ lock, r' ≠ r → r' ∈ s.levelsLock)
    (hself : r ∈ lock → ∃ key since todo, reader = .searching key since todo) :
    Orderly { s.setReader r reader with levelsLock := lock } := by
  refine ⟨h.held, fun r' hr' => ?_, honce, h.removing, h.files⟩
  change ∃ key since todo, Function.update s.reader r reader r' = _
  by_cases heq : r' = r
  · subst heq
    rw [Function.update_self]
    exact hself hr'
  · rw [Function.update_of_ne heq]
    exact h.readers r' (hreaders r' hr' heq)

omit [FloatText] [Xxh3] in
theorem not_mem_levelsLock (h : Orderly s) (hr : ∀ key since todo, s.reader r ≠ .searching key since todo) :
    r ∉ s.levelsLock := by
  intro hmem
  obtain ⟨key, since, todo, heq⟩ := h.readers r hmem
  exact hr key since todo heq

omit [FloatText] [Xxh3] in
theorem answer [DecidableEq R] (h : Orderly s) (key : String) (since : Nat) (result : Except Fault (Option Value)) :
    Orderly (s.answer r key since result) :=
  h.setReader (h.once.erase r) (fun _ hr' _ => List.mem_of_mem_erase hr') fun hmem =>
    absurd hmem (h.once.not_mem_erase)

theorem read [DecidableEq R] (h : Orderly s) (hs : s.read r = some s') : Orderly s' := by
  unfold Lookups.read at hs
  split at hs
  · cases hs
  · cases hs
  · next key since hr =>
    split_ifs at hs
    split at hs
    · exact Option.some.inj hs ▸ h.answer key since _
    · have hnot := h.not_mem_levelsLock (r := r) fun _ _ _ heq => by rw [hr] at heq; cases heq
      exact Option.some.inj hs ▸ h.setReader h.once (fun _ hr' _ => hr') fun hmem => absurd hmem hnot
  · next key since hr =>
    have hnot := h.not_mem_levelsLock (r := r) fun _ _ _ heq => by rw [hr] at heq; cases heq
    obtain rfl := Option.some.inj hs
    refine h.setReader (List.nodup_cons.mpr ⟨hnot, h.once⟩) (fun r' hr' hne => ?_) fun _ => ⟨_, _, _, rfl⟩
    exact (List.mem_cons.mp hr').resolve_left hne
  · exact Option.some.inj hs ▸ h.answer _ _ _
  · split at hs
    · exact Option.some.inj hs ▸ h.answer _ _ _
    · exact Option.some.inj hs ▸ h.setReader h.once (fun _ hr' _ => hr') fun _ => ⟨_, _, _, rfl⟩
    · exact Option.some.inj hs ▸ h.answer _ _ _

end Read

omit [FloatText] [Xxh3] in
theorem start (db : Database) : Orderly (Lookups.start db : Lookups T R) :=
  ⟨.start db, fun _ hr => absurd hr List.not_mem_nil, .nil, fun _ hne => absurd rfl hne,
    fun _ => ⟨.nil, fun _ htable => absurd htable List.not_mem_nil⟩⟩

theorem step [DecidableEq T] [DecidableEq R] [BloomSizing] (h : Orderly s) (hsound : Sound runs s) {e : Event T R}
    (hs : s.step e = some s') : Orderly s' := by
  cases e with
  | write t c =>
    obtain ⟨threads, hthreads, rfl⟩ := Option.map_eq_some_iff.mp hs
    have hheld := (Threads.step_move hthreads).held hsound.locks h.held
    cases Threads.step_move hthreads with
    | log _ hidle =>
      refine h.advances (t := t) hheld (fun t' hne => Threads.goto_phase_ne hne ..) ?_ (fun i hi => hi) _ _
      by_contra hsome
      obtain ⟨levels, hlevels⟩ := h.removing t hsome
      rw [hidle] at hlevels
      cases hlevels
  | advance t => exact h.advance hsound hs
  | get r key =>
    unfold Lookups.step at hs
    dsimp only at hs
    have hcalled : (∀ key since todo, s.reader r ≠ .searching key since todo) →
        Orderly (s.setReader r (.called key s.taken.length)) := fun hr =>
      h.setReader h.once (fun _ hr' _ => hr') fun hmem => absurd hmem (h.not_mem_levelsLock hr)
    split at hs
    · next hr => exact Option.some.inj hs ▸ hcalled fun _ _ _ heq => by rw [hr] at heq; cases heq
    · next hr => exact Option.some.inj hs ▸ hcalled fun _ _ _ heq => by rw [hr] at heq; cases heq
    · cases hs
  | read r => exact h.read hs

end Orderly
section Enabled
variable {runs : UInt32 → Run String Entry} {s : Lookups T R} {t : T}

/-- A thread that has its locks can go on: no file is missing, and there is room for its table. -/
theorem advance_isSome [DecidableEq T] [BloomSizing] (h : Sound runs s) (ho : Orderly s)
    (hsmall : volume s.taken < 2 ^ 63)
    (hunlocked : s.levelsLock = []) (hbusy : s.threads.phase t ≠ .idle)
    (hdata : (s.threads.phase t).needsData = true → s.threads.dataLock = none)
    (hcompaction : s.threads.phase t = .flushed → s.threads.compactionLock = none) : (s.advance t).isSome := by
  have hroom := Nat.not_le.mpr hsmall
  unfold Lookups.advance
  split
  · next input inputs hremoving =>
    have hmem := (ho.files t).2 input (by rw [hremoving]; exact List.mem_cons_self ..)
    rw [Threads.succeed_of_eq (removeFile_eq hmem)]
    rfl
  rw [if_neg (fun hlocked => hlocked.2 hunlocked)]
  split
  · next hid =>
    obtain ⟨_, db, heq⟩ := (h.merge_runs hid).ok_of_not hroom
    rw [Lookups.merge, Threads.succeed_of_eq heq]
    rfl
  · next hother =>
    rw [Option.isSome_map]
    cases hp : s.threads.phase t with
    | idle => exact absurd hp hbusy
    | logged =>
      simp only [Threads.advance, hp, hdata (by rw [hp]; rfl), Option.isSome_none, Bool.false_eq_true, if_false,
        Option.isSome_some]
    | updated =>
      simp only [Threads.advance, hp, hdata (by rw [hp]; rfl), Option.isSome_none, Bool.false_eq_true, if_false,
        Option.isSome_some]
    | full =>
      simp only [Threads.advance, hp, hdata (by rw [hp]; rfl), Option.isSome_none, Bool.false_eq_true, if_false]
      split_ifs <;> rfl
    | flushing id =>
      obtain ⟨ok, db, heq⟩ := (h.flush_runs id).ok_of_not hroom
      simp only [Threads.advance, hp, Threads.succeed_of_eq heq, Option.map_some, Option.isSome_some]
    | published =>
      simp only [Threads.advance, hp]
      rfl
    | truncated =>
      simp only [Threads.advance, hp]
      rfl
    | flushed =>
      simp only [Threads.advance, hp, hcompaction hp, Option.isSome_none, Bool.false_eq_true, if_false,
        Option.isSome_some]
    | compacting levels =>
      cases levels with
      | nil => simp only [Threads.advance, hp, Option.isSome_some]
      | cons level levels =>
        obtain ⟨r, db, heq⟩ := (h.openInputs_runs level levels).ok_of_not id
        simp only [Threads.advance, hp, Threads.succeed_of_eq heq, Option.map_some, Option.isSome_some]
    | opened =>
      simp only [Threads.advance, hp]
      rfl
    | merging => exact (hother _ _ _ _ _ _ hp).elim

theorem read_isSome [DecidableEq R] {r : R} (hinside : (s.reader r).inside = true)
    (hdata : ∀ key since, s.reader r = .called key since → s.threads.dataLock = none) : (s.read r).isSome := by
  unfold Lookups.read
  split
  · next hr => rw [hr] at hinside; cases hinside
  · next hr => rw [hr] at hinside; cases hinside
  · next key since hr =>
    rw [hdata key since hr]
    simp only [Option.isSome_none, Bool.false_eq_true, if_false]
    split <;> rfl
  · rfl
  · rfl
  · split <;> rfl

/-- Somebody can go on. The lock of the levels comes last: who holds it waits for nothing. -/
theorem someone_goes_on [DecidableEq T] [DecidableEq R] [BloomSizing] (h : Sound runs s) (ho : Orderly s)
    (hsmall : volume s.taken < 2 ^ 63)
    (hbusy : (∃ t, s.threads.phase t ≠ .idle) ∨ ∃ r, (s.reader r).inside = true) :
    (∃ t, (s.advance t).isSome) ∨ ∃ r, (s.read r).isSome := by
  cases hlevels : s.levelsLock with
  | cons r lock =>
    obtain ⟨key, since, todo, hr⟩ := ho.readers r (by rw [hlevels]; exact List.mem_cons_self ..)
    exact .inr ⟨r, read_isSome (by rw [hr]; rfl) fun _ _ heq => by rw [hr] at heq; cases heq⟩
  | nil =>
    cases hdata : s.threads.dataLock with
    | some t =>
      -- the flush that holds the memtable goes on
      have hholds := ho.held.data t hdata
      refine .inl ⟨t, advance_isSome h ho hsmall hlevels ?_ (fun hneeds => ?_) fun hflushed => ?_⟩
      · intro hidle
        rw [hidle] at hholds
        cases hholds
      · rw [Phase.needsData_of_holdsData hholds] at hneeds
        cases hneeds
      · rw [hflushed] at hholds
        cases hholds
    | none =>
      rcases hbusy with ⟨t, ht⟩ | ⟨r, hr⟩
      · cases hcompaction : s.threads.compactionLock with
        | some t' =>
          -- the compaction goes on
          have hholds := ho.held.compaction t' hcompaction
          refine .inl ⟨t', advance_isSome h ho hsmall hlevels ?_ (fun _ => hdata) fun hflushed => ?_⟩
          · intro hidle
            rw [hidle] at hholds
            cases hholds
          · rw [hflushed] at hholds
            cases hholds
        | none => exact .inl ⟨t, advance_isSome h ho hsmall hlevels ht (fun _ => hdata) fun _ => hcompaction⟩
      · exact .inr ⟨r, read_isSome hr fun _ _ _ => hdata⟩

end Enabled

section Runs
variable {config : Config} {es : List (Event T R)} {s : Lookups T R}

theorem exec_orderly [DecidableEq T] [DecidableEq R] [BloomSizing] (hfits : ∀ c ∈ es.filterMap Event.command, c.Fits)
    (hrun : exec (.start (.fresh config)) es = some s) (hroom : s.allocated ≤ 2 ^ 32) :
    (∃ runs, Sound runs s) ∧ Orderly s := by
  refine Fold.foldlM_invariant (P := fun s : Lookups T R => s.allocated ≤ 2 ^ 32 → (∃ runs, Sound runs s) ∧ Orderly s)
    hrun (fun _ => ⟨⟨_, .start config⟩, .start _⟩) (fun s e s' he ih hs hroom => ?_) hroom
  obtain ⟨⟨runs, hsound⟩, horderly⟩ := ih ((allocated_le hs).trans hroom)
  exact ⟨hsound.step hs (fun c hc => hfits c (List.mem_filterMap.mpr ⟨e, he, hc⟩)) hroom, horderly.step hsound hs⟩

/-- There is no deadlock, and no operation gets stuck at a file that another one has removed: whenever a thread is
in an operation, some thread can take its next step. -/
theorem no_deadlock [DecidableEq T] [DecidableEq R] [BloomSizing] (hfits : ∀ c ∈ es.filterMap Event.command, c.Fits)
    (hrun : exec (.start (.fresh config)) es = some s) (hroom : s.allocated ≤ 2 ^ 32)
    (hsmall : volume s.taken < 2 ^ 63)
    (hbusy : (∃ t, s.threads.phase t ≠ .idle) ∨ ∃ r, (s.reader r).inside = true) :
    (∃ t, (s.step (.advance t)).isSome) ∨ ∃ r, (s.step (.read r)).isSome := by
  obtain ⟨⟨runs, hsound⟩, horderly⟩ := exec_orderly hfits hrun hroom
  exact someone_goes_on hsound horderly hsmall hbusy

end Runs
end Progress

section Concrete
open scoped Concrete

/-- A compaction has its merged table to publish, and a lookup is in the tables. -/
def lookupBeforePublication : List (Event (Bool) (Unit)) :=
  .write false (.set "a" (.int 1)) :: List.replicate 9 (.advance false) ++ [.get () "a", .read (), .read ()]

theorem no_deadlock_before_publication : ∃ s : Lookups Bool Unit,
    exec (.start (.fresh ⟨2, 1, 1⟩)) lookupBeforePublication = some s ∧ (s.step (.advance false)).isSome = false ∧
    ((∃ t, (s.step (.advance t)).isSome) ∨ ∃ r, (s.step (.read r)).isSome) := by
  have hrun : (exec (.start (.fresh ⟨2, 1, 1⟩)) lookupBeforePublication).map (fun s : Lookups Bool Unit =>
      ((s.threads.phase false).isIdle, (s.step (.advance false)).isSome, s.allocated,
        decide (volume s.taken < 2 ^ 63))) =
        some (false, false, 2, true) := by
    decide +kernel
  obtain ⟨s, hs, heq⟩ := Option.map_eq_some_iff.mp hrun
  obtain ⟨hidle, heq⟩ := Prod.mk.inj heq
  obtain ⟨hwaits, heq⟩ := Prod.mk.inj heq
  obtain ⟨hallocated, hsmall⟩ := Prod.mk.inj heq
  have hbusy : s.threads.phase false ≠ .idle := by
    intro heq
    rw [heq] at hidle
    cases hidle
  exact ⟨s, hs, hwaits, no_deadlock (by decide) hs (by omega) (of_decide_eq_true hsmall) (.inl ⟨false, hbusy⟩)⟩

end Concrete
end Lookups
end KvRaft
