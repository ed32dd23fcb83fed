import KvRaft.Lib.Fold
import KvRaft.Lib.Ownership
import KvRaft.Lsm.Publication

/-! What a lookup returns while other threads write, flush and compact. -/

namespace KvRaft
open Outcome Table Database

section State

def PhaseOk [FloatText] (runs : UInt32 → Run String Entry) (db : Database) : Phase → Prop
  | .logged c _ => c.Fits
  | .published | .truncated => ∀ k e, db.data.lookup k = some e → db.stored runs k = some e
  | .opened level current next counts _ => Inputs runs db level current next counts
  | .merging _ level current next counts _ => Inputs runs db level current next counts
  | _ => True

/-- The entry was that of the key at some moment since then. -/
def Saw (taken : List Command) (key : String) (since : Nat) (e : Option Entry) : Prop :=
  ∃ n, since ≤ n ∧ n ≤ taken.length ∧ lastEntry (taken.take n) key = e

theorem Saw.now {taken : List Command} {key : String} {since : Nat} (h : since ≤ taken.length) :
    Saw taken key since (lastEntry taken key) :=
  ⟨taken.length, h, le_rfl, by rw [List.take_length]⟩

theorem Saw.since_le {taken : List Command} {key : String} {since : Nat} {e : Option Entry}
    (h : Saw taken key since e) : since ≤ taken.length := by
  obtain ⟨n, hle, hle', -⟩ := h
  exact hle.trans hle'

theorem Saw.append {taken : List Command} {key : String} {since : Nat} {e : Option Entry}
    (h : Saw taken key since e) (more : List Command) : Saw (taken ++ more) key since e := by
  obtain ⟨n, hle, hle', hlast⟩ := h
  refine ⟨n, hle, ?_, ?_⟩
  · rw [List.length_append]
    omega
  · rw [List.take_append_of_le_length hle', hlast]

def ReaderOk (runs : UInt32 → Run String Entry) (db : Database) (taken : List Command) : Reader → Prop
  | .idle => True
  | .called _ since => since ≤ taken.length
  | .missed key since => Saw taken key since (db.stored runs key)
  | .searching key since todo =>
    Saw taken key since (Run.view (todo.map fun t => runs t.id) key) ∧ ∀ t ∈ todo, t ∈ db.newestFirst
  | .done key since till result =>
    till ≤ taken.length ∧ ∃ n, since ≤ n ∧ n ≤ till ∧ result = .ok (Storage.fold (taken.take n) key)

/-! What stands as long as the levels do. -/

section Frame
variable {runs : UInt32 → Run String Entry} {db db' : Database}

theorem PhaseOk.frame [FloatText] {p : Phase} (h : PhaseOk runs db p)
    (hdata : p.holdsData = true → ∀ k e, db'.data.lookup k = some e → db.data.lookup k = some e)
    (hlevels : db'.leveledSstable = db.leveledSstable) : PhaseOk runs db' p := by
  have hinputs : ∀ {level current next counts}, Inputs runs db level current next counts →
      Inputs runs db' level current next counts := fun h =>
    ⟨hlevels ▸ h.level_lt, hlevels ▸ h.above, hlevels ▸ h.below, h.counts_eq⟩
  have hstored : db'.stored runs = db.stored runs := by
    funext k
    rw [stored, stored, newestFirst, newestFirst, hlevels]
  cases p with
  | published | truncated =>
    intro k e he
    rw [hstored]
    exact h k e (hdata rfl k e he)
  | opened | merging => exact hinputs h
  | logged => exact h
  | _ => trivial

theorem ReaderOk.frame {taken : List Command} {reader : Reader} (h : ReaderOk runs db taken reader)
    (hlevels : db'.leveledSstable = db.leveledSstable) (more : List Command) :
    ReaderOk runs db' (taken ++ more) reader := by
  have hfirst : db'.newestFirst = db.newestFirst := by rw [newestFirst, newestFirst, hlevels]
  cases reader with
  | idle => trivial
  | called key since =>
    change since ≤ (taken ++ more).length
    rw [List.length_append]
    exact Nat.le_add_right_of_le h
  | missed key since =>
    change Saw _ key since (db'.stored runs key)
    rw [stored, hfirst]
    exact h.append more
  | searching key since todo => exact ⟨h.1.append more, hfirst ▸ h.2⟩
  | done key since till result =>
    obtain ⟨hle, n, hn, hn', rfl⟩ := h
    refine ⟨?_, n, hn, hn', ?_⟩
    · rw [List.length_append]
      exact Nat.le_add_right_of_le hle
    · rw [List.take_append_of_le_length (hn'.trans hle)]

end Frame
end State

inductive Owner (T : Type) where
  | live
  /-- The thread has it for the table that it is to publish. -/
  | thread (t : T)
  | removal

namespace Lookups
variable {T R : Type} [DecidableEq T] [FloatText] [Xxh3] [BloomSizing]

inductive Owns (s : Lookups T R) : Owner T → UInt32 → Prop
  | live {table : SSTable} (h : table ∈ s.threads.db.newestFirst) : Owns s .live table.id
  | thread {t : T} {id : UInt32} (h : (s.threads.phase t).tableId = some id) : Owns s (.thread t) id
  | removal {t : T} {table : SSTable} (h : table ∈ s.removing t) : Owns s .removal table.id

/-- The invariant; `runs` tells what the tables hold. -/
structure Sound (runs : UInt32 → Run String Entry) (s : Lookups T R) : Prop where
  locks : s.threads.LocksOk
  refines : Refines s.taken runs s.threads.db
  fits : ∀ c ∈ s.taken, c.Fits
  phases : ∀ t, PhaseOk runs s.threads.db (s.threads.phase t)
  next : s.threads.db.nextSstableId = UInt32.ofNat s.allocated
  names : Ownership.Distinct UInt32.ofNat s.allocated s.Owns
  readers : ∀ r, ReaderOk runs s.threads.db s.taken (s.reader r)
  holders : ∀ r key since todo, s.reader r = .searching key since todo → r ∈ s.levelsLock

namespace Sound
variable {runs : UInt32 → Run String Entry} {s : Lookups T R} {threads : Threads T} {t : T} {p : Phase}

omit [Xxh3] [BloomSizing] in
theorem phases_update {db : Database} {phase : T → Phase} (h : ∀ t, PhaseOk runs db (phase t))
    (hp : PhaseOk runs db p) (t' : T) : PhaseOk runs db (Function.update phase t p t') := by
  by_cases heq : t' = t
  · subst heq
    rwa [Function.update_self]
  · rw [Function.update_of_ne heq]
    exact h t'

omit [FloatText] [Xxh3] [BloomSizing] in
theorem owns_update {s' : Lookups T R} {o : Owner T} {id : UInt32} (h : s'.Owns o id)
    (hfirst : s'.threads.db.newestFirst = s.threads.db.newestFirst)
    (hphase : s'.threads.phase = Function.update s.threads.phase t p)
    (hremoving : ∀ t, s'.removing t ⊆ s.removing t) : s.Owns o id ∨ (o = .thread t ∧ p.tableId = some id) := by
  cases h with
  | live h => exact .inl (.live (hfirst ▸ h))
  | @thread t' id h =>
    rw [hphase] at h
    by_cases heq : t' = t
    · subst heq
      rw [Function.update_self] at h
      exact .inr ⟨rfl, h⟩
    · rw [Function.update_of_ne heq] at h
      exact .inl (.thread h)
  | removal h => exact .inl (.removal (hremoving _ h))

/-- A step to a phase without a table to publish; the memtable may take a command. -/
theorem goto (h : Sound runs s) (more : List Command) (hrefines : Refines (s.taken ++ more) runs threads.db)
    (hmore : ∀ c ∈ more, c.Fits) (hlevels : threads.db.leveledSstable = s.threads.db.leveledSstable)
    (hnext : threads.db.nextSstableId = s.threads.db.nextSstableId)
    (hphases : ∀ t, PhaseOk runs threads.db (threads.phase t)) (hplain : p.tableId = none)
    (hphase : threads.phase = Function.update s.threads.phase t p) (hlocks : threads.LocksOk) :
    Sound runs { s with threads := threads, taken := s.taken ++ more } := by
  have hfirst : threads.db.newestFirst = s.threads.db.newestFirst := by rw [newestFirst, newestFirst, hlevels]
  refine ⟨hlocks, hrefines, fun c hc => ?_, hphases, hnext.trans h.next, ?_, fun r => ?_, h.holders⟩
  · rcases List.mem_append.mp hc with hc | hc
    · exact h.fits c hc
    · exact hmore c hc
  · refine h.names.mono fun o id howns => ?_
    rcases owns_update howns hfirst hphase fun _ => List.Subset.refl _ with hold | ⟨-, hid⟩
    · exact hold
    · rw [hplain] at hid
      cases hid
  · exact (h.readers r).frame hlevels more

/-- A step that leaves the memtable and the tables as they are. -/
theorem stay (h : Sound runs s) (hdata : threads.db.data = s.threads.db.data)
    (hlevels : threads.db.leveledSstable = s.threads.db.leveledSstable)
    (hfiles : ∀ table ∈ s.threads.db.newestFirst,
      threads.db.disk.tables.lookup table.id = s.threads.db.disk.tables.lookup table.id)
    (hnext : threads.db.nextSstableId = s.threads.db.nextSstableId) (hp : PhaseOk runs s.threads.db p)
    (hplain : p.tableId = none) (hphase : threads.phase = Function.update s.threads.phase t p)
    (hlocks : threads.LocksOk) : Sound runs { s with threads := threads } := by
  have hgo := h.goto [] (by rw [List.append_nil]; exact h.refines.frame hdata hlevels hfiles)
    (fun c hc => absurd hc List.not_mem_nil) hlevels hnext
    (fun t' => hphase ▸ (phases_update h.phases hp t').frame (fun _ _ _ => hdata ▸ id) hlevels) hplain hphase hlocks
  rwa [List.append_nil] at hgo

omit [FloatText] [Xxh3] [BloomSizing] in
theorem ofNat_injOn : Set.InjOn UInt32.ofNat (Set.Iio (2 ^ 32)) := by
  intro a ha b hb heq
  have htoNat := congrArg UInt32.toNat heq
  rwa [UInt32.toNat_ofNat_of_lt' ha, UInt32.toNat_ofNat_of_lt' hb] at htoNat

theorem issue (h : Sound runs s) (hroom : s.allocated < 2 ^ 32)
    (hdb : threads.db = { s.threads.db with nextSstableId := s.threads.db.nextSstableId + 1 })
    (hp : PhaseOk runs s.threads.db p) (hid : p.tableId = some s.threads.db.nextSstableId)
    (hphase : threads.phase = Function.update s.threads.phase t p) (hlocks : threads.LocksOk) :
    Sound runs { s with threads := threads, allocated := s.allocated + 1 } := by
  refine ⟨hlocks, ?_, h.fits, fun t' => ?_, ?_, ?_, fun r => ?_, h.holders⟩
  · rw [hdb]
    exact h.refines.frame rfl rfl fun _ _ => rfl
  · rw [hphase, hdb]
    exact (phases_update h.phases hp t').frame (fun _ _ _ => id) rfl
  · rw [hdb]
    change s.threads.db.nextSstableId + 1 = _
    rw [h.next, UInt32.ofNat_add]
    rfl
  · refine h.names.issue ofNat_injOn hroom (.thread t) fun o id howns => ?_
    have hfirst : threads.db.newestFirst = s.threads.db.newestFirst := by rw [hdb]; rfl
    rcases owns_update howns hfirst hphase fun _ => List.Subset.refl _ with hold | ⟨rfl, hid'⟩
    · exact .inl hold
    · rw [hid, h.next] at hid'
      exact .inr ⟨rfl, (Option.some.inj hid').symm⟩
  · have hreader : ReaderOk runs threads.db (s.taken ++ []) (s.reader r) := (h.readers r).frame (by rw [hdb]) []
    rwa [List.append_nil] at hreader

omit [DecidableEq T] in
theorem openInputs_runs (h : Sound runs s) (level : Nat) (levels : List Nat) :
    Runs (openInputs level) s.threads.db False fun o db => db = s.threads.db ∧
      PhaseOk runs s.threads.db (.afterOpen level levels o) ∧ (Phase.afterOpen level levels o).tableId = none := by
  unfold openInputs
  refine .step rfl ?_
  dsimp only
  split_ifs with hlevel
  · exact .of_ok rfl ⟨rfl, trivial, rfl⟩
  · exact .of_ok rfl ⟨rfl, trivial, rfl⟩
  · have hlt := Nat.not_le.mp hlevel
    have hopen := openReaders_eq fun t ht => h.refines.stored t (mem_of_inputs hlt ht)
    refine .step (lift_eq hopen _) (.of_ok rfl ⟨rfl, ⟨hlt, ⟨[], ?_, fun _ => rfl⟩, rfl, rfl⟩, rfl⟩)
    rw [List.append_nil]

/-! The steps of a writing thread that publish nothing, by the phase it is in. -/

/-- Most of them leave the memtable and the tables alone. -/
theorem keep (h : Sound runs s) (htakes : s.threads.takes t = []) (hallocates : s.threads.allocates t = 0)
    (hp : PhaseOk runs s.threads.db p) (hplain : p.tableId = none) (hdb : threads.db = s.threads.db)
    (hphase : threads.phase = Function.update s.threads.phase t p) (hlocks : threads.LocksOk) :
    Sound runs { s with
      threads := threads
      taken := s.taken ++ s.threads.takes t
      allocated := s.allocated + s.threads.allocates t } := by
  rw [htakes, hallocates, List.append_nil]
  refine h.stay ?_ ?_ ?_ ?_ hp hplain hphase hlocks
  · rw [hdb]
  · rw [hdb]
  · exact fun _ _ => by rw [hdb]
  · rw [hdb]

theorem advance_logged {c : Command} {offset : Nat} (h : Sound runs s) (hs : s.threads.advance t = some threads)
    (hp : s.threads.phase t = .logged c offset) :
    Sound runs { s with threads := threads, taken := s.taken ++ [c] } := by
  have hlocks := (Threads.advance_move hs).locksOk h.locks
  have hfits : PhaseOk runs s.threads.db (.logged c offset) := hp ▸ h.phases t
  simp only [Threads.advance, hp] at hs
  split_ifs at hs with hlock
  obtain rfl := Option.some.inj hs
  -- nobody holds the memtable, so no flush is between its table and its end
  have hfree : ∀ t', (s.threads.phase t').holdsData = false := by
    intro t'
    by_contra hholds
    have hheld := h.locks.data t' (Bool.eq_true_of_not_eq_false hholds)
    rw [hheld] at hlock
    exact hlock rfl
  refine h.goto [c] ((h.refines.write c).frame rfl rfl fun _ _ => rfl) (fun c' hc' => ?_) rfl rfl (fun t' => ?_)
    (p := .updated) rfl rfl hlocks
  · exact List.mem_singleton.mp hc' ▸ hfits
  · refine (phases_update h.phases (p := .updated) trivial t').frame (fun hholds => ?_) rfl
    by_cases heq : t' = t
    · subst heq
      rw [Function.update_self] at hholds
      cases hholds
    · rw [Function.update_of_ne heq, hfree t'] at hholds
      cases hholds

/-- A flush finds nothing to write, or is given an id. -/
theorem advance_full (h : Sound runs s) (hs : s.threads.advance t = some threads) (hp : s.threads.phase t = .full)
    (hroom : s.allocated + s.threads.allocates t ≤ 2 ^ 32) :
    Sound runs { s with
      threads := threads
      taken := s.taken ++ s.threads.takes t
      allocated := s.allocated + s.threads.allocates t } := by
  have hlocks := (Threads.advance_move hs).locksOk h.locks
  have htakes : s.threads.takes t = [] := by rw [Threads.takes, hp]
  simp only [Threads.advance, hp] at hs
  split_ifs at hs with hlock hempty
  · obtain rfl := Option.some.inj hs
    have hallocates : s.threads.allocates t = 0 := by rw [Threads.allocates, hp]; exact if_pos hempty
    exact h.keep htakes hallocates (p := .flushed) trivial rfl rfl rfl hlocks
  · have hallocates : s.threads.allocates t = 1 := by rw [Threads.allocates, hp]; exact if_neg hempty
    obtain ⟨r, hr, rfl⟩ := Option.map_eq_some_iff.mp hs
    cases hr
    rw [hallocates] at hroom
    rw [htakes, hallocates, List.append_nil]
    exact h.issue hroom rfl (p := .flushing s.threads.db.nextSstableId) trivial rfl rfl hlocks

theorem advance_truncated (h : Sound runs s) (hs : s.threads.advance t = some threads)
    (hp : s.threads.phase t = .truncated) :
    Sound runs { s with
      threads := threads
      taken := s.taken ++ s.threads.takes t
      allocated := s.allocated + s.threads.allocates t } := by
  have hlocks := (Threads.advance_move hs).locksOk h.locks
  have hphase : PhaseOk runs s.threads.db .truncated := hp ▸ h.phases t
  have htakes : s.threads.takes t = [] := by rw [Threads.takes, hp]
  have hallocates : s.threads.allocates t = 0 := by rw [Threads.allocates, hp]
  simp only [Threads.advance, hp] at hs
  obtain ⟨r, hr, rfl⟩ := Option.map_eq_some_iff.mp hs
  cases hr
  rw [htakes, hallocates]
  refine h.goto [] ?_ (fun c hc => absurd hc List.not_mem_nil) rfl rfl (fun t' => ?_) (p := .flushed) rfl rfl hlocks
  · rw [List.append_nil]
    exact h.refines.cleared hphase
  · refine (phases_update h.phases (p := .flushed) trivial t').frame (fun _ k e he => ?_) rfl
    cases he

theorem advance_compacting {levels : List Nat} (h : Sound runs s) (hs : s.threads.advance t = some threads)
    (hp : s.threads.phase t = .compacting levels) :
    Sound runs { s with
      threads := threads
      taken := s.taken ++ s.threads.takes t
      allocated := s.allocated + s.threads.allocates t } := by
  have hlocks := (Threads.advance_move hs).locksOk h.locks
  have htakes : s.threads.takes t = [] := by rw [Threads.takes, hp]
  have hallocates : s.threads.allocates t = 0 := by rw [Threads.allocates, hp]
  cases levels with
  | nil =>
    simp only [Threads.advance, hp] at hs
    obtain rfl := Option.some.inj hs
    exact h.keep htakes hallocates (p := .idle) trivial rfl rfl rfl hlocks
  | cons level levels =>
    simp only [Threads.advance, hp] at hs
    obtain ⟨r, hr, rfl⟩ := Option.map_eq_some_iff.mp hs
    obtain ⟨hdb, hphase, hid⟩ := (h.openInputs_runs level levels).of_eq_ok (Threads.succeed_eq_some hr)
    exact h.keep htakes hallocates hphase hid hdb rfl hlocks

theorem advance_plain (h : Sound runs s) (hs : s.threads.advance t = some threads)
    (hplain : (s.threads.phase t).tableId = none) (hroom : s.allocated + s.threads.allocates t ≤ 2 ^ 32) :
    Sound runs { s with
      threads := threads
      taken := s.taken ++ s.threads.takes t
      allocated := s.allocated + s.threads.allocates t } := by
  have hlocks := (Threads.advance_move hs).locksOk h.locks
  cases hp : s.threads.phase t with
  | idle => simp [Threads.advance, hp] at hs
  | logged c offset =>
    have htakes : s.threads.takes t = [c] := by rw [Threads.takes, hp]
    have hallocates : s.threads.allocates t = 0 := by rw [Threads.allocates, hp]
    rw [htakes, hallocates]
    exact h.advance_logged hs hp
  | updated =>
    have htakes : s.threads.takes t = [] := by rw [Threads.takes, hp]
    have hallocates : s.threads.allocates t = 0 := by rw [Threads.allocates, hp]
    simp only [Threads.advance, hp] at hs
    split_ifs at hs
    · obtain rfl := Option.some.inj hs
      exact h.keep htakes hallocates (p := .full) trivial rfl rfl rfl hlocks
    · obtain rfl := Option.some.inj hs
      exact h.keep htakes hallocates (p := .flushed) trivial rfl rfl rfl hlocks
  | full => exact h.advance_full hs hp hroom
  | flushing id => rw [hp] at hplain; cases hplain
  | published =>
    have htakes : s.threads.takes t = [] := by rw [Threads.takes, hp]
    have hallocates : s.threads.allocates t = 0 := by rw [Threads.allocates, hp]
    have hphase : PhaseOk runs s.threads.db .published := hp ▸ h.phases t
    simp only [Threads.advance, hp] at hs
    obtain ⟨r, hr, rfl⟩ := Option.map_eq_some_iff.mp hs
    cases hr
    rw [htakes, hallocates, List.append_nil]
    exact h.stay rfl rfl (fun _ _ => rfl) rfl (p := .truncated) hphase rfl rfl hlocks
  | truncated => exact h.advance_truncated hs hp
  | flushed =>
    have htakes : s.threads.takes t = [] := by rw [Threads.takes, hp]
    have hallocates : s.threads.allocates t = 0 := by rw [Threads.allocates, hp]
    simp only [Threads.advance, hp] at hs
    split_ifs at hs
    obtain rfl := Option.some.inj hs
    exact h.keep htakes hallocates (p := .compacting s.threads.db.levelsToCompact) trivial rfl rfl rfl hlocks
  | compacting levels => exact h.advance_compacting hs hp
  | opened level current next counts levels =>
    have htakes : s.threads.takes t = [] := by rw [Threads.takes, hp]
    have hallocates : s.threads.allocates t = 1 := by rw [Threads.allocates, hp]
    have hphase : PhaseOk runs s.threads.db (.opened level current next counts levels) := hp ▸ h.phases t
    simp only [Threads.advance, hp] at hs
    obtain ⟨r, hr, rfl⟩ := Option.map_eq_some_iff.mp hs
    cases hr
    rw [hallocates] at hroom
    rw [htakes, hallocates, List.append_nil]
    exact h.issue hroom rfl (p := .merging s.threads.db.nextSstableId level current next counts levels) hphase rfl rfl
      hlocks
  | merging => rw [hp] at hplain; cases hplain

/-! Publication. -/

omit [DecidableEq T] in
/-- No lookup is in the tables when they change; what they have for a key is what they had, or the last entry. -/
theorem readers_published (h : Sound runs s) (hunlocked : s.levelsLock = []) {runs' : UInt32 → Run String Entry}
    {db : Database} (hstored : ∀ k, db.stored runs' k = s.threads.db.stored runs k ∨
      db.stored runs' k = lastEntry s.taken k) (r : R) : ReaderOk runs' db s.taken (s.reader r) := by
  have hreader := h.readers r
  cases hr : s.reader r with
  | idle => trivial
  | called key since =>
    rw [hr] at hreader
    exact hreader
  | missed key since =>
    rw [hr] at hreader
    have hsaw : Saw s.taken key since (s.threads.db.stored runs key) := hreader
    change Saw s.taken key since (db.stored runs' key)
    rcases hstored key with heq | heq
    · rw [heq]
      exact hsaw
    · rw [heq]
      exact .now hsaw.since_le
  | searching key since todo =>
    have hholds := h.holders r key since todo hr
    rw [hunlocked] at hholds
    cases hholds
  | done key since till result =>
    rw [hr] at hreader
    exact hreader

theorem names_published (h : Sound runs s) (s' : Lookups T R) {id : UInt32} (inputs : List SSTable)
    (hid : (s.threads.phase t).tableId = some id) (hinputs : ∀ table ∈ inputs, table ∈ s.threads.db.newestFirst)
    (hfirst : ∀ table ∈ s'.threads.db.newestFirst, table.id = id ∨
      (table ∈ s.threads.db.newestFirst ∧ ∀ input ∈ inputs, input.id ≠ table.id))
    (hphase : s'.threads.phase = Function.update s.threads.phase t p) (hplain : p.tableId = none)
    (hremoving : ∀ t', ∀ table ∈ s'.removing t', table ∈ s.removing t' ∨ table ∈ inputs) :
    Ownership.Distinct UInt32.ofNat s.allocated s'.Owns := by
  have hown : s.Owns (.thread t) id := .thread hid
  -- an id that is not live stays with its owner
  have hother : ∀ {o : Owner T} {i : UInt32}, s.Owns o i → o ≠ .live → i ≠ id →
      ¬∃ input ∈ inputs, input.id = i := by
    rintro o i ho hlive hne ⟨input, hinput, rfl⟩
    exact hlive (h.names.unique _ _ _ ho (.live (hinputs input hinput)))
  classical
  refine h.names.moved (fun i o => if i = id then .live else if ∃ input ∈ inputs, input.id = i then .removal else o)
    fun o i howns => ?_
  cases howns with
  | @live table htable =>
    rcases hfirst table htable with heq | ⟨hold, hkept⟩
    · exact ⟨.thread t, heq ▸ hown, (if_pos heq).symm⟩
    · refine ⟨.live, .live hold, ?_⟩
      rw [if_neg (show ¬∃ input ∈ inputs, input.id = table.id by push Not; exact hkept), ite_self]
  | @thread t' i hi =>
    rw [hphase] at hi
    by_cases heq : t' = t
    · subst heq
      rw [Function.update_self, hplain] at hi
      cases hi
    · rw [Function.update_of_ne heq] at hi
      have hold : s.Owns (.thread t') i := .thread hi
      have hne : i ≠ id := by
        rintro rfl
        exact heq (Owner.thread.inj (h.names.unique _ _ _ hold hown))
      exact ⟨_, hold, by rw [if_neg hne, if_neg (hother hold (by simp) hne)]⟩
  | @removal t' table htable =>
    rcases hremoving t' table htable with hold | hinput
    · have hremoval : s.Owns .removal table.id := .removal hold
      have hne : table.id ≠ id := by
        intro heq
        cases h.names.unique _ _ _ (heq ▸ hremoval) hown
      exact ⟨_, hremoval, by rw [if_neg hne, if_neg (hother hremoval (by simp) hne)]⟩
    · have hlive : s.Owns .live table.id := .live (hinputs table hinput)
      have hne : table.id ≠ id := by
        intro heq
        cases h.names.unique _ _ _ (heq ▸ hlive) hown
      exact ⟨_, hlive, by rw [if_neg hne, if_pos ⟨table, hinput, rfl⟩]⟩

theorem publish_flush (h : Sound runs s) {id : UInt32} {level0 : List SSTable} {levels : List (List SSTable)}
    (hid : s.threads.phase t = .flushing id) (hlevels : s.threads.db.leveledSstable = level0 :: levels)
    (hsize : tableSize (memRun s.threads.db.data).entries.length (memRun s.threads.db.data).entries < 2 ^ 64)
    (hdb : threads.db = { s.threads.db.after (flushOps id (memRun s.threads.db.data)) with
      leveledSstable := (level0 ++ [tableOf id (memRun s.threads.db.data).entries.length
        (memRun s.threads.db.data)]) :: levels })
    (hphase : threads.phase = Function.update s.threads.phase t .published) (hlocks : threads.LocksOk)
    (hunlocked : s.levelsLock = []) :
    Sound (Function.update runs id (memRun s.threads.db.data)) { s with threads := threads } := by
  set mem := memRun s.threads.db.data
  have hown : s.Owns (.thread t) id := .thread (by rw [hid]; rfl)
  have hfree : ∀ table ∈ s.threads.db.newestFirst, table.id ≠ id := by
    rintro table htable rfl
    cases h.names.unique _ _ _ hown (.live htable)
  have hfirst : threads.db.newestFirst = tableOf id mem.entries.length mem :: s.threads.db.newestFirst := by
    simp only [newestFirst, hdb, hlevels, List.map_cons, List.flatten_cons, List.reverse_append,
      List.reverse_singleton, List.cons_append, List.nil_append]
  have htables : threads.db.disk.tables =
      s.threads.db.disk.tables.insert id (encode mem.entries.length mem.entries) := by
    rw [hdb]
    exact congrArg Disk.tables (applyAll_flushOps ..)
  have hdata : threads.db.data = s.threads.db.data := by rw [hdb]; rfl
  have hstored : ∀ k, threads.db.stored (Function.update runs id mem) k =
      (s.threads.db.data.lookup k).or (s.threads.db.stored runs k) := by
    intro k
    rw [stored, hfirst, List.map_cons, Run.view_cons]
    have hself : Function.update runs id mem (tableOf id mem.entries.length mem).id = mem := Function.update_self ..
    rw [hself, memRun_lookup]
    have hmap : (s.threads.db.newestFirst.map fun t => Function.update runs id mem t.id) =
        s.threads.db.newestFirst.map fun t => runs t.id :=
      List.map_congr_left fun table htable => Function.update_of_ne (hfree table htable) ..
    rw [hmap]
    rfl
  refine ⟨hlocks, ?_, h.fits, fun t' => ?_, ?_, ?_, fun r => ?_, h.holders⟩
  · -- the table has got its id before
    have hrefines : Refines s.taken runs { s.threads.db with nextSstableId := id } :=
      h.refines.frame rfl rfl fun _ _ => rfl
    refine hrefines.published hfree (fun p hp => h.fits _ (memRun_from h.refines p hp)) hsize hlevels (.inl hdata) ?_
      htables
    rw [hdb]
  · have hold := h.phases t'
    have hcovered : ∀ k e, threads.db.data.lookup k = some e →
        threads.db.stored (Function.update runs id mem) k = some e := by
      intro k e he
      rw [hstored, ← hdata, he]
      rfl
    have hpushed : ∀ {level current next counts}, Inputs runs s.threads.db level current next counts →
        Inputs (Function.update runs id mem) threads.db level current next counts := fun hinputs =>
      hinputs.pushed hlevels (by rw [hdb]) fun table htable => Function.update_of_ne (hfree table htable) ..
    change PhaseOk _ threads.db (threads.phase t')
    rw [hphase]
    by_cases heq : t' = t
    · subst heq
      rw [Function.update_self]
      exact hcovered
    · rw [Function.update_of_ne heq]
      cases hp : s.threads.phase t' with
      | published | truncated => exact hcovered
      | opened | merging =>
        rw [hp] at hold
        exact hpushed hold
      | logged =>
        rw [hp] at hold
        exact hold
      | _ => trivial
  · rw [hdb]
    exact h.next
  · refine h.names_published { s with threads := threads } [] (by rw [hid]; rfl) ?_ ?_ hphase rfl ?_
    · exact fun table htable => absurd htable List.not_mem_nil
    · intro table htable
      change table ∈ threads.db.newestFirst at htable
      rw [hfirst] at htable
      rcases List.mem_cons.mp htable with rfl | hold
      · exact .inl rfl
      · exact .inr ⟨hold, fun input hinput => absurd hinput List.not_mem_nil⟩
    · exact fun _ _ htable => .inl htable
  · refine h.readers_published hunlocked (fun k => ?_) r
    rw [hstored, ← h.refines.view k]
    cases hk : s.threads.db.data.lookup k with
    | none => exact .inl rfl
    | some e => exact .inr rfl

theorem publish_merge (h : Sound runs s) {id : UInt32} {level : Nat} {current next : List SSTable}
    {counts levels : List Nat} {r : Run String Entry} {db : Database}
    (hid : s.threads.phase t = .merging id level current next counts levels)
    (hsize : tableSize 1024 r.entries < 2 ^ 64) (hfits : ∀ p ∈ r.entries, Fits p)
    (hlookup : ∀ k, r.lookup k = Run.view ((current.reverse ++ next.reverse).map fun t => runs t.id) k)
    (hdb : db = { s.threads.db.after (mergeOps id r) with
      leveledSstable := (s.threads.db.leveledSstable.modify level (·.drop current.length)).modify (level + 1)
        fun tables => tables.drop next.length ++ [tableOf id 1024 r] })
    (hunlocked : s.levelsLock = []) :
    Sound (Function.update runs id r) { s with
      threads := s.threads.goto t (.compacting levels) db
      removing := Function.update s.removing t (current ++ next) } := by
  have hown : s.Owns (.thread t) id := .thread (by rw [hid]; rfl)
  have hfree : ∀ table ∈ s.threads.db.newestFirst, table.id ≠ id := by
    rintro table htable rfl
    cases h.names.unique _ _ _ hown (.live htable)
  have hphase := h.phases t
  rw [hid] at hphase
  have hinputs : Inputs runs s.threads.db level current next counts := hphase
  have hlevels : db.leveledSstable = (s.threads.db.leveledSstable.modify level (·.drop current.length)).modify
      (level + 1) fun tables => tables.drop next.length ++ [tableOf id 1024 r] := by rw [hdb]
  obtain ⟨newer, older, hreplaces⟩ := hinputs.replaced hlevels
  have hstored := hreplaces.stored_eq hfree hlookup
  have htables : db.disk.tables = s.threads.db.disk.tables.insert id (encode 1024 r.entries) := by
    rw [hdb]
    exact congrArg Disk.tables (applyAll_mergeOps ..)
  have hdata : db.data = s.threads.db.data := by rw [hdb]; rfl
  have hholds := h.locks.compaction t (by rw [hid]; rfl)
  have hlast := hreplaces.refines h.refines hfree hdata htables hsize hfits hlookup
  refine ⟨⟨?_, ?_⟩, hlast, h.fits, fun t' => ?_, ?_, ?_, fun r => ?_, h.holders⟩
  · exact Threads.lock_update h.locks.data (fun hp => by cases hp) (.inl rfl)
  · exact Threads.lock_update h.locks.compaction (fun _ => hholds) (.inl rfl)
  · have hold := h.phases t'
    have hcovered : (∀ k e, s.threads.db.data.lookup k = some e → s.threads.db.stored runs k = some e) →
        ∀ k e, db.data.lookup k = some e → db.stored (Function.update runs id r) k = some e := by
      intro hcovered k e he
      exact (hstored k).trans (hcovered k e (hdata ▸ he))
    change PhaseOk _ db (Function.update s.threads.phase t (.compacting levels) t')
    by_cases heq : t' = t
    · subst heq
      rw [Function.update_self]
      trivial
    · rw [Function.update_of_ne heq]
      have hother : (s.threads.phase t').holdsCompaction ≠ true :=
        fun hcompacts => heq (h.locks.compacts_alone (by rw [hid]; rfl) hcompacts)
      cases hp : s.threads.phase t' with
      | published | truncated =>
        rw [hp] at hold
        exact hcovered hold
      | opened | merging =>
        rw [hp] at hother
        exact absurd rfl hother
      | logged =>
        rw [hp] at hold
        exact hold
      | _ => trivial
  · rw [hdb]
    exact h.next
  · refine h.names_published _ (current ++ next) (by rw [hid]; rfl) (fun table htable => hreplaces.mem_inputs htable) ?_
      rfl rfl ?_
    · intro table htable
      rcases hreplaces.mem_after htable with rfl | hkept
      · exact .inl rfl
      · exact .inr ⟨hreplaces.sublist.subset hkept, fun input hinput => hreplaces.apart h.refines.nodup hkept hinput⟩
    · intro t' table htable
      change table ∈ Function.update s.removing t (current ++ next) t' at htable
      by_cases heq : t' = t
      · subst heq
        rw [Function.update_self] at htable
        exact .inr htable
      · rw [Function.update_of_ne heq] at htable
        exact .inl htable
  · exact h.readers_published hunlocked (fun k => .inl (hstored k)) r

/-! The steps of the writing threads. -/

theorem remove (h : Sound runs s) {input : SSTable} {inputs : List SSTable} (hremoving : s.removing t = input :: inputs)
    {r : Unit × Database} (hr : removeFile input.id s.threads.db = .ok r.1 r.2) :
    Sound runs { s with
      threads := { s.threads with db := r.2 }
      removing := Function.update s.removing t inputs } := by
  have hdb := (removeFile_runs input.id s.threads.db).of_eq_ok hr
  generalize r.2 = db at hdb
  subst hdb
  have hremoval : s.Owns .removal input.id := .removal (hremoving ▸ List.mem_cons_self ..)
  refine ⟨⟨h.locks.data, h.locks.compaction⟩, h.refines.frame rfl rfl fun table htable => ?_, h.fits,
    fun t' => (h.phases t').frame (fun _ _ _ => id) rfl, h.next, h.names.mono fun o id howns => ?_, fun r => ?_,
    h.holders⟩
  · have hlive : s.Owns .live table.id := .live htable
    have hne : table.id ≠ input.id := by
      intro heq
      rw [heq] at hlive
      cases h.names.unique _ _ _ hremoval hlive
    exact AList.lookup_erase_ne hne
  · cases howns with
    | live htable => exact .live htable
    | thread hid => exact .thread hid
    | @removal t' table htable =>
      change table ∈ Function.update s.removing t inputs t' at htable
      by_cases heq : t' = t
      · subst heq
        rw [Function.update_self] at htable
        exact .removal (hremoving ▸ List.mem_cons_of_mem input htable)
      · rw [Function.update_of_ne heq] at htable
        exact .removal htable
  · have hreader : ReaderOk runs (s.threads.db.after [.removeTable input.id]) (s.taken ++ []) (s.reader r) :=
      (h.readers r).frame rfl []
    rwa [List.append_nil] at hreader

omit [DecidableEq T] in
/-- A flush writes its table and publishes it, or the commands are too much for one table. -/
theorem flush_runs (h : Sound runs s) (id : UInt32) :
    Runs (writeTable id s.threads.db.data >>= publish) s.threads.db (2 ^ 63 ≤ volume s.taken) fun ok db' =>
      (ok = false ∧ s.threads.db.leveledSstable = [] ∧
        db' = s.threads.db.after (flushOps id (memRun s.threads.db.data))) ∨
      ∃ level0 levels, ok = true ∧ s.threads.db.leveledSstable = level0 :: levels ∧
        tableSize (memRun s.threads.db.data).entries.length (memRun s.threads.db.data).entries < 2 ^ 64 ∧
        db' = { s.threads.db.after (flushOps id (memRun s.threads.db.data)) with
          leveledSstable := (level0 ++ [tableOf id (memRun s.threads.db.data).entries.length
            (memRun s.threads.db.data)]) :: levels } := by
  have hfrom := memRun_from h.refines
  exact writeTable_publish id (fun p hp => h.fits _ (hfrom p hp))
    (volume_of_tableSize (memRun s.threads.db.data).sorted hfrom)

theorem flush (h : Sound runs s) {id : UInt32} (hid : s.threads.phase t = .flushing id)
    (hs : s.threads.advance t = some threads) (hunlocked : s.levelsLock = []) :
    ∃ runs', Sound runs' { s with threads := threads } := by
  have hlocks := (Threads.advance_move hs).locksOk h.locks
  simp only [Threads.advance, hid] at hs
  obtain ⟨⟨ok, db⟩, hr, rfl⟩ := Option.map_eq_some_iff.mp hs
  rcases (h.flush_runs id).of_eq_ok (Threads.succeed_eq_some hr) with
    ⟨rfl, hlevels, rfl⟩ | ⟨level0, levels, rfl, hlevels, hsize, rfl⟩
  · -- without levels there are no tables
    have hnone : s.threads.db.newestFirst = [] := by
      rw [newestFirst, hlevels]
      rfl
    simp only [Bool.false_eq_true, if_false] at hlocks ⊢
    refine ⟨runs, h.stay (p := .flushed) rfl rfl (fun table htable => ?_) rfl trivial rfl rfl hlocks⟩
    rw [hnone] at htable
    exact absurd htable List.not_mem_nil
  · simp only [if_true] at hlocks ⊢
    exact ⟨_, h.publish_flush hid hlevels hsize rfl rfl hlocks hunlocked⟩

omit [DecidableEq T] in
theorem merge_inputs (h : Sound runs s) {id : UInt32} {level : Nat} {current next : List SSTable}
    {counts levels : List Nat} (hid : s.threads.phase t = .merging id level current next counts levels) :
    Inputs runs s.threads.db level current next counts ∧ ∀ table ∈ current ++ next, table.id ≠ id := by
  have hphase := h.phases t
  rw [hid] at hphase
  have hinputs : Inputs runs s.threads.db level current next counts := hphase
  refine ⟨hinputs, ?_⟩
  have hown : s.Owns (.thread t) id := .thread (by rw [hid]; rfl)
  rintro table htable rfl
  cases h.names.unique _ _ _ hown (.live (hinputs.live table htable))

omit [DecidableEq T] in
theorem merge_runs (h : Sound runs s) {id : UInt32} {level : Nat} {current next : List SSTable}
    {counts levels : List Nat} (hid : s.threads.phase t = .merging id level current next counts levels) :
    Runs (do
      let table ← mergeTables id current next counts
      publishMerged level current next table) s.threads.db (2 ^ 63 ≤ volume s.taken) fun _ db' =>
        ∃ r : Run String Entry,
          db' = { s.threads.db.after (mergeOps id r) with
            leveledSstable := (s.threads.db.leveledSstable.modify level (·.drop current.length)).modify (level + 1)
              fun tables => tables.drop next.length ++ [tableOf id 1024 r] } ∧
          tableSize 1024 r.entries < 2 ^ 64 ∧ (∀ p ∈ r.entries, Fits p) ∧
          ∀ k, r.lookup k = Run.view ((current.reverse ++ next.reverse).map fun t => runs t.id) k := by
  obtain ⟨hinputs, hfree⟩ := h.merge_inputs hid
  have hnext := h.refines.next_single level
  rw [hinputs.below] at hnext
  rw [hinputs.counts_eq]
  refine mergeTables_publish id level hnext
    (fun table htable => h.refines.stored table (hinputs.live table htable)) hfree
    fun es hes hfrom => volume_of_tableSize hes fun p hp => ?_
  obtain ⟨table, htable, hmem⟩ := hfrom p hp
  exact h.refines.tables_from table (hinputs.live table htable) p hmem

theorem merge (h : Sound runs s) {s' : Lookups T R} {id : UInt32} {level : Nat} {current next : List SSTable}
    {counts levels : List Nat} (hid : s.threads.phase t = .merging id level current next counts levels)
    (hs : s.merge t id level current next counts levels = some s') (hunlocked : s.levelsLock = []) :
    ∃ runs', Sound runs' s' := by
  obtain ⟨r, hr, rfl⟩ := Option.map_eq_some_iff.mp hs
  obtain ⟨run, hdb, hsize, hfits, hlookup⟩ := (h.merge_runs hid).of_eq_ok (Threads.succeed_eq_some hr)
  exact ⟨_, h.publish_merge hid hsize hfits hlookup hdb hunlocked⟩

theorem advance (h : Sound runs s) {s' : Lookups T R} (hs : s.advance t = some s') (hroom : s'.allocated ≤ 2 ^ 32) :
    ∃ runs', Sound runs' s' := by
  unfold Lookups.advance at hs
  split at hs
  · next input inputs hremoving =>
    obtain ⟨r, hr, rfl⟩ := Option.map_eq_some_iff.mp hs
    exact ⟨runs, h.remove hremoving (Threads.succeed_eq_some hr)⟩
  · split_ifs at hs with hlocked
    have hunlocked : (s.threads.phase t).tableId.isSome = true → s.levelsLock = [] := by
      intro hsome
      by_contra hne
      exact hlocked ⟨hsome, hne⟩
    split at hs
    · next id level current next counts levels hid =>
      exact h.merge hid hs (hunlocked (by rw [hid]; rfl))
    · next hother =>
      obtain ⟨threads, hthreads, rfl⟩ := Option.map_eq_some_iff.mp hs
      cases hid : (s.threads.phase t).tableId with
      | none => exact ⟨runs, h.advance_plain hthreads hid hroom⟩
      | some id =>
        have hflushing : s.threads.phase t = .flushing id := by
          cases hp : s.threads.phase t with
          | flushing id' =>
            rw [hp] at hid
            rw [Option.some.inj hid]
          | merging => exact (hother _ _ _ _ _ _ hp).elim
          | _ => rw [hp] at hid; cases hid
        have htakes : s.threads.takes t = [] := by rw [Threads.takes, hflushing]
        have hallocates : s.threads.allocates t = 0 := by rw [Threads.allocates, hflushing]
        rw [htakes, hallocates, List.append_nil]
        exact h.flush hflushing hthreads (hunlocked (by rw [hid]; rfl))

/-! The steps of the reading threads. -/

section Read
variable {r : R} {reader : Reader} {key : String} {since : Nat}

omit [DecidableEq T] in
theorem setReader [DecidableEq R] (h : Sound runs s) {lock : List R}
    (hreader : ReaderOk runs s.threads.db s.taken reader) (hlock : ∀ r' ∈ s.levelsLock, r' ≠ r → r' ∈ lock)
    (hself : ∀ key since todo, reader = .searching key since todo → r ∈ lock) :
    Sound runs { s.setReader r reader with levelsLock := lock } := by
  refine ⟨h.locks, h.refines, h.fits, h.phases, h.next, h.names.mono fun o id howns => ?_, fun r' => ?_,
    fun r' key since todo hr' => ?_⟩
  · cases howns with
    | live htable => exact .live htable
    | thread hid => exact .thread hid
    | removal htable => exact .removal htable
  · change ReaderOk _ _ _ (Function.update s.reader r reader r')
    by_cases heq : r' = r
    · subst heq
      rwa [Function.update_self]
    · rw [Function.update_of_ne heq]
      exact h.readers r'
  · change Function.update s.reader r reader r' = _ at hr'
    by_cases heq : r' = r
    · subst heq
      rw [Function.update_self] at hr'
      exact hself key since todo hr'
    · rw [Function.update_of_ne heq] at hr'
      exact hlock r' (h.holders r' key since todo hr') heq

omit [DecidableEq T] in
theorem answer [DecidableEq R] (h : Sound runs s) {e : Option Entry} (hsaw : Saw s.taken key since e) :
    Sound runs (s.answer r key since (.ok (visible e))) := by
  obtain ⟨n, hle, hle', hlast⟩ := hsaw
  refine h.setReader ⟨le_rfl, n, hle, hle', ?_⟩ (fun r' hr' hne => ?_) fun key since todo heq => ?_
  · rw [fold_eq_visible, hlast]
  · exact (List.mem_erase_of_ne hne).mpr hr'
  · cases heq

omit [DecidableEq T] in
theorem read [DecidableEq R] (h : Sound runs s) {s' : Lookups T R} (hs : s.read r = some s') : Sound runs s' := by
  have hreader := h.readers r
  unfold Lookups.read at hs
  split at hs
  · cases hs
  · cases hs
  · next key since hr =>
    rw [hr] at hreader
    split_ifs at hs
    have hview := h.refines.view key
    split at hs
    · next entry hlookup =>
      obtain rfl := Option.some.inj hs
      rw [hlookup] at hview
      refine h.answer ?_
      rw [show some entry = lastEntry s.taken key from hview]
      exact .now hreader
    · next hlookup =>
      obtain rfl := Option.some.inj hs
      rw [hlookup] at hview
      refine h.setReader ?_ (fun r' hr' _ => hr') fun key since todo heq => by cases heq
      change Saw s.taken key since (s.threads.db.stored runs key)
      rw [show s.threads.db.stored runs key = lastEntry s.taken key from hview]
      exact .now hreader
  · next key since hr =>
    rw [hr] at hreader
    obtain rfl := Option.some.inj hs
    exact h.setReader ⟨hreader, fun _ ht => ht⟩ (fun r' hr' _ => List.mem_cons_of_mem r hr') fun _ _ _ _ =>
      List.mem_cons_self ..
  · next key since hr =>
    rw [hr] at hreader
    obtain rfl := Option.some.inj hs
    exact h.answer hreader.1
  · next key since table todo hr =>
    rw [hr] at hreader
    obtain ⟨hsaw, hlive⟩ := hreader
    rw [List.map_cons, Run.view_cons] at hsaw
    have htable := readEntry_stored (h.refines.stored table (hlive table (List.mem_cons_self ..))) key
    split at hs
    · next fault hfault =>
      rw [htable] at hfault
      cases hfault
    · next hnone =>
      rw [htable] at hnone
      rw [Except.ok.inj hnone] at hsaw
      obtain rfl := Option.some.inj hs
      refine h.setReader ⟨hsaw, fun t ht => hlive t (List.mem_cons_of_mem _ ht)⟩ (fun r' hr' _ => hr') fun _ _ _ _ => ?_
      exact h.holders r key since _ hr
    · next entry hsome =>
      rw [htable] at hsome
      rw [Except.ok.inj hsome] at hsaw
      obtain rfl := Option.some.inj hs
      exact h.answer hsaw

end Read

/-! Runs. -/

omit [DecidableEq T] in
theorem start (config : Config) : Sound (fun _ => ⟨[], .nil⟩) (Lookups.start (.fresh config) : Lookups T R) := by
  have hnone : (Database.fresh config).newestFirst = [] := by
    simp [newestFirst, Database.fresh]
  refine ⟨.start _, .fresh config _, fun c hc => absurd hc List.not_mem_nil, fun t => trivial, rfl, .none ?_,
    fun r => trivial, fun r key since todo hr => by cases hr⟩
  intro o id howns
  cases howns with
  | live htable =>
    change _ ∈ (Database.fresh config).newestFirst at htable
    rw [hnone] at htable
    cases htable
  | thread hid => cases hid
  | removal htable => cases htable

theorem step [DecidableEq R] (h : Sound runs s) {e : Event T R} {s' : Lookups T R} (hs : s.step e = some s')
    (hfits : ∀ c ∈ e.command, c.Fits) (hroom : s'.allocated ≤ 2 ^ 32) : ∃ runs', Sound runs' s' := by
  cases e with
  | write t c =>
    obtain ⟨threads, hthreads, rfl⟩ := Option.map_eq_some_iff.mp hs
    have hlocks := (Threads.step_move hthreads).locksOk h.locks
    cases Threads.step_move hthreads with
    | log _ hidle => exact ⟨runs, h.stay (p := .logged c _) rfl rfl (fun _ _ => rfl) rfl (hfits c rfl) rfl rfl hlocks⟩
  | advance t => exact h.advance hs hroom
  | get r key =>
    have hcalled : Sound runs (s.setReader r (.called key s.taken.length)) :=
      h.setReader (le_refl s.taken.length) (fun r' hr' _ => hr') fun _ _ _ heq => by cases heq
    unfold Lookups.step at hs
    dsimp only at hs
    split at hs
    · exact ⟨runs, Option.some.inj hs ▸ hcalled⟩
    · exact ⟨runs, Option.some.inj hs ▸ hcalled⟩
    · cases hs
  | read r => exact ⟨runs, h.read hs⟩

end Sound

end Lookups
end KvRaft
