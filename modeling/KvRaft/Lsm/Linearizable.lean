import KvRaft.Lsm.LookupsSpec

/-! What holds in every run of the threads that write to a database and read from it. -/

namespace KvRaft
open Outcome Table Database

namespace Lookups

section Runs
variable {T R : Type} [DecidableEq R] [FloatText] [Xxh3]
variable {s s' : Lookups T R} {config : Config} {es : List (Event T R)}

theorem read_frame {r : R} (hs : s.read r = some s') :
    s' = { s with reader := s'.reader, levelsLock := s'.levelsLock } := by
  unfold Lookups.read at hs
  split at hs
  · cases hs
  · cases hs
  · split_ifs at hs
    split at hs <;> exact Option.some.inj hs ▸ rfl
  · exact Option.some.inj hs ▸ rfl
  · exact Option.some.inj hs ▸ rfl
  · split at hs <;> exact Option.some.inj hs ▸ rfl

variable [DecidableEq T] [BloomSizing]

theorem allocated_le {e : Event T R} (hs : s.step e = some s') : s.allocated ≤ s'.allocated := by
  cases e with
  | write t c =>
    obtain ⟨threads, -, rfl⟩ := Option.map_eq_some_iff.mp hs
    exact le_rfl
  | advance t =>
    change s.advance t = some s' at hs
    unfold Lookups.advance at hs
    split at hs
    · obtain ⟨r, -, rfl⟩ := Option.map_eq_some_iff.mp hs
      exact le_rfl
    · split_ifs at hs
      split at hs
      · obtain ⟨r, -, rfl⟩ := Option.map_eq_some_iff.mp hs
        exact le_rfl
      · obtain ⟨threads, -, rfl⟩ := Option.map_eq_some_iff.mp hs
        exact Nat.le_add_right ..
  | get r key =>
    unfold Lookups.step at hs
    dsimp only at hs
    split at hs
    · exact Option.some.inj hs ▸ le_rfl
    · exact Option.some.inj hs ▸ le_rfl
    · cases hs
  | read r =>
    rw [read_frame hs]

theorem exec_sound (hfits : ∀ c ∈ es.filterMap Event.command, c.Fits) (hrun : exec (.start (.fresh config)) es = some s)
    (hroom : s.allocated ≤ 2 ^ 32) : ∃ runs, Sound runs s := by
  refine Fold.foldlM_invariant (P := fun s : Lookups T R => s.allocated ≤ 2 ^ 32 → ∃ runs, Sound runs s) hrun
    (fun _ => ⟨_, .start config⟩) (fun s e s' he ih hs hroom => ?_) hroom
  obtain ⟨runs, hsound⟩ := ih ((allocated_le hs).trans hroom)
  exact hsound.step hs (fun c hc => hfits c (List.mem_filterMap.mpr ⟨e, he, hc⟩)) hroom

/-- Lookups are atomic: whatever other threads write, flush, compact and remove meanwhile, a lookup never fails,
and returns what the map had at one moment between its call and its return. -/
theorem get_linearizable (hfits : ∀ c ∈ es.filterMap Event.command, c.Fits)
    (hrun : exec (.start (.fresh config)) es = some s)
    (hroom : s.allocated ≤ 2 ^ 32) {r : R} {key : String} {since till : Nat} {result : Except Fault (Option Value)}
    (hr : s.reader r = .done key since till result) :
    till ≤ s.taken.length ∧
      ∃ n, since ≤ n ∧ n ≤ till ∧ result = .ok (Storage.fold (s.taken.take n) key) := by
  obtain ⟨runs, hsound⟩ := exec_sound hfits hrun hroom
  have hreader := hsound.readers r
  rw [hr] at hreader
  exact hreader

end Runs

section Concrete
open scoped Concrete

/-- A table is flushed and merged. A lookup finds the merged one while its input is removed and another thread
writes to the same key. -/
def lookupDuringWrite : List (Event (Bool) (Unit)) :=
  .write false (.set "a" (.int 1)) :: List.replicate 10 (.advance false) ++ [.get () "a", .read (), .read (),
    .advance false, .write true (.set "a" (.int 2)), .advance true, .read ()]

theorem get_linearizable_during_write : ∃ s : Lookups Bool Unit,
    exec (.start (.fresh ⟨2, 1, 1⟩)) lookupDuringWrite = some s ∧
    s.reader () = .done "a" 1 2 (.ok (some (.int 1))) ∧ s.threads.db.disk.tables.keys = [1] ∧
    ∃ n, 1 ≤ n ∧ n ≤ 2 ∧ (.ok (some (.int 1)) : Except Fault _) = .ok (Storage.fold (s.taken.take n) "a") := by
  have hrun : (exec (.start (.fresh ⟨2, 1, 1⟩)) lookupDuringWrite).map (fun s : Lookups Bool Unit =>
      (decide ((s.reader ()).returned = some ("a", 1, 2, some (.int 1))), s.threads.db.disk.tables.keys, s.allocated)) =
        some (true, [1], 2) := by
    decide +kernel
  obtain ⟨s, hs, heq⟩ := Option.map_eq_some_iff.mp hrun
  obtain ⟨hreader, heq⟩ := Prod.mk.inj heq
  obtain ⟨hkeys, hallocated⟩ := Prod.mk.inj heq
  have hdone := Reader.returned_eq_some.mp (of_decide_eq_true hreader)
  exact ⟨s, hs, hdone, hkeys, (get_linearizable (by decide) hs (by omega) hdone).2⟩

end Concrete

section Runs
variable {T R : Type} [DecidableEq T] [DecidableEq R] [FloatText] [Xxh3] [BloomSizing]
variable {s : Lookups T R} {config : Config} {es : List (Event T R)}

/-- At every moment the database is the map of the commands that the memtable has taken, in that order. -/
theorem threads_refine_map (hfits : ∀ c ∈ es.filterMap Event.command, c.Fits)
    (hrun : exec (.start (.fresh config)) es = some s) (hroom : s.allocated ≤ 2 ^ 32) (k : String) :
    s.threads.db.get k = .ok (Storage.fold s.taken k) := by
  obtain ⟨runs, hsound⟩ := exec_sound hfits hrun hroom
  exact hsound.refines.get_eq k

end Runs

section Concrete
open scoped Concrete

theorem threads_refine_map_during_write : ∃ s : Lookups Bool Unit,
    exec (.start (.fresh ⟨2, 1, 1⟩)) lookupDuringWrite = some s ∧ (s.threads.phase true).isIdle = false ∧
    s.taken = [.set "a" (.int 1), .set "a" (.int 2)] ∧ ∀ k, s.threads.db.get k = .ok (Storage.fold s.taken k) := by
  have hrun : (exec (.start (.fresh ⟨2, 1, 1⟩)) lookupDuringWrite).map (fun s : Lookups Bool Unit =>
      ((s.threads.phase true).isIdle, s.taken, s.allocated)) =
        some (false, [.set "a" (.int 1), .set "a" (.int 2)], 2) := by
    decide +kernel
  obtain ⟨s, hs, heq⟩ := Option.map_eq_some_iff.mp hrun
  obtain ⟨hidle, heq⟩ := Prod.mk.inj heq
  obtain ⟨htaken, hallocated⟩ := Prod.mk.inj heq
  exact ⟨s, hs, hidle, htaken, threads_refine_map (by decide) hs (by omega)⟩

end Concrete
end Lookups
end KvRaft
