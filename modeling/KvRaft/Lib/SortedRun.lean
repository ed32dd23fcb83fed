import Mathlib.Tactic

/-! Runs sorted by key, and the map that a stack of runs stands for: the newest run that has a key
decides it. -/

/-- A list of entries in strictly increasing order of their keys. -/
structure Run (α β : Type) [LT α] where
  entries : List (α × β)
  sorted : entries.Pairwise fun a b => a.1 < b.1

namespace Run
variable {α β : Type} [LinearOrder α]

theorem lookup_eq_some_iff_mem {l : List (α × β)} (hl : l.Pairwise fun a b => a.1 < b.1) {k : α}
    {e : β} : l.lookup k = some e ↔ (k, e) ∈ l := by
  induction l with
  | nil => simp
  | cons p l ih =>
    obtain ⟨hp, hl⟩ := List.pairwise_cons.mp hl
    rw [List.lookup_cons, List.mem_cons, Prod.ext_iff]
    by_cases hk : k = p.1
    · subst hk
      have hnot : (p.1, e) ∉ l := fun h => lt_irrefl p.1 (hp (p.1, e) h)
      simp [hnot, eq_comm]
    · rw [beq_eq_false_iff_ne.mpr hk]
      simp [ih hl, hk]

def lookup (r : Run α β) (k : α) : Option β := r.entries.lookup k

theorem lookup_eq_some (r : Run α β) {k : α} {e : β} : r.lookup k = some e ↔ (k, e) ∈ r.entries :=
  lookup_eq_some_iff_mem r.sorted

theorem keys_nodup (r : Run α β) : (r.entries.map Prod.fst).Nodup :=
  List.pairwise_map.mpr (r.sorted.imp fun h => h.ne)

/-- The value of a key in a stack of runs, the newest first. -/
def view (runs : List (Run α β)) (k : α) : Option β := runs.findSome? fun r => r.lookup k

@[simp] theorem view_nil (k : α) : view ([] : List (Run α β)) k = none := rfl

theorem view_cons (r : Run α β) (runs : List (Run α β)) (k : α) :
    view (r :: runs) k = (r.lookup k).or (view runs k) := by
  rw [view, List.findSome?_cons]
  cases r.lookup k <;> rfl

theorem view_append (runs runs' : List (Run α β)) (k : α) :
    view (runs ++ runs') k = (view runs k).or (view runs' k) := List.findSome?_append

theorem mem_of_view {runs : List (Run α β)} {k : α} {e : β} (h : view runs k = some e) :
    ∃ r ∈ runs, (k, e) ∈ r.entries := by
  obtain ⟨r, hr, he⟩ := List.exists_of_findSome?_eq_some h
  exact ⟨r, hr, r.lookup_eq_some.mp he⟩

def newest : List (Run α β) → α → Option (Nat × β)
  | [], _ => none
  | r :: runs, k => match newest runs k with
    | some (i, e) => some (i + 1, e)
    | none => (r.lookup k).map fun e => (0, e)

theorem view_reverse (runs : List (Run α β)) (k : α) : view runs.reverse k = (newest runs k).map Prod.snd := by
  induction runs with
  | nil => rfl
  | cons r runs ih =>
    rw [List.reverse_cons, view_append, ih, newest, view_cons, view_nil, Option.or_none]
    cases newest runs k with
    | some p => rfl
    | none => cases r.lookup k <;> rfl

theorem newest_get {runs : List (Run α β)} {k : α} {i : Nat} {e : β} (h : newest runs k = some (i, e)) :
    ∃ r, runs[i]? = some r ∧ r.lookup k = some e := by
  induction runs generalizing i with
  | nil => cases h
  | cons r runs ih =>
    rw [newest] at h
    cases hn : newest runs k with
    | some p =>
      rw [hn] at h
      obtain ⟨rfl, rfl⟩ := Prod.mk.inj (Option.some.inj h)
      exact ih hn
    | none =>
      rw [hn] at h
      obtain ⟨e', he, heq⟩ := Option.map_eq_some_iff.mp h
      obtain ⟨rfl, rfl⟩ := Prod.mk.inj heq
      exact ⟨r, rfl, he⟩

theorem exists_newest {runs : List (Run α β)} {k : α} {j : Nat} {r : Run α β} {e : β} (hr : runs[j]? = some r)
    (he : r.lookup k = some e) : ∃ i e', newest runs k = some (i, e') ∧ j ≤ i := by
  induction runs generalizing j with
  | nil => cases hr
  | cons r' runs ih =>
    rw [newest]
    cases hn : newest runs k with
    | some p =>
      obtain ⟨i, e'⟩ := p
      refine ⟨i + 1, e', rfl, ?_⟩
      cases j with
      | zero => exact Nat.zero_le _
      | succ j =>
        obtain ⟨i', e'', hn', hle⟩ := ih hr
        rw [hn] at hn'
        obtain ⟨rfl, -⟩ := Prod.mk.inj (Option.some.inj hn')
        exact Nat.succ_le_succ hle
    | none =>
      cases j with
      | zero =>
        obtain rfl := Option.some.inj hr
        exact ⟨0, e, by rw [he]; rfl, le_rfl⟩
      | succ j =>
        obtain ⟨i', e'', hn', -⟩ := ih hr
        rw [hn] at hn'
        cases hn'

/-- Neighbouring runs can be replaced by one run that stands for the same map. -/
theorem view_merge {older mid newer : List (Run α β)} {r : Run α β} (hr : r.lookup = view mid) (k : α) :
    view (newer ++ (r :: older)) k = view (newer ++ (mid ++ older)) k := by
  rw [view_append, view_cons, view_append, view_append, hr]

/-- Some of the runs that were merged may stay behind the merged one. -/
theorem view_over {older mid kept : List (Run α β)} {r : Run α β} {k : α} (hr : r.lookup k = view mid k)
    (hkept : kept ⊆ mid) : view (r :: (kept ++ older)) k = view (mid ++ older) k := by
  rw [view_cons, view_append, view_append, hr]
  cases hmid : view mid k with
  | some e => rfl
  | none =>
    have hnone : view kept k = none := List.findSome?_eq_none_iff.mpr fun r' hr' =>
      List.findSome?_eq_none_iff.mp hmid r' (hkept hr')
    rw [hnone]
    rfl

end Run
