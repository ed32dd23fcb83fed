import Mathlib.Tactic

/-! Binary search over indices, as a slice is searched. -/

namespace BinarySearch

/-- Halves the range of `size` indices from `base` until one is left. `cmp i` compares the element at
`i` with what is searched. -/
def narrow (cmp : Nat → Ordering) : Nat → Nat → Nat → Nat
  | 0, base, _ => base
  | fuel + 1, base, size =>
    if size ≤ 1 then base
    else narrow cmp fuel (if cmp (base + size / 2) = .gt then base else base + size / 2) (size - size / 2)

/-- The search ends at the one index from which on everything is greater. -/
theorem narrow_eq {cmp : Nat → Ordering} {n t : Nat} (hcmp : ∀ i < n, cmp i = .gt ↔ t < i)
    {fuel base size : Nat} (hfuel : size ≤ fuel + 1) (hlo : base ≤ t) (hhi : t < base + size)
    (hn : base + size ≤ n) : narrow cmp fuel base size = t := by
  induction fuel generalizing base size with
  | zero =>
    rw [narrow]
    omega
  | succ fuel ih =>
    rw [narrow]
    split_ifs with hsize hgt
    · omega
    · have := (hcmp _ (by omega)).mp hgt
      exact ih (by omega) hlo (by omega) (by omega)
    · have := mt (hcmp _ (by omega)).mpr hgt
      exact ih (by omega) (by omega) (by omega) (by omega)

end BinarySearch
