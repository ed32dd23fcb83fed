import Mathlib.Data.Finset.Card
import Mathlib.Tactic

/-! When two quorums must share a member. -/

namespace Quorum
variable {N : Type}

/-- Quorums of sizes `q` and `q'` of two electorates meet when the electorates together are
smaller than the two sizes added. -/
theorem inter {E E' Q Q' : Finset N} {q q' : ℕ} [DecidableEq N] (hQ : Q ⊆ E) (hQ' : Q' ⊆ E')
    (hq : q ≤ Q.card) (hq' : q' ≤ Q'.card) (hsize : (E ∪ E').card < q + q') : ∃ x ∈ Q, x ∈ Q' := by
  by_contra hne
  push Not at hne
  have hd : Disjoint Q Q' := Finset.disjoint_left.mpr hne
  have hc := Finset.card_le_card (Finset.union_subset_union hQ hQ')
  rw [Finset.card_union_of_disjoint hd] at hc
  omega

end Quorum
