import KvRaft.Lib.SortedRun

/-! Merging sorted sources through a heap of their heads. Of the entries with one key, the one from
the source of the highest priority is kept. -/

namespace KWayMerge
variable {α β : Type} [LinearOrder α]

structure Item (α β : Type) where
  key : α
  entry : β
  source : Nat
  priority : Nat
  deriving DecidableEq, Repr

/-- The order of the heap, which has the smallest key on top and then the highest priority. -/
def Item.le (a b : Item α β) : Bool :=
  decide (b.key < a.key ∨ (a.key = b.key ∧ a.priority ≤ b.priority))

def pop : List (Item α β) → Option (Item α β × List (Item α β))
  | [] => none
  | a :: heap => match pop heap with
    | none => some (a, [])
    | some (b, rest) => if b.le a then some (a, b :: rest) else some (b, a :: rest)

theorem Item.le_iff {a b : Item α β} :
    a.le b = true ↔ b.key < a.key ∨ (a.key = b.key ∧ a.priority ≤ b.priority) := decide_eq_true_iff

theorem Item.le_trans {a b c : Item α β} (hab : a.le b = true) (hbc : b.le c = true) :
    a.le c = true := by
  rw [Item.le_iff] at hab hbc ⊢
  rcases hab with hab | ⟨hab, hp⟩ <;> rcases hbc with hbc | ⟨hbc, hq⟩
  · exact Or.inl (hbc.trans hab)
  · exact Or.inl (hbc ▸ hab)
  · exact Or.inl (hab ▸ hbc)
  · exact Or.inr ⟨hab.trans hbc, hp.trans hq⟩

theorem Item.le_total {a b : Item α β} (h : ¬ a.le b = true) : b.le a = true := by
  rw [Item.le_iff] at h ⊢
  rw [not_or, not_lt, not_and_or, not_le] at h
  rcases h.1.lt_or_eq with hlt | heq
  · exact Or.inl hlt
  · exact Or.inr ⟨heq.symm, (h.2.resolve_left (not_not.mpr heq)).le⟩

theorem pop_eq_none {heap : List (Item α β)} : pop heap = none ↔ heap = [] := by
  cases heap with
  | nil => simp [pop]
  | cons a heap =>
    rw [pop]
    split
    · simp
    · split_ifs <;> simp

theorem pop_eq_some {heap rest : List (Item α β)} {c : Item α β} (h : pop heap = some (c, rest)) :
    heap.Perm (c :: rest) ∧ ∀ x ∈ heap, x.le c = true := by
  have hrefl : ∀ a : Item α β, a.le a = true := fun a => Item.le_iff.mpr (Or.inr ⟨rfl, le_rfl⟩)
  induction heap generalizing c rest with
  | nil => cases h
  | cons a heap ih =>
    rw [pop] at h
    split at h
    · next hnone =>
      obtain ⟨rfl, rfl⟩ := Prod.mk.inj (Option.some.inj h)
      rw [pop_eq_none.mp hnone]
      exact ⟨.refl _, fun x hx => List.mem_singleton.mp hx ▸ hrefl _⟩
    · next b bs hb =>
      obtain ⟨hperm, hmax⟩ := ih hb
      split_ifs at h with hle
      · obtain ⟨rfl, rfl⟩ := Prod.mk.inj (Option.some.inj h)
        refine ⟨hperm.cons _, fun x hx => ?_⟩
        rcases List.mem_cons.mp hx with rfl | hx
        · exact hrefl _
        · exact Item.le_trans (hmax x hx) hle
      · obtain ⟨rfl, rfl⟩ := Prod.mk.inj (Option.some.inj h)
        refine ⟨(hperm.cons a).trans (.swap ..), fun x hx => ?_⟩
        rcases List.mem_cons.mp hx with rfl | hx
        · exact Item.le_total hle
        · exact hmax x hx

/-! The heap against what is left of the sources. -/

def heads (prio : Nat → Nat) (i : Nat) (l : List (α × β)) : List (Item α β) :=
  (l.head?.map fun p => ⟨p.1, p.2, i, prio i⟩).toList

/-- The heap holds the head of every source that is not used up. -/
structure Heads (prio : Nat → Nat) (S : Nat → List (α × β)) (heap : List (Item α β)) : Prop where
  head : ∀ c ∈ heap, (S c.source).head? = some (c.key, c.entry) ∧ c.priority = prio c.source
  all : ∀ i, S i ≠ [] → ∃ c ∈ heap, c.source = i
  nodup : (heap.map Item.source).Nodup

section Sources
variable {prio : Nat → Nat} {S S' : Nat → List (α × β)} {heap rest : List (Item α β)} {c : Item α β}

omit [LinearOrder α] in
theorem Heads.mem (h : Heads prio S heap) (hc : c ∈ heap) : (c.key, c.entry) ∈ S c.source :=
  List.mem_of_head? (h.head c hc).1

omit [LinearOrder α] in
theorem Heads.remove (h : Heads prio S heap) (hperm : heap.Perm (c :: rest)) :
    Heads prio (Function.update S c.source []) rest ∧ ∀ x ∈ rest, x.source ≠ c.source := by
  obtain ⟨hc, hnodup⟩ := List.nodup_cons.mp (hperm.map Item.source |>.nodup_iff.mp h.nodup)
  have hne : ∀ x ∈ rest, x.source ≠ c.source := fun x hx heq => hc (heq ▸ List.mem_map_of_mem hx)
  refine ⟨⟨fun x hx => ?_, fun i hi => ?_, hnodup⟩, hne⟩
  · rw [Function.update_of_ne (hne x hx)]
    exact h.head x (hperm.symm.subset (List.mem_cons_of_mem _ hx))
  · have hic : i ≠ c.source := fun heq => hi (heq ▸ Function.update_self ..)
    rw [Function.update_of_ne hic] at hi
    obtain ⟨x, hx, rfl⟩ := h.all i hi
    rcases List.mem_cons.mp (hperm.subset hx) with rfl | hx
    · exact absurd rfl hic
    · exact ⟨x, hx, rfl⟩

omit [LinearOrder α] in
theorem Heads.load (h : Heads prio S heap) {i : Nat} (hi : ∀ x ∈ heap, x.source ≠ i)
    (l : List (α × β)) : Heads prio (Function.update S i l) (heads prio i l ++ heap) := by
  have hkeep : ∀ x ∈ heap, (Function.update S i l x.source).head? = some (x.key, x.entry) ∧
      x.priority = prio x.source := fun x hx => by
    rw [Function.update_of_ne (hi x hx)]
    exact h.head x hx
  have hall : ∀ j, j ≠ i → Function.update S i l j ≠ [] → ∃ x ∈ heap, x.source = j := fun j hj hne => by
    rw [Function.update_of_ne hj] at hne
    exact h.all j hne
  cases l with
  | nil =>
    refine ⟨hkeep, fun j hne => ?_, h.nodup⟩
    by_cases hj : j = i
    · exact absurd (hj ▸ Function.update_self ..) hne
    · exact hall j hj hne
  | cons p l =>
    refine ⟨fun x hx => ?_, fun j hne => ?_, ?_⟩
    · rcases List.mem_cons.mp hx with rfl | hx
      · exact ⟨by rw [Function.update_self]; rfl, rfl⟩
      · exact hkeep x hx
    · by_cases hj : j = i
      · exact ⟨_, List.mem_cons_self .., hj.symm⟩
      · obtain ⟨x, hx, hxj⟩ := hall j hj hne
        exact ⟨x, List.mem_cons_of_mem _ hx, hxj⟩
    · refine List.nodup_cons.mpr ⟨fun hmem => ?_, h.nodup⟩
      obtain ⟨x, hx, hxi⟩ := List.mem_map.mp hmem
      exact hi x hx hxi

omit [LinearOrder α] in
theorem Heads.advance (h : Heads prio S heap) (hperm : heap.Perm (c :: rest)) :
    Heads prio (Function.update S c.source (S c.source).tail)
      (heads prio c.source (S c.source).tail ++ rest) := by
  obtain ⟨hrest, hne⟩ := h.remove hperm
  have hload := hrest.load hne (S c.source).tail
  rwa [Function.update_idem] at hload

theorem Heads.key_le (h : Heads prio S heap) (hS : ∀ i, (S i).Pairwise fun a b => a.1 < b.1)
    (hmax : ∀ x ∈ heap, x.le c = true) {i : Nat} {p : α × β} (hp : p ∈ S i) : c.key ≤ p.1 := by
  obtain ⟨x, hx, rfl⟩ := h.all i (List.ne_nil_of_mem hp)
  have hxc : c.key ≤ x.key := by
    rcases Item.le_iff.mp (hmax x hx) with hlt | ⟨heq, -⟩
    · exact hlt.le
    · exact heq.ge
  obtain ⟨l, hl⟩ := List.head?_eq_some_iff.mp (h.head x hx).1
  have hsorted := hS x.source
  rw [hl] at hp hsorted
  rcases List.mem_cons.mp hp with rfl | hp
  · exact hxc
  · exact hxc.trans ((List.pairwise_cons.mp hsorted).1 p hp).le

/-- The top of the heap comes from the source of the highest priority that has its key. -/
theorem Heads.priority_le (h : Heads prio S heap) (hS : ∀ i, (S i).Pairwise fun a b => a.1 < b.1)
    (hc : c ∈ heap) (hmax : ∀ x ∈ heap, x.le c = true) {i : Nat} {e : β} (hp : (c.key, e) ∈ S i) :
    prio i ≤ prio c.source := by
  obtain ⟨x, hx, rfl⟩ := h.all i (List.ne_nil_of_mem hp)
  obtain ⟨hhead, hprio⟩ := h.head x hx
  obtain ⟨l, hl⟩ := List.head?_eq_some_iff.mp hhead
  have hsorted := hS x.source
  rw [hl] at hp hsorted
  have hxc : x.key ≤ c.key := by
    rcases List.mem_cons.mp hp with heq | hp
    · exact (congrArg Prod.fst heq).ge
    · exact ((List.pairwise_cons.mp hsorted).1 _ hp).le
  rcases Item.le_iff.mp (hmax x hx) with hlt | ⟨-, hle⟩
  · exact absurd hxc (not_le.mpr hlt)
  · rwa [hprio, (h.head c hc).2] at hle

end Sources

/-! What the merge has written against what is left. -/

/-- `e` is the entry of `k` in the source of the highest priority that has `k`. -/
def Picks (prio : Nat → Nat) (S : Nat → List (α × β)) (k : α) (e : β) : Prop :=
  ∃ i, (k, e) ∈ S i ∧ ∀ j e', (k, e') ∈ S j → prio j ≤ prio i

def skip (k : α) : List (α × β) → List (α × β)
  | [] => []
  | p :: l => if p.1 = k then l else p :: l

theorem mem_skip {k : α} {l : List (α × β)} (hl : l.Pairwise fun a b => a.1 < b.1)
    (hk : ∀ p ∈ l, k ≤ p.1) {p : α × β} : p ∈ skip k l ↔ p ∈ l ∧ p.1 ≠ k := by
  cases l with
  | nil => simp [skip]
  | cons q l =>
    obtain ⟨hq, -⟩ := List.pairwise_cons.mp hl
    rw [skip, List.mem_cons]
    split_ifs with h
    · refine ⟨fun hp => ⟨Or.inr hp, ?_⟩, fun hp => hp.1.resolve_left ?_⟩
      · exact (h ▸ hq p hp).ne'
      · rintro rfl
        exact hp.2 h
    · rw [List.mem_cons]
      refine ⟨fun hp => ⟨hp, ?_⟩, fun hp => hp.1⟩
      rcases hp with rfl | hp
      · exact h
      · exact ((hk q (List.mem_cons_self ..)).trans_lt (hq p hp)).ne'

theorem skip_sublist (k : α) (l : List (α × β)) : (skip k l).Sublist l := by
  cases l with
  | nil => exact .refl _
  | cons p l =>
    rw [skip]
    split_ifs
    · exact List.sublist_cons_self ..
    · exact .refl _

/-- `out` has every key of the sources, each with an entry from a source of the highest priority. Which
one that is when several have it is left open. -/
structure Selects (prio : Nat → Nat) (S : Nat → List (α × β)) (out : List (α × β)) : Prop where
  picks : ∀ k e, (k, e) ∈ out → Picks prio S k e
  covers : ∀ i k e, (k, e) ∈ S i → ∃ e', (k, e') ∈ out

/-- How far a merge of `S₀` is: `out` is written and `S` is left. -/
structure Progress (prio : Nat → Nat) (S₀ S : Nat → List (α × β)) (out : List (α × β)) : Prop where
  out_sorted : out.Pairwise fun a b => a.1 < b.1
  sorted : ∀ i, (S i).Pairwise fun a b => a.1 < b.1
  below : ∀ p ∈ out, ∀ i, ∀ q ∈ S i, p.1 < q.1
  sub : ∀ i, ∀ p ∈ S i, p ∈ S₀ i
  picks : ∀ k e, (k, e) ∈ out → Picks prio S₀ k e
  left : ∀ i k e, (k, e) ∈ S₀ i → (k, e) ∈ S i ∨ ∃ e', (k, e') ∈ out

section Progress
variable {prio : Nat → Nat} {S₀ S : Nat → List (α × β)} {out : List (α × β)}

theorem Progress.start (hS : ∀ i, (S i).Pairwise fun a b => a.1 < b.1) : Progress prio S S [] :=
  ⟨.nil, hS, fun _ hp => (nomatch hp), fun _ _ hp => hp, fun _ _ hp => (nomatch hp), fun _ _ _ h => Or.inl h⟩

theorem Progress.write (h : Progress prio S₀ S out) {k : α} {e : β} {i : Nat} (hi : (k, e) ∈ S i)
    (hmin : ∀ j, ∀ p ∈ S j, k ≤ p.1) (hprio : ∀ j e', (k, e') ∈ S j → prio j ≤ prio i) :
    Progress prio S₀ (fun j => skip k (S j)) (out ++ [(k, e)]) := by
  have hmem : ∀ j p, p ∈ skip k (S j) ↔ p ∈ S j ∧ p.1 ≠ k := fun j p => mem_skip (h.sorted j) (hmin j)
  refine ⟨?_, fun j => (h.sorted j).sublist (skip_sublist ..), ?_,
    fun j p hp => h.sub j p ((hmem j p).mp hp).1, ?_, ?_⟩
  · refine List.pairwise_append.mpr ⟨h.out_sorted, List.pairwise_singleton .., fun p hp q hq => ?_⟩
    obtain rfl := List.mem_singleton.mp hq
    exact h.below p hp i _ hi
  · intro p hp j q hq
    obtain ⟨hq, hqk⟩ := (hmem j q).mp hq
    rcases List.mem_append.mp hp with hp | hp
    · exact h.below p hp j q hq
    · obtain rfl := List.mem_singleton.mp hp
      exact lt_of_le_of_ne (hmin j q hq) (Ne.symm hqk)
  · intro k' e' hp
    rcases List.mem_append.mp hp with hp | hp
    · exact h.picks k' e' hp
    · obtain ⟨rfl, rfl⟩ := Prod.mk.inj (List.mem_singleton.mp hp)
      refine ⟨i, h.sub i _ hi, fun j e'' hj => ?_⟩
      -- the key was not written before, so every entry of it is still left
      rcases h.left j k' e'' hj with hj | ⟨e₁, hout⟩
      · exact hprio j e'' hj
      · exact absurd (h.below _ hout i _ hi) (lt_irrefl _)
  · intro j k' e' hj
    rcases h.left j k' e' hj with hj | ⟨e₁, hout⟩
    · by_cases hk : k' = k
      · exact Or.inr ⟨e, List.mem_append_right _ (hk ▸ List.mem_singleton_self _)⟩
      · exact Or.inl ((hmem j _).mpr ⟨hj, hk⟩)
    · exact Or.inr ⟨e₁, List.mem_append_left _ hout⟩

theorem Progress.done (h : Progress prio S₀ S out) (hS : ∀ i, S i = []) : Selects prio S₀ out where
  picks := h.picks
  covers i k e hi := by
    rcases h.left i k e hi with hi | hout
    · rw [hS i] at hi
      cases hi
    · exact hout

end Progress
end KWayMerge
