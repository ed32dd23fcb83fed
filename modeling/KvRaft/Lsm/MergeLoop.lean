import KvRaft.Lsm.Compaction

/-! The heap loop of a compaction over any readers: it takes in all that they yield, and hands the writer
each key once, in order, with the entry of the source of the highest priority that has it. -/

namespace KvRaft
open Table KWayMerge

section Reader
variable [FloatText]

/-- The reader returns the entries `es`, one by one, and is then at its end. -/
inductive Yields : SequentialReader → List (String × Entry) → Prop
  | done {r : SequentialReader} (h : r.next = .ok (none, r)) : Yields r []
  | more {r r' : SequentialReader} {p : String × Entry} {es : List (String × Entry)}
      (h : r.next = .ok (some p, r')) (hr' : Yields r' es) : Yields r (p :: es)

theorem next_eq_none {r : SequentialReader} (h : r.next = .ok (none, r)) : r.entryCount ≤ r.entriesRead := by
  unfold SequentialReader.next at h
  split_ifs at h with hend
  · exact hend
  · cases hread : readRecord r.file with
    | error e => simp [hread, bind, Except.bind] at h
    | ok o =>
      cases o with
      | none => simp [hread, bind, Except.bind, throw, throwThe, MonadExceptOf.throw] at h
      | some q => simp [hread, bind, Except.bind, pure, Except.pure] at h

theorem next_eq_some {r r' : SequentialReader} {p : String × Entry} (h : r.next = .ok (some p, r')) :
    r.entriesRead < r.entryCount ∧ r'.entryCount = r.entryCount ∧ r'.entriesRead = r.entriesRead + 1 := by
  unfold SequentialReader.next at h
  split_ifs at h with hend
  · simp at h
  · refine ⟨not_le.mp hend, ?_⟩
    cases hread : readRecord r.file with
    | error e => simp [hread, bind, Except.bind] at h
    | ok o =>
      cases o with
      | none => simp [hread, bind, Except.bind, throw, throwThe, MonadExceptOf.throw] at h
      | some q =>
        simp only [hread, bind, Except.bind, pure, Except.pure, Except.ok.injEq, Prod.mk.injEq] at h
        obtain ⟨-, rfl⟩ := h
        exact ⟨rfl, rfl⟩

theorem Yields.count {r : SequentialReader} {es : List (String × Entry)} (h : Yields r es) :
    r.entryCount - r.entriesRead = es.length := by
  induction h with
  | done h => exact Nat.sub_eq_zero_of_le (next_eq_none h)
  | more h _ ih =>
    obtain ⟨hlt, hcount, hread⟩ := next_eq_some h
    rw [hcount, hread] at ih
    rw [List.length_cons]
    omega

end Reader

section Sums

theorem sum_map_set {α : Type} {f : α → Nat} {l : List α} {i : Nat} {a : α} (h : l[i]? = some a) (b : α) :
    ((l.set i b).map f).sum + f a = (l.map f).sum + f b := by
  induction l generalizing i with
  | nil => cases h
  | cons x l ih => cases i with
    | zero =>
      obtain rfl := Option.some.inj h
      simp only [List.set_cons_zero, List.map_cons, List.sum_cons]
      omega
    | succ i =>
      have := ih (i := i) h
      simp only [List.set_cons_succ, List.map_cons, List.sum_cons]
      omega

end Sums

namespace Merge
variable [FloatText] {currentLen : Nat}

variable (currentLen) in
theorem pushNext_eq {m : Merge} {i : Nat} {r : SequentialReader} {l : List (String × Entry)}
    (hr : m.readers[i]? = some r) (hl : Yields r l) :
    ∃ r', Yields r' l.tail ∧
      (∀ w, pushNext currentLen { m with writer := w } i = .ok
        ⟨heads (mergePriority currentLen) i l ++ m.heap, m.readers.set i r', w⟩) ∧
      ∀ w, (Merge.mk (heads (mergePriority currentLen) i l ++ m.heap) (m.readers.set i r') w).pending =
        m.pending := by
  cases hl with
  | done h =>
    refine ⟨r, .done h, fun w => ?_, fun w => ?_⟩
    · simp only [pushNext, hr, h, bind, Except.bind]
      rfl
    · have := sum_map_set (f := fun r : SequentialReader => r.entryCount - r.entriesRead) hr r
      simp only [pending, heads, List.head?_nil, Option.map_none, Option.toList_none, List.nil_append]
      omega
  | @more _ r' p l h hr' =>
    refine ⟨r', hr', fun w => ?_, fun w => ?_⟩
    · simp only [pushNext, hr, h, bind, Except.bind]
      rfl
    · have hsum := sum_map_set (f := fun r : SequentialReader => r.entryCount - r.entriesRead) hr r'
      have h1 := (Yields.more h hr').count
      have h2 := hr'.count
      rw [List.length_cons] at h1
      simp only [pending, heads, List.head?_cons, Option.map_some, Option.toList_some,
        List.singleton_append, List.length_cons]
      omega

/-- The heap has the heads of the sources `S`, and the readers are behind them. -/
structure Sound (currentLen : Nat) (S : Nat → List (String × Entry)) (m : Merge) : Prop where
  heads : Heads (mergePriority currentLen) S m.heap
  reads : ∀ i r, m.readers[i]? = some r → Yields r (S i).tail
  bound : ∀ i, S i ≠ [] → i < m.readers.length

theorem Sound.heap_nil {S : Nat → List (String × Entry)} {m : Merge} (h : Sound currentLen S m)
    (hnil : m.heap = []) (i : Nat) : S i = [] := by
  by_contra hi
  obtain ⟨x, hx, -⟩ := h.heads.all i hi
  rw [hnil] at hx
  cases hx

/-- Popping an item and pushing what comes after it. The writer plays no part in it. -/
theorem Sound.advance {S : Nat → List (String × Entry)} {m : Merge} (h : Sound currentLen S m)
    {c : MergeItem} {rest : List MergeItem} (hpop : pop m.heap = some (c, rest)) :
    ∃ m', (∀ w, pushNext currentLen { m with heap := rest, writer := w } c.source =
        .ok { m' with writer := w }) ∧
      Sound currentLen (Function.update S c.source (S c.source).tail) m' ∧ m'.pending + 1 = m.pending := by
  obtain ⟨hperm, -⟩ := pop_eq_some hpop
  have hne : S c.source ≠ [] := List.ne_nil_of_mem (h.heads.mem (hperm.symm.subset (List.mem_cons_self ..)))
  have hlt := h.bound _ hne
  have hr := List.getElem?_eq_getElem hlt
  obtain ⟨r', hr', heq, hpending⟩ := pushNext_eq currentLen (m := { m with heap := rest }) hr (h.reads _ _ hr)
  refine ⟨⟨_, _, m.writer⟩, heq, ⟨h.heads.advance hperm, fun i r hi => ?_, fun i hi => ?_⟩, ?_⟩
  · change (m.readers.set c.source r')[i]? = some r at hi
    by_cases hic : i = c.source
    · subst hic
      rw [List.getElem?_set_self hlt] at hi
      obtain rfl := Option.some.inj hi
      rwa [Function.update_self]
    · rw [List.getElem?_set_ne (Ne.symm hic)] at hi
      rw [Function.update_of_ne hic]
      exact h.reads i r hi
  · change i < (m.readers.set c.source r').length
    rw [List.length_set]
    by_cases hic : i = c.source
    · exact hic ▸ hlt
    · rw [Function.update_of_ne hic] at hi
      exact h.bound i hi
  · rw [hpending]
    have hlen := hperm.length_eq
    rw [List.length_cons] at hlen
    simp only [pending, hlen]
    omega

def Skipping (key : String) (S₁ S : Nat → List (String × Entry)) : Prop :=
  ∀ i, S i = S₁ i ∨ S i = skip key (S₁ i)

section Skip
variable {key : String} {S₁ S : Nat → List (String × Entry)} {m : Merge}

omit [FloatText] in
theorem Skipping.sublist (h : Skipping key S₁ S) (i : Nat) : (S i).Sublist (S₁ i) := by
  rcases h i with hi | hi
  · rw [hi]
  · rw [hi]
    exact skip_sublist ..

theorem Skipping.eq_skip (h : Skipping key S₁ S) (hm : Sound currentLen S m)
    (hne : ∀ x ∈ m.heap, x.key ≠ key) : S = fun i => skip key (S₁ i) := by
  funext i
  rcases h i with hi | hi
  · rw [← hi]
    cases hSi : S i with
    | nil => rfl
    | cons p l =>
      have hSne : S i ≠ [] := hSi ▸ List.cons_ne_nil p l
      obtain ⟨x, hx, rfl⟩ := hm.heads.all i hSne
      have hhead := (hm.heads.head x hx).1
      rw [hSi] at hhead
      have hp : p.1 ≠ key := by
        rw [Option.some.inj hhead]
        exact hne x hx
      rw [skip, if_neg hp]
  · exact hi

omit [FloatText] in
theorem Skipping.advance (h : Skipping key S₁ S) (hS₁ : ∀ i, (S₁ i).Pairwise fun a b => a.1 < b.1)
    (hmin : ∀ i, ∀ p ∈ S₁ i, key ≤ p.1) {i : Nat} {e : Entry} (hhead : (S i).head? = some (key, e)) :
    Skipping key S₁ (Function.update S i (S i).tail) := by
  intro j
  by_cases hj : j = i
  · subst hj
    rw [Function.update_self]
    obtain ⟨l, hl⟩ := List.head?_eq_some_iff.mp hhead
    rcases h j with hi | hi
    · right
      rw [← hi, hl, skip, if_pos rfl]
      rfl
    · have hmem : (key, e) ∈ skip key (S₁ j) := hi ▸ List.mem_of_head? hhead
      exact absurd rfl ((mem_skip (hS₁ j) (hmin j)).mp hmem).2
  · rw [Function.update_of_ne hj]
    exact h j

theorem skipDuplicates_eq (hS₁ : ∀ i, (S₁ i).Pairwise fun a b => a.1 < b.1)
    (hmin : ∀ i, ∀ p ∈ S₁ i, key ≤ p.1) {fuel : Nat} (h : Sound currentLen S m)
    (hpart : Skipping key S₁ S) (hfuel : m.pending ≤ fuel) :
    ∃ m', (∀ w, skipDuplicates currentLen key fuel { m with writer := w } = .ok { m' with writer := w }) ∧
      Sound currentLen (fun i => skip key (S₁ i)) m' ∧ m'.pending ≤ m.pending := by
  induction fuel generalizing S m with
  | zero =>
    have hnil : m.heap = [] := List.eq_nil_of_length_eq_zero (by
      rw [pending] at hfuel
      omega)
    have hall := hpart.eq_skip h (by simp [hnil])
    exact ⟨m, fun w => rfl, hall ▸ h, le_rfl⟩
  | succ fuel ih =>
    simp only [skipDuplicates]
    cases hpop : pop m.heap with
    | none =>
      have hall := hpart.eq_skip h (by simp [pop_eq_none.mp hpop])
      exact ⟨m, fun w => rfl, hall ▸ h, le_rfl⟩
    | some cr =>
      obtain ⟨c, rest⟩ := cr
      obtain ⟨hperm, hmax⟩ := pop_eq_some hpop
      have hc : c ∈ m.heap := hperm.symm.subset (List.mem_cons_self ..)
      have hS : ∀ i, (S i).Pairwise fun a b => a.1 < b.1 := fun i => (hS₁ i).sublist (hpart.sublist i)
      dsimp only
      by_cases hkey : c.key = key
      · subst hkey
        obtain ⟨m₁, hpush, hsound, hpending⟩ := h.advance hpop
        obtain ⟨m', hskip, hsound', hle⟩ := ih hsound
          (hpart.advance hS₁ hmin (h.heads.head c hc).1) (by omega)
        refine ⟨m', fun w => ?_, hsound', by omega⟩
        simp [hpush, hskip, bind, Except.bind]
      · have hle : key ≤ c.key := hmin _ _ ((hpart.sublist _).subset (h.heads.mem hc))
        have hall := hpart.eq_skip h fun x hx hxk => hkey (le_antisymm
          (hxk ▸ h.heads.key_le hS hmax (h.heads.mem hx)) hle)
        exact ⟨m, fun w => if_pos hkey, hall ▸ h, le_rfl⟩

end Skip

section Loop
variable {S₀ S : Nat → List (String × Entry)} {out : List (String × Entry)} {m : Merge}

abbrev emit [Xxh3] (w : StreamingWriter) (es : List (String × Entry)) : Except Fault StreamingWriter :=
  es.foldlM (fun w p => w.writeEntry p.1 p.2) w

/-- The loop hands the merge of what is left of the sources to its writer, whatever that makes of it, and
ends with an empty heap unless the writer fails. The induction is on a bound of what is pending. -/
theorem loop_emits [Xxh3] {n : Nat} (h : Sound currentLen S m) (hprog : Progress (mergePriority currentLen) S₀ S out)
    (hn : m.pending ≤ n) :
    ∃ es, (∀ fuel w, m.pending ≤ fuel →
        (loop currentLen fuel { m with writer := w }).map (fun m => (m.heap, m.writer)) =
          (emit w es).map fun w => ([], w)) ∧
      (out ++ es).Pairwise (fun a b => a.1 < b.1) ∧ Selects (mergePriority currentLen) S₀ (out ++ es) := by
  induction n generalizing S out m with
  | zero =>
    have hnil : m.heap = [] := List.eq_nil_of_length_eq_zero (by
      rw [pending] at hn
      omega)
    refine ⟨[], fun fuel w _ => ?_, ?_⟩
    · cases fuel <;> simp [loop, hnil, pop, emit, Except.map, pure, Except.pure]
    · rw [List.append_nil]
      exact ⟨hprog.out_sorted, hprog.done (h.heap_nil hnil)⟩
  | succ n ih =>
    cases hpop : pop m.heap with
    | none =>
      have hnil := pop_eq_none.mp hpop
      refine ⟨[], fun fuel w _ => ?_, ?_⟩
      · cases fuel <;> simp [loop, hnil, pop, emit, Except.map, pure, Except.pure]
      · rw [List.append_nil]
        exact ⟨hprog.out_sorted, hprog.done (h.heap_nil hnil)⟩
    | some cr =>
      obtain ⟨c, rest⟩ := cr
      obtain ⟨hperm, hmax⟩ := pop_eq_some hpop
      have hc : c ∈ m.heap := hperm.symm.subset (List.mem_cons_self ..)
      -- the top of the heap is a least key, from the source of the highest priority that has it
      have hmin : ∀ j, ∀ p ∈ S j, c.key ≤ p.1 := fun j p hp => h.heads.key_le hprog.sorted hmax hp
      have hnext := hprog.write (h.heads.mem hc) hmin fun j e' => h.heads.priority_le hprog.sorted hc hmax
      obtain ⟨m₁, hpush, hsound, hpending⟩ := h.advance hpop
      -- the other sources still have the key in front, and the inner loop passes over it
      have hpart : Skipping c.key S (Function.update S c.source (S c.source).tail) :=
        Skipping.advance (fun j => Or.inl rfl) hprog.sorted hmin (h.heads.head c hc).1
      obtain ⟨m₂, hskip, hsound₂, hle⟩ := skipDuplicates_eq hprog.sorted hmin hsound hpart le_rfl
      obtain ⟨es, hloop, hes⟩ := ih hsound₂ hnext (by omega)
      rw [List.append_assoc, List.singleton_append] at hes
      refine ⟨(c.key, c.entry) :: es, fun fuel w hfuel => ?_, hes⟩
      obtain ⟨fuel, rfl⟩ := Nat.exists_eq_add_of_lt (show 0 < fuel by omega)
      rw [Nat.zero_add, loop, hpop]
      cases hwrite : w.writeEntry c.key c.entry with
      | error e => simp [emit, hwrite, bind, Except.bind, Except.map]
      | ok w' =>
        have hrest := hloop fuel w' (by omega)
        rw [emit] at hrest
        simpa [emit, hwrite, hpush, show ({ m₁ with writer := w' } : Merge).pending = m₁.pending from rfl, hskip,
          bind, Except.bind] using hrest

structure Loading (currentLen : Nat) (S₀ : Nat → List (String × Entry)) (n : Nat) (m : Merge) : Prop where
  heads : Heads (mergePriority currentLen) (fun i => if i < n then S₀ i else []) m.heap
  reads : ∀ i r, m.readers[i]? = some r → Yields r (if i < n then (S₀ i).tail else S₀ i)

theorem Loading.step {n : Nat} (h : Loading currentLen S₀ n m) (hn : n < m.readers.length) :
    ∃ m', pushNext currentLen m n = .ok m' ∧ Loading currentLen S₀ (n + 1) m' ∧
      m'.readers.length = m.readers.length ∧ m'.writer = m.writer := by
  have hr := List.getElem?_eq_getElem hn
  have hread := h.reads n _ hr
  rw [if_neg (lt_irrefl n)] at hread
  obtain ⟨r', hr', hpush, -⟩ := pushNext_eq currentLen hr hread
  have hnone : ∀ x ∈ m.heap, x.source ≠ n := fun x hx hxn => by
    have hhead := (h.heads.head x hx).1
    rw [hxn, if_neg (lt_irrefl n)] at hhead
    cases hhead
  refine ⟨_, hpush m.writer, ⟨?_, fun i r hi => ?_⟩, List.length_set .., rfl⟩
  · have hload := h.heads.load hnone (S₀ n)
    have hupdate : Function.update (fun i => if i < n then S₀ i else []) n (S₀ n) =
        fun i => if i < n + 1 then S₀ i else [] := by
      funext i
      by_cases hin : i = n
      · rw [hin, Function.update_self, if_pos (Nat.lt_succ_self n)]
      · rw [Function.update_of_ne hin]
        exact if_congr (by omega) rfl rfl
    rwa [hupdate] at hload
  · change (m.readers.set n r')[i]? = some r at hi
    by_cases hin : i = n
    · subst hin
      rw [List.getElem?_set_self hn] at hi
      rw [if_pos (Nat.lt_succ_self i), ← Option.some.inj hi]
      exact hr'
    · rw [List.getElem?_set_ne (Ne.symm hin)] at hi
      have hcong : (if i < n + 1 then (S₀ i).tail else S₀ i) = if i < n then (S₀ i).tail else S₀ i :=
        if_congr (by omega) rfl rfl
      rw [hcong]
      exact h.reads i r hi

theorem load_prefix {readers : List SequentialReader} (hreads : ∀ i r, readers[i]? = some r → Yields r (S₀ i))
    (w : StreamingWriter) {n : Nat} (hn : n ≤ readers.length) :
    ∃ m, (List.range n).foldlM (pushNext currentLen) ⟨[], readers, w⟩ = .ok m ∧
      Loading currentLen S₀ n m ∧ m.readers.length = readers.length ∧ m.writer = w := by
  induction n with
  | zero => exact ⟨_, rfl, ⟨⟨by simp, by simp, .nil⟩, by simpa using hreads⟩, rfl, rfl⟩
  | succ n ih =>
    obtain ⟨m, hfold, hload, hlen, hw⟩ := ih (Nat.le_of_succ_le hn)
    obtain ⟨m', hpush, hload', hlen', hw'⟩ := hload.step (hlen ▸ hn)
    refine ⟨m', ?_, hload', hlen'.trans hlen, hw'.trans hw⟩
    simp [List.range_succ, hfold, hpush, bind, Except.bind, pure, Except.pure]

variable (currentLen) in
theorem load_eq {readers : List SequentialReader} (hreads : ∀ i r, readers[i]? = some r → Yields r (S₀ i))
    (hbound : ∀ i, S₀ i ≠ [] → i < readers.length) (w : StreamingWriter) :
    ∃ m, (List.range readers.length).foldlM (pushNext currentLen) ⟨[], readers, w⟩ = .ok m ∧
      Sound currentLen S₀ m ∧ m.writer = w := by
  obtain ⟨m, hfold, hload, hlen, hw⟩ := load_prefix hreads w le_rfl
  have hall : (fun i => if i < readers.length then S₀ i else []) = S₀ := by
    funext i
    split_ifs with hi
    · rfl
    · by_contra hne
      exact hi (hbound i (Ne.symm hne))
  refine ⟨m, hfold, ⟨hall ▸ hload.heads, fun i r hi => ?_, fun i hi => hlen ▸ hbound i hi⟩, hw⟩
  have hr := hload.reads i r hi
  rwa [if_pos (hlen ▸ (List.getElem?_eq_some_iff.mp hi).1)] at hr

end Loop

section Order

/-- What `write_entry` reports when a key does not come after the last one. -/
def unsorted : Fault := .io .invalidInput "SSTable entries must be sorted"

theorem record_ne_unsorted [Xxh3] (w : StreamingWriter) (key : String) (entry : Entry) :
    w.record key entry ≠ .error unsorted := by
  unfold StreamingWriter.record writeRecord checkedAdd unsorted
  intro h
  split_ifs at h <;> simp [bind, Except.bind, Fault.invalidData] at h
  split_ifs at h
  all_goals simp [pure, Except.pure] at h

theorem record_index [Xxh3] {w w' : StreamingWriter} {key : String} {entry : Entry} (h : w.record key entry = .ok w') :
    w'.index = w.index ++ [(key, w.offset)] := by
  unfold StreamingWriter.record at h
  cases hbytes : writeRecord key entry with
  | error e => simp [hbytes, bind, Except.bind] at h
  | ok bytes =>
    cases hoffset : checkedAdd w.offset bytes.length with
    | error e => simp [hbytes, hoffset, bind, Except.bind] at h
    | ok offset =>
      simp only [hbytes, hoffset, bind, Except.bind, pure, Except.pure, Except.ok.injEq] at h
      exact h ▸ rfl

theorem emit_ne_unsorted [Xxh3] {es : List (String × Entry)} (hes : es.Pairwise fun a b => a.1 < b.1)
    {w : StreamingWriter} (hw : ∀ last ∈ w.index.getLast?, ∀ p ∈ es, last.1 < p.1) :
    emit w es ≠ .error unsorted := by
  induction es generalizing w with
  | nil => simp [emit, pure, Except.pure]
  | cons p es ih =>
    obtain ⟨hp, hes⟩ := List.pairwise_cons.mp hes
    have hrecord : w.writeEntry p.1 p.2 = w.record p.1 p.2 := by
      unfold StreamingWriter.writeEntry
      split
      · next last hlast => exact if_neg (not_le.mpr (hw last hlast p (by simp)))
      · rfl
    cases hrec : w.record p.1 p.2 with
    | error e =>
      have hne := record_ne_unsorted w p.1 p.2
      simpa [emit, hrecord, hrec, bind, Except.bind] using hne
    | ok w' =>
      have hrest := ih hes (w := w') (by simpa [record_index hrec] using hp)
      simpa [emit, hrecord, hrec, bind, Except.bind] using hrest

end Order

section Family
variable {family : List (List (String × Entry))} {es : List (String × Entry)}

/-- `es` has every key of the sources once and in order, each with the entry of the source of the highest
priority that has it. -/
structure MergeOf (prio : Nat → Nat) (family : List (List (String × Entry))) (es : List (String × Entry)) :
    Prop where
  sorted : es.Pairwise fun a b => a.1 < b.1
  keys : ∀ k, (∃ e, (k, e) ∈ es) ↔ ∃ source ∈ family, ∃ e, (k, e) ∈ source
  wins : ∀ k e, (k, e) ∈ es → ∃ i source, family[i]? = some source ∧ (k, e) ∈ source ∧
    ∀ j other e', family[j]? = some other → (k, e') ∈ other → j ≠ i → prio j < prio i

omit [FloatText] in
theorem mem_getD_family {i : Nat} {p : String × Entry} :
    p ∈ family.getD i [] ↔ ∃ source, family[i]? = some source ∧ p ∈ source := by
  rw [List.getD_eq_getElem?_getD]
  cases family[i]? <;> simp

omit [FloatText] in
theorem MergeOf.of_selects {prio : Nat → Nat} (hsorted : es.Pairwise fun a b => a.1 < b.1)
    (h : Selects prio (fun i => family.getD i []) es)
    (hdistinct : ∀ i < family.length, ∀ j < family.length, prio i = prio j → i = j) :
    MergeOf prio family es := by
  refine ⟨hsorted, fun k => ⟨?_, ?_⟩, fun k e he => ?_⟩
  · rintro ⟨e, he⟩
    obtain ⟨i, hi, -⟩ := h.picks k e he
    obtain ⟨source, hsource, hmem⟩ := mem_getD_family.mp hi
    exact ⟨source, List.mem_of_getElem? hsource, e, hmem⟩
  · rintro ⟨source, hsource, e, he⟩
    obtain ⟨i, hi⟩ := List.mem_iff_getElem?.mp hsource
    exact h.covers i k e (mem_getD_family.mpr ⟨source, hi, he⟩)
  · obtain ⟨i, hi, hmax⟩ := h.picks k e he
    obtain ⟨source, hsource, hmem⟩ := mem_getD_family.mp hi
    refine ⟨i, source, hsource, hmem, fun j other e' hother he' hne => ?_⟩
    apply lt_of_le_of_ne (hmax j e' (mem_getD_family.mpr ⟨other, hother, he'⟩))
    intro heq
    have hlt := (List.getElem?_eq_some_iff.mp hsource).1
    have hlt' := (List.getElem?_eq_some_iff.mp hother).1
    exact hne (hdistinct j hlt' i hlt heq)

variable [BloomSizing]

/-- The streaming merge: whatever the sources, as long as each is in order and no two have the same
priority, the loop ends after as many rounds as there are entries. It hands the writer the merge of the
sources, and `write_entry` never finds it out of order. -/
theorem streaming_merge [Xxh3] (currentLen : Nat) {readers : List SequentialReader}
    (hreads : List.Forall₂ Yields readers family)
    (hsorted : ∀ source ∈ family, source.Pairwise fun a b => a.1 < b.1)
    (hdistinct : ∀ i < family.length, ∀ j < family.length,
      mergePriority currentLen i = mergePriority currentLen j → i = j) :
    ∃ m es, (List.range readers.length).foldlM (pushNext currentLen) ⟨[], readers, .start 1024⟩ = .ok m ∧
      MergeOf (mergePriority currentLen) family es ∧
      ∀ fuel, m.pending ≤ fuel →
        (loop currentLen fuel m).map (fun m => (m.heap, m.writer)) =
          (emit (.start 1024) es).map (fun w => ([], w)) ∧
        loop currentLen fuel m ≠ .error unsorted := by
  have hyields : ∀ i r, readers[i]? = some r → Yields r (family.getD i []) := by
    intro i r hr
    obtain ⟨hlt, rfl⟩ := List.getElem?_eq_some_iff.mp hr
    have hlt' : i < family.length := hreads.length_eq ▸ hlt
    rw [List.getD_eq_getElem?_getD, List.getElem?_eq_getElem hlt', Option.getD_some]
    exact hreads.get hlt hlt'
  have hbound : ∀ i, family.getD i [] ≠ [] → i < readers.length := by
    intro i hi
    by_contra hge
    rw [hreads.length_eq, not_lt] at hge
    simp [List.getElem?_eq_none hge] at hi
  have hS : ∀ i, (family.getD i []).Pairwise fun a b => a.1 < b.1 := by
    intro i
    rw [List.getD_eq_getElem?_getD]
    cases hi : family[i]? with
    | none => exact .nil
    | some source => exact hsorted source (List.mem_of_getElem? hi)
  obtain ⟨m, hload, hsound, hw⟩ := load_eq currentLen hyields hbound (.start 1024)
  obtain ⟨es, hloop, hes, hselects⟩ := loop_emits hsound (.start hS) le_rfl
  refine ⟨m, es, hload, .of_selects hes hselects hdistinct, fun fuel hfuel => ?_⟩
  have heq : (loop currentLen fuel m).map (fun m => (m.heap, m.writer)) =
      (emit (.start 1024) es).map (fun w => ([], w)) :=
    (hloop fuel m.writer hfuel).trans (by rw [hw])
  refine ⟨heq, fun herr => ?_⟩
  have hne : emit (.start 1024) es ≠ .error unsorted := emit_ne_unsorted hes (by simp [StreamingWriter.start])
  rw [herr] at heq
  cases hemit : emit (.start 1024) es with
  | error e =>
    rw [hemit] at heq hne
    exact hne (by simpa [Except.map, eq_comm] using heq)
  | ok w => simp [hemit, Except.map] at heq

end Family
end Merge

section Concrete
open scoped Concrete

def twoRecords [FloatText] (p q : String × Entry) : SequentialReader := ⟨recordBytes p ++ recordBytes q, 0, 2⟩

theorem twoRecords_yields [FloatText] {p q : String × Entry}
    (hp : (twoRecords p q).next = .ok (some p, ⟨recordBytes q, 1, 2⟩))
    (hq : SequentialReader.next ⟨recordBytes q, 1, 2⟩ = .ok (some q, ⟨[], 2, 2⟩)) :
    Yields (twoRecords p q) [p, q] :=
  .more hp (.more hq (.done rfl))

/-- The source of the level above deletes a key that the one below has. -/
theorem streaming_merge_overlap : ∃ m es,
    (List.range 2).foldlM (Merge.pushNext 1) ⟨[], [twoRecords ("a", .delete) ("b", .delete),
      twoRecords ("a", .set (.int 1)) ("c", .set (.int 2))], .start 1024⟩ = .ok m ∧
    Merge.MergeOf (mergePriority 1) [[("a", .delete), ("b", .delete)], [("a", .set (.int 1)), ("c", .set (.int 2))]]
      es ∧
    ∀ fuel, m.pending ≤ fuel →
      (Merge.loop 1 fuel m).map (fun m => (m.heap, m.writer)) =
        (Merge.emit (.start 1024) es).map (fun w => ([], w)) ∧
      Merge.loop 1 fuel m ≠ .error Merge.unsorted := by
  apply Merge.streaming_merge 1 _ (by decide) (by decide)
  exact .cons (twoRecords_yields rfl rfl) (.cons (twoRecords_yields rfl rfl) .nil)

end Concrete
end KvRaft
