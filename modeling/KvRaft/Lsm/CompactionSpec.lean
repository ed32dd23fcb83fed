import KvRaft.Lsm.MergeLoop
import KvRaft.Lsm.TableSpec

/-! The merge of a compaction writes, for every key, the entry of the newest input that has it. -/

namespace KvRaft
open Outcome Table KWayMerge

section Reader
variable [FloatText]

/-- The reader is ahead of the records `es`, the last ones of its file. -/
structure Reads (r : SequentialReader) (es : List (String × Entry)) : Prop where
  file : ∃ tail, r.file = es.flatMap recordBytes ++ tail
  count : r.entryCount - r.entriesRead = es.length
  fits : ∀ p ∈ es, Fits p

theorem Reads.next_nil {r : SequentialReader} (h : Reads r []) : r.next = .ok (none, r) := by
  rw [SequentialReader.next, if_pos (Nat.sub_eq_zero_iff_le.mp h.count)]

theorem Reads.next_cons {r : SequentialReader} {p : String × Entry} {es : List (String × Entry)}
    (h : Reads r (p :: es)) : ∃ r', r.next = .ok (some p, r') ∧ Reads r' es := by
  obtain ⟨tail, hfile⟩ := h.file
  have hcount := h.count
  rw [List.length_cons] at hcount
  rw [List.flatMap_cons, List.append_assoc] at hfile
  refine ⟨{ r with file := es.flatMap recordBytes ++ tail, entriesRead := r.entriesRead + 1 }, ?_,
    ⟨tail, rfl⟩, ?_, fun q hq => h.fits q (List.mem_cons_of_mem _ hq)⟩
  · rw [SequentialReader.next, if_neg (by omega), hfile,
      readRecord_recordBytes (h.fits p (List.mem_cons_self ..))]
    rfl
  · change r.entryCount - (r.entriesRead + 1) = es.length
    omega

theorem Reads.yields {r : SequentialReader} {es : List (String × Entry)} (h : Reads r es) : Yields r es := by
  induction es generalizing r with
  | nil => exact .done h.next_nil
  | cons p es ih =>
    obtain ⟨r', hnext, hr'⟩ := h.next_cons
    exact .more hnext (ih hr')

end Reader

namespace Merge
variable {currentLen : Nat}

section Loop
variable {S₀ S : Nat → List (String × Entry)} {out : List (String × Entry)} {m : Merge} {E : Prop}

theorem writeEntry_returns [FloatText] [Xxh3] [BloomSizing] {n : Nat} {p : String × Entry} (hp : Fits p)
    (hlast : ∀ q ∈ out, q.1 < p.1) (hE : 2 ^ 64 ≤ tableSize n (out ++ [p]) → E) :
    Returns ((writerOf n out).writeEntry p.1 p.2) E (· = writerOf n (out ++ [p])) := by
  rw [StreamingWriter.writeEntry]
  split
  · next last hget =>
    have hmem : last.1 ∈ out.map Prod.fst :=
      indexFrom_keys headerSize out ▸ List.mem_map_of_mem (List.mem_of_getLast? hget)
    obtain ⟨q, hq, hql⟩ := List.mem_map.mp hmem
    rw [if_neg (not_le.mpr (hql ▸ hlast q hq))]
    exact record_writerOf hp hE
  · exact record_writerOf hp hE

theorem emit_returns [FloatText] [Xxh3] [BloomSizing] {es : List (String × Entry)}
    (hes : es.Pairwise fun a b => a.1 < b.1) (hfits : ∀ p ∈ es, Fits p) (hE : 2 ^ 64 ≤ tableSize 1024 es → E) :
    Returns (emit (.start 1024) es) E (· = writerOf 1024 es) := by
  refine .foldlM (I := fun done w => w = writerOf 1024 done) rfl ?_
  rintro done p rest w hsplit rfl
  have hp : p ∈ es := hsplit ▸ List.mem_append_right _ (List.mem_cons_self ..)
  have hlast : ∀ q ∈ done, q.1 < p.1 := fun q hq => by
    rw [hsplit] at hes
    exact (List.pairwise_append.mp hes).2.2 q hq p (List.mem_cons_self ..)
  refine writeEntry_returns (hfits p hp) hlast fun hbig => hE (hbig.trans ?_)
  have happ := tableSize_le_append 1024 (done ++ [p]) rest
  rwa [List.append_assoc, List.singleton_append, ← hsplit] at happ

theorem run_returns [FloatText] [Xxh3] [BloomSizing] {readers : List SequentialReader}
    (hS₀ : ∀ i, (S₀ i).Pairwise fun a b => a.1 < b.1)
    (hreads : ∀ i r, readers[i]? = some r → Reads r (S₀ i)) (hbound : ∀ i, S₀ i ≠ [] → i < readers.length)
    (hE : ∀ es : List (String × Entry), es.Pairwise (fun a b => a.1 < b.1) →
      (∀ p ∈ es, ∃ i, p ∈ S₀ i) → 2 ^ 64 ≤ tableSize 1024 es → E) :
    Returns (run currentLen readers) E fun c => ∃ r : Run String Entry, c = contentsOf 1024 r.entries ∧
      tableSize 1024 r.entries < 2 ^ 64 ∧ (∀ p ∈ r.entries, Fits p) ∧
      Selects (mergePriority currentLen) S₀ r.entries := by
  have hfits : ∀ i, ∀ p ∈ S₀ i, Fits p := fun i p hp =>
    (hreads i _ (List.getElem?_eq_getElem (hbound i (List.ne_nil_of_mem hp)))).fits p hp
  obtain ⟨m, hload, hsound, hw⟩ :=
    load_eq currentLen (fun i r hr => (hreads i r hr).yields) hbound (.start 1024)
  obtain ⟨es, hloop, hsorted, hselects⟩ := loop_emits hsound (.start hS₀) le_rfl
  rw [List.nil_append] at hsorted hselects
  have hsource : ∀ p ∈ es, ∃ i, p ∈ S₀ i := fun p hp => by
    obtain ⟨i, hi, -⟩ := hselects.picks p.1 p.2 hp
    exact ⟨i, hi⟩
  have hes : ∀ p ∈ es, Fits p := fun p hp => by
    obtain ⟨i, hi⟩ := hsource p hp
    exact hfits i p hi
  refine (Returns.of_ok hload rfl).bind ?_
  rintro _ rfl
  -- the loop ends as a writer does that is given the merge
  have hwrites := emit_returns hsorted hes (hE es hsorted hsource)
  have hends := Returns.of_map_eq (hloop m.pending m.writer le_rfl) (hw.symm ▸ hwrites)
  refine hends.bind ?_
  rintro m' ⟨_, heq, rfl⟩
  rw [(Prod.mk.inj heq).2]
  exact (finish_writerOf hes (hE es hsorted hsource)).mono fun c ⟨hc, hsize⟩ =>
    ⟨⟨es, hsorted⟩, hc, hsize, hes, hselects⟩

end Loop

section Inputs
variable {current next : List (Run String Entry)}

def sources (runs : List (Run String Entry)) (i : Nat) : List (String × Entry) :=
  match runs[i]? with
  | some r => r.entries
  | none => []

theorem sources_sorted (runs : List (Run String Entry)) (i : Nat) :
    (sources runs i).Pairwise fun a b => a.1 < b.1 := by
  unfold sources
  split
  · next r _ => exact r.sorted
  · exact .nil

theorem lt_of_sources_ne {runs : List (Run String Entry)} {i : Nat} (h : sources runs i ≠ []) :
    i < runs.length := by
  by_contra hi
  rw [sources, List.getElem?_eq_none (Nat.not_lt.mp hi)] at h
  exact h rfl

theorem mem_sources {runs : List (Run String Entry)} {i : Nat} {k : String} {e : Entry} :
    (k, e) ∈ sources runs i ↔ ∃ r, runs[i]? = some r ∧ r.lookup k = some e := by
  unfold sources
  split
  · next r hr => simp only [hr, Option.some.injEq, exists_eq_left', Run.lookup_eq_some]
  · next hr => simp [hr]

/-- The newest entry of a key above has been overtaken by the newest one below. -/
def Outranked (current next : List (Run String Entry)) (k : String) : Prop :=
  ∃ i e j e', Run.newest current k = some (i, e) ∧ Run.newest next k = some (j, e') ∧
    i + current.length < j ∧ e ≠ e'

def Tied (current next : List (Run String Entry)) (k : String) : Prop :=
  ∃ i e j e', Run.newest current k = some (i, e) ∧ Run.newest next k = some (j, e') ∧
    i + current.length = j ∧ e ≠ e'

/-- What a merge picks is the newest entry above or the newest one below. -/
theorem picks_newest {k : String} {e : Entry}
    (h : Picks (mergePriority current.length) (sources (current ++ next)) k e) :
    (∃ i, Run.newest current k = some (i, e) ∧
      ∀ j e', Run.newest next k = some (j, e') → j ≤ i + current.length) ∨
    ∃ j, Run.newest next k = some (j, e) ∧
      ∀ i e', Run.newest current k = some (i, e') → i + current.length ≤ j := by
  obtain ⟨s, hs, hmax⟩ := h
  -- the source that is picked has a priority no lower than the newest one of either level
  have habove : ∀ i e', Run.newest current k = some (i, e') →
      i + current.length ≤ mergePriority current.length s := by
    intro i e' hn
    obtain ⟨r, hr, he⟩ := Run.newest_get hn
    have hlt := (List.getElem?_eq_some_iff.mp hr).1
    have hle := hmax i e' (mem_sources.mpr ⟨r, by rw [List.getElem?_append_left hlt, hr], he⟩)
    rwa [mergePriority, if_pos hlt] at hle
  have hbelow : ∀ j e', Run.newest next k = some (j, e') → j ≤ mergePriority current.length s := by
    intro j e' hn
    obtain ⟨r, hr, he⟩ := Run.newest_get hn
    have hle := hmax (current.length + j) e' (mem_sources.mpr ⟨r, by
      rw [List.getElem?_append_right (Nat.le_add_right ..), Nat.add_sub_cancel_left, hr], he⟩)
    rwa [mergePriority, if_neg (by omega), Nat.add_sub_cancel_left] at hle
  obtain ⟨r, hr, he⟩ := mem_sources.mp hs
  by_cases hlt : s < current.length
  · left
    rw [List.getElem?_append_left hlt] at hr
    obtain ⟨i, e', hn, hle⟩ := Run.exists_newest hr he
    have hi := habove i e' hn
    rw [mergePriority, if_pos hlt] at hi hbelow
    obtain rfl : i = s := by omega
    obtain ⟨r', hr', he'⟩ := Run.newest_get hn
    rw [hr] at hr'
    obtain rfl := Option.some.inj hr'
    rw [he] at he'
    obtain rfl := Option.some.inj he'
    exact ⟨i, hn, hbelow⟩
  · right
    rw [List.getElem?_append_right (not_lt.mp hlt)] at hr
    obtain ⟨j, e', hn, hle⟩ := Run.exists_newest hr he
    have hj := hbelow j e' hn
    rw [mergePriority, if_neg hlt] at hj habove
    obtain rfl : j = s - current.length := by omega
    obtain ⟨r', hr', he'⟩ := Run.newest_get hn
    rw [hr] at hr'
    obtain rfl := Option.some.inj hr'
    rw [he] at he'
    obtain rfl := Option.some.inj he'
    exact ⟨_, hn, habove⟩

section Selects
variable {r : Run String Entry} (h : Selects (mergePriority current.length) (sources (current ++ next)) r.entries)
include h

/-- The merge keeps what a reader would find, unless the tables below have caught up. -/
theorem lookup_of_not_outranked {k : String} (hout : ¬ Outranked current next k)
    (htied : ¬ Tied current next k) : r.lookup k = Run.view (current.reverse ++ next.reverse) k := by
  rw [Run.view_append, Run.view_reverse, Run.view_reverse]
  cases hr : r.lookup k with
  | some e =>
    rcases picks_newest (h.picks k e (r.lookup_eq_some.mp hr)) with ⟨i, hn, -⟩ | ⟨j, hn, hle⟩
    · rw [hn]
      rfl
    · cases hc : Run.newest current k with
      | none =>
        rw [hn]
        rfl
      | some p =>
        obtain ⟨i, e'⟩ := p
        -- a table below that does not rank lower can only repeat the entry
        have he : e' = e := by
          by_contra hne
          rcases (hle i e' hc).lt_or_eq with hlt | heq
          · exact hout ⟨i, e', j, e, hc, hn, hlt, hne⟩
          · exact htied ⟨i, e', j, e, hc, hn, heq, hne⟩
        rw [he]
        rfl
  | none =>
    -- every key of a source is in the merge
    have hnone : ∀ s e, (k, e) ∉ sources (current ++ next) s := fun s e hs => by
      obtain ⟨e', he'⟩ := h.covers s k e hs
      rw [r.lookup_eq_some.mpr he'] at hr
      cases hr
    have hcurrent : Run.newest current k = none := by
      rw [Option.eq_none_iff_forall_not_mem]
      rintro ⟨i, e⟩ hn
      obtain ⟨q, hq, he⟩ := Run.newest_get hn
      exact hnone i e (mem_sources.mpr ⟨q, by
        rw [List.getElem?_append_left (List.getElem?_eq_some_iff.mp hq).1, hq], he⟩)
    have hnext : Run.newest next k = none := by
      rw [Option.eq_none_iff_forall_not_mem]
      rintro ⟨j, e⟩ hn
      obtain ⟨q, hq, he⟩ := Run.newest_get hn
      exact hnone (current.length + j) e (mem_sources.mpr ⟨q, by
        rw [List.getElem?_append_right (Nat.le_add_right ..), Nat.add_sub_cancel_left, hq], he⟩)
    rw [hcurrent, hnext]
    rfl

theorem not_outranked_of_lookup {k : String}
    (hk : r.lookup k = Run.view (current.reverse ++ next.reverse) k) : ¬ Outranked current next k := by
  rintro ⟨i, e, j, e', hc, hn, hlt, hne⟩
  rw [Run.view_append, Run.view_reverse, hc] at hk
  have hmem := r.lookup_eq_some.mp (show r.lookup k = some e from hk)
  rcases picks_newest (h.picks k e hmem) with ⟨i', hc', hle⟩ | ⟨j', hn', -⟩
  · rw [hc] at hc'
    obtain ⟨rfl, -⟩ := Prod.mk.inj (Option.some.inj hc')
    have := hle j e' hn
    omega
  · rw [hn] at hn'
    obtain ⟨-, rfl⟩ := Prod.mk.inj (Option.some.inj hn')
    exact hne rfl

theorem lookup_of_single (hnext : next.length ≤ 1) (k : String) :
    r.lookup k = Run.view (current.reverse ++ next.reverse) k := by
  have hlate : ∀ {i e j e'}, Run.newest current k = some (i, e) → Run.newest next k = some (j, e') →
      j < i + current.length := by
    intro i e j e' hc hn
    obtain ⟨q, hq, -⟩ := Run.newest_get hc
    obtain ⟨q', hq', -⟩ := Run.newest_get hn
    have hi := (List.getElem?_eq_some_iff.mp hq).1
    have hj := (List.getElem?_eq_some_iff.mp hq').1
    omega
  apply lookup_of_not_outranked h
  · rintro ⟨i, e, j, e', hc, hn, hlt, -⟩
    have := hlate hc hn
    omega
  · rintro ⟨i, e, j, e', hc, hn, heq, -⟩
    have := hlate hc hn
    omega

end Selects
end Inputs
end Merge
end KvRaft
