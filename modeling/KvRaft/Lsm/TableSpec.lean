import KvRaft.Lib.Outcome
import KvRaft.Lib.SortedRun
import KvRaft.Lsm.RecordSpec
import KvRaft.Lsm.Table

/-! What the table writers write, and that the readers get it back. -/

namespace KvRaft
open Bytes LogRecord Outcome

def Entry.command (key : String) : Entry → Command
  | .set v => .set key v
  | .delete => .delete key

namespace Table

section Records
variable [FloatText]

def Fits (p : String × Entry) : Prop := (p.2.command p.1).Fits

instance (p : String × Entry) : Decidable (Fits p) := inferInstanceAs (Decidable (p.2.command p.1).Fits)

theorem Fits.key_lt {p : String × Entry} (h : Fits p) : (utf8 p.1).length < 2 ^ 32 := by
  obtain ⟨k, e⟩ := p
  cases e with
  | set v => exact h.1
  | delete => exact h.1

theorem Fits.value_lt {p : String × Entry} (h : Fits p) : (valueBytes p.2).length < 2 ^ 32 := by
  obtain ⟨k, e⟩ := p
  cases e with
  | set v => exact h.2 v rfl
  | delete => exact Nat.zero_lt_succ _

theorem writeRecord_eq {p : String × Entry} (h : Fits p) :
    writeRecord p.1 p.2 = .ok (recordBytes p) := by
  rw [writeRecord, if_neg (Nat.not_le.mpr h.key_lt), if_neg (Nat.not_le.mpr h.value_lt)]

theorem fits_of_writeRecord {p : String × Entry} {bytes : Bytes} (h : writeRecord p.1 p.2 = .ok bytes) :
    Fits p := by
  obtain ⟨k, e⟩ := p
  rw [writeRecord] at h
  split_ifs at h with hk hv
  cases e with
  | set v => exact ⟨Nat.not_le.mp hk, fun v' hv' => Option.some.inj hv' ▸ Nat.not_le.mp hv⟩
  | delete => exact ⟨Nat.not_le.mp hk, fun v' hv' => absurd hv' (Option.some_ne_none v').symm⟩

theorem readRecord_recordBytes {p : String × Entry} (h : Fits p) (rest : Bytes) :
    readRecord (recordBytes p ++ rest) = .ok (some (p, rest)) := by
  have hk := h.key_lt
  have hv := h.value_lt
  obtain ⟨k, e⟩ := p
  set header := [entryType e, valueType e] ++ (leBytes 4 (utf8 k).length ++
    leBytes 4 (valueBytes e).length) with hheader
  have hkeyLen : leNat ((header.drop 2).take 4) = (utf8 k).length := by
    rw [hheader, slice_append [entryType e, valueType e] (by simp) (leBytes_length ..), leNat_leBytes hk]
  have hvalueLen : leNat ((header.drop 6).take 4) = (valueBytes e).length := by
    rw [hheader, ← List.append_assoc, List.drop_left' (by simp), List.take_of_length_le (by simp),
      leNat_leBytes hv]
  have hread : readExact 10 (recordBytes (k, e) ++ rest) = some (header, utf8 k ++ (valueBytes e ++ rest)) := by
    rw [recordBytes, List.append_assoc, List.append_assoc (utf8 k)]
    exact readExact_append_of_length (by simp) _
  rw [readRecord, hread]
  simp only [hkeyLen, hvalueLen, bind, Except.bind, readBytes_append rfl, fromUtf8_utf8]
  cases e with
  | set v => simp [hheader, entryType, valueType, valueBytes, pure, Except.pure]
  | delete => simp [hheader, entryType, valueBytes, pure, Except.pure]

end Records
section Header

theorem writeHeader_length (h : Header) : (writeHeader h).length = headerSize := by
  simp [writeHeader, magic, headerSize]

theorem readU64_append {n : Nat} (h : n < 2 ^ 64) (rest : Bytes) :
    readU64 (leBytes 8 n ++ rest) = .ok (n, rest) := by
  rw [readU64, readBytes_append (leBytes_length 8 n)]
  change Except.ok (leNat (leBytes 8 n), rest) = _
  rw [leNat_leBytes h]

structure Header.Fits (h : Header) : Prop where
  indexOffset : h.indexOffset < 2 ^ 64
  indexLen : h.indexLen < 2 ^ 64
  entryCount : h.entryCount < 2 ^ 64
  bloomOffset : h.bloomOffset < 2 ^ 64
  bloomLen : h.bloomLen < 2 ^ 64

theorem readHeader_writeHeader {h : Header} (hf : h.Fits) (rest : Bytes) :
    readHeader (writeHeader h ++ rest) = .ok h := by
  have hbytes : writeHeader h ++ rest = magic ++ (version :: (leBytes 8 h.indexOffset ++
      (leBytes 8 h.indexLen ++ (leBytes 8 h.entryCount ++ (leBytes 8 h.bloomOffset ++
        (leBytes 8 h.bloomLen ++ rest)))))) := by
    simp only [writeHeader, List.append_assoc, List.cons_append, List.nil_append]
  rw [hbytes, readHeader, readBytes_append (by rfl)]
  simp only [bind, Except.bind, readU8, readU64_append hf.indexOffset, readU64_append hf.indexLen,
    readU64_append hf.entryCount, readU64_append hf.bloomOffset, readU64_append hf.bloomLen]
  simp [pure, Except.pure]

theorem loadBloomFilter_unfinished {file : Bytes}
    (h : file = [] ∨ ∃ rest, file = writeHeader emptyHeader ++ rest) :
    ∃ e, loadBloomFilter file = .error e := by
  rcases h with rfl | ⟨rest, rfl⟩
  · exact ⟨_, rfl⟩
  · have hfits : emptyHeader.Fits := ⟨by decide, by decide, by decide, by decide, by decide⟩
    rw [loadBloomFilter, readHeader_writeHeader hfits]
    exact ⟨_, rfl⟩

end Header

section Index

/-- The index of the records of a file from the offset `offset` on. -/
def indexFrom [FloatText] (offset : Nat) : List (String × Entry) → Index
  | [] => []
  | p :: es => (p.1, offset) :: indexFrom (offset + (recordBytes p).length) es

def indexBytes : Index → Bytes
  | [] => []
  | (key, offset) :: index =>
    leBytes 4 (utf8 key).length ++ utf8 key ++ leBytes 8 offset ++ indexBytes index

theorem writeIndex_eq {index : Index} (h : ∀ p ∈ index, (utf8 p.1).length < 2 ^ 32) :
    writeIndex index = .ok (indexBytes index) := by
  induction index with
  | nil => rfl
  | cons p index ih =>
    rw [writeIndex, if_neg (Nat.not_le.mpr (h p (List.mem_cons_self ..))),
      ih fun q hq => h q (List.mem_cons_of_mem _ hq)]
    rfl

theorem readIndexEntries_indexBytes (index : Index)
    (h : ∀ p ∈ index, (utf8 p.1).length < 2 ^ 32 ∧ p.2 < 2 ^ 64) (rest : Bytes) :
    readIndexEntries index.length (indexBytes index ++ rest) = .ok (index, rest) := by
  induction index with
  | nil => rfl
  | cons p index ih =>
    obtain ⟨hk, ho⟩ := h p (List.mem_cons_self ..)
    have ih := ih fun q hq => h q (List.mem_cons_of_mem _ hq)
    rw [List.length_cons, readIndexEntries, indexBytes]
    simp only [List.append_assoc, bind, Except.bind, readU32_append hk, readBytes_append rfl,
      fromUtf8_utf8, readU64_append ho, ih]
    rfl

theorem sorted_of_pairwise {index : Index} (h : index.Pairwise fun a b => a.1 < b.1) :
    Index.sorted index = true := by
  refine List.all_eq_true.mpr fun p hp => decide_eq_true ?_
  induction index with
  | nil => exact nomatch hp
  | cons a index ih =>
    obtain ⟨ha, hindex⟩ := List.pairwise_cons.mp h
    cases index with
    | nil => exact nomatch hp
    | cons b index =>
      rcases List.mem_cons.mp hp with rfl | hp
      · exact ha b (List.mem_cons_self ..)
      · exact ih hindex hp

theorem find_eq_lookup {index : Index} (h : index.Pairwise fun a b => a.1 < b.1) (key : String) :
    Index.find index key = index.lookup key := by
  rw [Index.find]
  set position := BinarySearch.narrow _ index.length 0 index.length with hposition
  cases hlookup : index.lookup key with
  | none =>
    split
    · next k offset hget =>
      refine if_neg fun hk => ?_
      have hmem : (key, offset) ∈ index := hk ▸ List.mem_of_getElem? hget
      rw [(Run.lookup_eq_some_iff_mem h).mpr hmem] at hlookup
      cases hlookup
    · rfl
  | some offset =>
    obtain ⟨t, ht, hget⟩ := List.mem_iff_getElem.mp ((Run.lookup_eq_some_iff_mem h).mp hlookup)
    have hcmp : ∀ i < index.length,
        compare (index.getD i default).1 key = .gt ↔ t < i := fun i hi => by
      rw [compare_gt_iff_gt, List.getD_eq_getElem?_getD, List.getElem?_eq_getElem hi, Option.getD_some]
      have hkey : index[t].1 = key := congrArg Prod.fst hget
      rw [← hkey]
      rcases lt_trichotomy t i with hlt | rfl | hlt
      · exact iff_of_true (List.pairwise_iff_getElem.mp h t i ht hi hlt) hlt
      · exact iff_of_false (lt_irrefl _) (lt_irrefl _)
      · exact iff_of_false (List.pairwise_iff_getElem.mp h i t hi ht hlt).not_gt hlt.not_gt
    have hpos : position = t := BinarySearch.narrow_eq hcmp (Nat.le_succ _) (Nat.zero_le _)
      (by omega) (by omega)
    rw [hpos, List.getElem?_eq_getElem ht, hget]
    exact if_pos rfl

end Index

section Writer
variable [FloatText] [Xxh3] [BloomSizing]

/-- The filter of a table that was started for `n` items. -/
def bloomOf (n : Nat) (es : List (String × Entry)) : BloomFilter :=
  es.foldl (fun f p => f.insert p.1) (BloomFilter.new n)

def recordsSize (es : List (String × Entry)) : Nat := (es.flatMap recordBytes).length

def tableSize (n : Nat) (es : List (String × Entry)) : Nat :=
  headerSize + recordsSize es + (bloomOf n es).toBytes.length + (indexBytes (indexFrom headerSize es)).length

def writerOf (n : Nat) (es : List (String × Entry)) : StreamingWriter :=
  ⟨writeHeader emptyHeader :: es.map recordBytes, indexFrom headerSize es, bloomOf n es,
    headerSize + recordsSize es⟩

def headerOf (n : Nat) (es : List (String × Entry)) : Header :=
  ⟨headerSize + recordsSize es + (bloomOf n es).toBytes.length, (indexBytes (indexFrom headerSize es)).length,
    es.length, headerSize + recordsSize es, (bloomOf n es).toBytes.length⟩

def contentsOf (n : Nat) (es : List (String × Entry)) : Contents :=
  ⟨(writerOf n es).file ++ [(bloomOf n es).toBytes, indexBytes (indexFrom headerSize es)], headerOf n es,
    indexFrom headerSize es⟩

def encode (n : Nat) (es : List (String × Entry)) : Bytes :=
  writeHeader (headerOf n es) ++ (es.flatMap recordBytes ++
    ((bloomOf n es).toBytes ++ indexBytes (indexFrom headerSize es)))

omit [FloatText] in
theorem bloomOf_concat (n : Nat) (es : List (String × Entry)) (p : String × Entry) :
    bloomOf n (es ++ [p]) = (bloomOf n es).insert p.1 := by
  rw [bloomOf, List.foldl_append]
  rfl

omit [FloatText] in
theorem mayContain_bloomOf (n : Nat) {es : List (String × Entry)} {p : String × Entry} (hp : p ∈ es) :
    (bloomOf n es).mayContain p.1 = true := by
  induction es using List.reverseRecOn with
  | nil => exact nomatch hp
  | append_singleton es q ih =>
    rw [bloomOf_concat]
    rcases List.mem_append.mp hp with hp | hp
    · exact BloomFilter.mayContain_insert (ih hp) _
    · obtain rfl := List.mem_singleton.mp hp
      exact BloomFilter.mayContain_insert_self ..

omit [FloatText] in
theorem bloomOf_length (n : Nat) (es : List (String × Entry)) :
    (bloomOf n es).toBytes.length = (BloomFilter.new n).toBytes.length := by
  induction es using List.reverseRecOn with
  | nil => rfl
  | append_singleton es q ih =>
    rw [← ih, bloomOf_concat]
    simp [BloomFilter.toBytes, BloomFilter.insert, BloomFilter.setBits_length]

omit [Xxh3] [BloomSizing] in
theorem recordsSize_append (es es' : List (String × Entry)) :
    recordsSize (es ++ es') = recordsSize es + recordsSize es' := by
  rw [recordsSize, List.flatMap_append, List.length_append]
  rfl

omit [Xxh3] [BloomSizing] in
theorem recordsSize_singleton (p : String × Entry) : recordsSize [p] = (recordBytes p).length := by
  rw [recordsSize, List.flatMap_singleton]

omit [Xxh3] [BloomSizing] in
theorem indexFrom_append (offset : Nat) (es es' : List (String × Entry)) :
    indexFrom offset (es ++ es') = indexFrom offset es ++ indexFrom (offset + recordsSize es) es' := by
  induction es generalizing offset with
  | nil => rfl
  | cons p es ih =>
    have hsize : recordsSize (p :: es) = (recordBytes p).length + recordsSize es := by
      rw [← List.singleton_append, recordsSize_append, recordsSize_singleton]
    rw [List.cons_append, indexFrom, indexFrom, ih, List.cons_append, hsize, Nat.add_assoc]

omit [Xxh3] [BloomSizing] in
theorem indexFrom_keys (offset : Nat) (es : List (String × Entry)) :
    (indexFrom offset es).map Prod.fst = es.map Prod.fst := by
  induction es generalizing offset with
  | nil => rfl
  | cons p es ih => rw [indexFrom, List.map_cons, List.map_cons, ih]

omit [Xxh3] [BloomSizing] in
theorem indexFrom_length (offset : Nat) (es : List (String × Entry)) :
    (indexFrom offset es).length = es.length := by
  rw [← List.length_map Prod.fst, indexFrom_keys, List.length_map]

omit [Xxh3] [BloomSizing] in
theorem indexFrom_offset_le {offset : Nat} {es : List (String × Entry)} {p : String × Nat}
    (hp : p ∈ indexFrom offset es) : p.2 ≤ offset + recordsSize es := by
  induction es generalizing offset with
  | nil => exact nomatch hp
  | cons q es ih =>
    rw [← List.singleton_append, recordsSize_append, recordsSize_singleton]
    rcases List.mem_cons.mp hp with rfl | hp
    · exact Nat.le_add_right ..
    · exact (ih hp).trans (by omega)

omit [Xxh3] [BloomSizing] in
theorem indexFrom_pairwise {es : List (String × Entry)} (hs : es.Pairwise fun a b => a.1 < b.1)
    (offset : Nat) : (indexFrom offset es).Pairwise fun a b => a.1 < b.1 :=
  List.pairwise_map.mp (indexFrom_keys offset es ▸ List.pairwise_map.mpr hs)

theorem tableSize_le_append (n : Nat) (es es' : List (String × Entry)) :
    tableSize n es ≤ tableSize n (es ++ es') := by
  have hindex : (indexBytes (indexFrom headerSize es)).length ≤
      (indexBytes (indexFrom headerSize (es ++ es'))).length := by
    rw [indexFrom_append]
    induction indexFrom headerSize es with
    | nil => exact Nat.zero_le _
    | cons p index ih => simpa [indexBytes] using ih
  rw [tableSize, tableSize, recordsSize_append, bloomOf_length, bloomOf_length]
  omega

theorem recordsSize_le_tableSize (n : Nat) (es : List (String × Entry)) :
    headerSize + recordsSize es ≤ tableSize n es := by
  rw [tableSize]
  omega

theorem record_writerOf {n : Nat} {es : List (String × Entry)} {p : String × Entry} (hp : Fits p)
    {E : Prop} (hE : 2 ^ 64 ≤ tableSize n (es ++ [p]) → E) :
    Returns ((writerOf n es).record p.1 p.2) E (· = writerOf n (es ++ [p])) := by
  have hsize : headerSize + recordsSize es + (recordBytes p).length =
      headerSize + recordsSize (es ++ [p]) := by
    rw [recordsSize_append, recordsSize_singleton, Nat.add_assoc]
  have hle := recordsSize_le_tableSize n (es ++ [p])
  by_cases hlt : headerSize + recordsSize es + (recordBytes p).length < 2 ^ 64
  · refine .of_ok (a := writerOf n (es ++ [p])) ?_ rfl
    simp only [StreamingWriter.record, writeRecord_eq hp, bind, Except.bind, checkedAdd, writerOf, hlt,
      if_true]
    rw [hsize, bloomOf_concat, indexFrom_append]
    simp [pure, Except.pure, indexFrom]
  · refine .of_error (e := .invalidData "SSTable offset overflow") ?_ (hE (by omega))
    simp only [StreamingWriter.record, writeRecord_eq hp, bind, Except.bind, checkedAdd, writerOf, hlt,
      if_false]

theorem finish_writerOf {n : Nat} {es : List (String × Entry)} (hes : ∀ p ∈ es, Fits p) {E : Prop}
    (hE : 2 ^ 64 ≤ tableSize n es → E) :
    Returns (writerOf n es).finish E fun c => c = contentsOf n es ∧ tableSize n es < 2 ^ 64 := by
  have hindex : writeIndex (indexFrom headerSize es) = .ok (indexBytes (indexFrom headerSize es)) := by
    refine writeIndex_eq fun p hp => ?_
    obtain ⟨q, hq, hqp⟩ := List.mem_map.mp (indexFrom_keys headerSize es ▸ List.mem_map_of_mem hp)
    exact hqp ▸ (hes q hq).key_lt
  have hadd : ∀ a b : Nat, a + b ≤ tableSize n es →
      Returns (checkedAdd a b) E fun c => c = a + b ∧ a + b < 2 ^ 64 := fun a b hab => by
    rw [checkedAdd]
    split_ifs with hlt
    · exact ⟨rfl, hlt⟩
    · exact hE (by omega)
  refine (hadd _ _ (by rw [tableSize]; exact Nat.le_add_right ..)).bind ?_
  rintro _ ⟨rfl, -⟩
  refine (Returns.of_ok hindex rfl).bind ?_
  rintro _ rfl
  refine (hadd _ _ (by rw [tableSize]; exact le_rfl)).bind fun _ hlast => ⟨?_, hlast.2⟩
  simp [contentsOf, writerOf, headerOf, indexFrom_length]

theorem write_returns {es : List (String × Entry)} (hes : ∀ p ∈ es, Fits p) {E : Prop}
    (hE : 2 ^ 64 ≤ tableSize es.length es → E) :
    Returns (write es) E fun c => c = contentsOf es.length es ∧ tableSize es.length es < 2 ^ 64 := by
  have hloop : Returns (es.foldlM (fun w p => w.record p.1 p.2) (StreamingWriter.start es.length)) E
      (· = writerOf es.length es) := by
    refine .foldlM (I := fun done w => w = writerOf es.length done) rfl ?_
    rintro done p rest w hsplit rfl
    have hp : p ∈ es := hsplit ▸ List.mem_append_right _ (List.mem_cons_self ..)
    refine record_writerOf (hes p hp) fun hbig => hE (hbig.trans ?_)
    have happ := tableSize_le_append es.length (done ++ [p]) rest
    rwa [List.append_assoc, List.singleton_append, ← hsplit] at happ
  exact hloop.bind fun w hw => hw ▸ finish_writerOf hes hE

theorem fits_of_write {es : List (String × Entry)} {c : Contents} (h : write es = .ok c) :
    ∀ p ∈ es, Fits p := by
  have hloop : Returns (es.foldlM (fun w p => w.record p.1 p.2) (StreamingWriter.start es.length)) True
      fun _ => ∀ p ∈ es, Fits p := by
    refine .foldlM (I := fun done _ => ∀ p ∈ done, Fits p) (fun p hp => absurd hp List.not_mem_nil) ?_
    intro done p rest w _ hdone
    have hone : Returns (writeRecord p.1 p.2) True fun _ => Fits p := by
      cases hwrite : writeRecord p.1 p.2 with
      | error e => trivial
      | ok bytes => exact fits_of_writeRecord hwrite
    rw [StreamingWriter.record]
    refine hone.bind fun bytes hp => ?_
    refine Returns.bind (Q := fun _ => True) ?_ fun offset _ q hq => ?_
    · cases checkedAdd w.offset bytes.length <;> trivial
    · rcases List.mem_append.mp hq with hq | hq
      · exact hdone q hq
      · exact List.mem_singleton.mp hq ▸ hp
  rw [write] at h
  cases hfold : es.foldlM (fun w p => w.record p.1 p.2) (StreamingWriter.start es.length) with
  | error e =>
    rw [hfold] at h
    cases h
  | ok w =>
    rw [hfold] at hloop
    exact hloop

theorem finished_eq_encode (n : Nat) (es : List (String × Entry)) :
    writeHeader (contentsOf n es).header ++
      ((contentsOf n es).file.flatten).drop (writeHeader (contentsOf n es).header).length = encode n es := by
  have hdrop : (contentsOf n es).file.flatten.drop headerSize =
      es.flatMap recordBytes ++ ((bloomOf n es).toBytes ++ indexBytes (indexFrom headerSize es)) := by
    rw [contentsOf, writerOf, List.flatten_append, List.flatten_cons, List.append_assoc,
      List.drop_left' (writeHeader_length _)]
    simp [List.flatMap]
  rw [writeHeader_length, hdrop]
  rfl

end Writer

section Reader
variable [FloatText] [Xxh3] [BloomSizing]

/-- A file with the index and the filter of a table that holds the run `r`. -/
structure Holds (file : Bytes) (index : Index) (bloom : BloomFilter) (r : Run String Entry) : Prop where
  encoded : ∃ n, file = encode n r.entries ∧ bloom = bloomOf n r.entries ∧ tableSize n r.entries < 2 ^ 64
  index_eq : index = indexFrom headerSize r.entries
  fits : ∀ p ∈ r.entries, Fits p

variable {file : Bytes} {index : Index} {bloom : BloomFilter} {r : Run String Entry}

theorem encode_length (n : Nat) (es : List (String × Entry)) :
    (encode n es).length = tableSize n es := by
  simp only [encode, tableSize, recordsSize, List.length_append, writeHeader_length]
  omega

omit [Xxh3] [BloomSizing] in
theorem length_le_recordsSize (es : List (String × Entry)) : es.length ≤ recordsSize es := by
  induction es with
  | nil => exact Nat.zero_le _
  | cons p es ih =>
    rw [← List.singleton_append, recordsSize_append, recordsSize_singleton, List.length_append]
    have : 1 ≤ (recordBytes p).length := by simp [recordBytes]
    exact Nat.add_le_add this ih

theorem headerOf_fits {n : Nat} {es : List (String × Entry)} (h : tableSize n es < 2 ^ 64) :
    (headerOf n es).Fits := by
  have hlen := length_le_recordsSize es
  rw [tableSize] at h
  constructor <;> simp only [headerOf] <;> omega

theorem readHeader_encode {n : Nat} {es : List (String × Entry)} (h : tableSize n es < 2 ^ 64) :
    readHeader (encode n es) = .ok (headerOf n es) := readHeader_writeHeader (headerOf_fits h) _

theorem Holds.loadBloomFilter (h : Holds file index bloom r) : loadBloomFilter file = .ok bloom := by
  obtain ⟨n, rfl, rfl, hsize⟩ := h.encoded
  have hoffset : (encode n r.entries).drop (headerSize + recordsSize r.entries) =
      (bloomOf n r.entries).toBytes ++ indexBytes (indexFrom headerSize r.entries) := by
    rw [encode, ← List.append_assoc]
    exact List.drop_left' (by rw [List.length_append, writeHeader_length]; rfl)
  have hlen := encode_length n r.entries
  have hpos : (bloomOf n r.entries).toBytes.length ≠ 0 := by simp [BloomFilter.toBytes]
  rw [tableSize] at hlen hsize
  rw [Table.loadBloomFilter, readHeader_encode (by rw [tableSize]; exact hsize)]
  simp only [headerOf, bind, Except.bind]
  have hend : ¬ 2 ^ 64 ≤ headerSize + recordsSize r.entries + (bloomOf n r.entries).toBytes.length := by
    omega
  have hinside : ¬ (headerSize + recordsSize r.entries < headerSize ∨ (encode n r.entries).length <
      headerSize + recordsSize r.entries + (bloomOf n r.entries).toBytes.length) := by
    omega
  simp only [hpos, hend, hinside, if_false, hoffset, readBytes_append rfl]
  exact BloomFilter.fromBytes_toBytes _

theorem validateHeader_encode {n : Nat} {es : List (String × Entry)} (h : tableSize n es < 2 ^ 64) :
    validateHeader (encode n es).length (headerOf n es) = .ok () := by
  rw [tableSize] at h
  rw [encode_length, tableSize]
  simp only [validateHeader, headerOf]
  have hend : ¬ 2 ^ 64 ≤ headerSize + recordsSize es + (bloomOf n es).toBytes.length +
      (indexBytes (indexFrom headerSize es)).length := Nat.not_le.mpr h
  have hoffset : ¬ headerSize + recordsSize es + (bloomOf n es).toBytes.length < headerSize := by omega
  simp only [hend, hoffset, lt_irrefl, if_false]

theorem Holds.loadIndex (h : Holds file index bloom r) : loadIndex file = .ok index := by
  obtain ⟨n, rfl, rfl, hsize⟩ := h.encoded
  obtain rfl := h.index_eq
  have hdrop : (encode n r.entries).drop (headerSize + recordsSize r.entries +
      (bloomOf n r.entries).toBytes.length) = indexBytes (indexFrom headerSize r.entries) := by
    rw [encode, ← List.append_assoc, ← List.append_assoc]
    exact List.drop_left' (by rw [List.length_append, List.length_append, writeHeader_length]; rfl)
  have hread : readIndexEntries r.entries.length (indexBytes (indexFrom headerSize r.entries)) =
      .ok (indexFrom headerSize r.entries, []) := by
    have hentries := readIndexEntries_indexBytes (indexFrom headerSize r.entries)
      (fun p hp => ⟨?_, ?_⟩) []
    · rwa [List.append_nil, indexFrom_length] at hentries
    · obtain ⟨q, hq, hqp⟩ := List.mem_map.mp
        (indexFrom_keys headerSize r.entries ▸ List.mem_map_of_mem hp)
      exact hqp ▸ (h.fits q hq).key_lt
    · have := indexFrom_offset_le hp
      have := recordsSize_le_tableSize n r.entries
      omega
  rw [Table.loadIndex, readHeader_encode hsize]
  simp only [bind, Except.bind, validateHeader_encode hsize]
  simp only [headerOf, readIndex, hdrop, hread, bind, Except.bind]
  rw [tableSize] at hsize
  rw [if_neg (by omega)]
  simp [sorted_of_pairwise (indexFrom_pairwise r.sorted headerSize), pure, Except.pure]

theorem Holds.openFile (h : Holds file index bloom r) :
    SequentialReader.openFile file = .ok r.entries.length := by
  obtain ⟨n, rfl, rfl, hsize⟩ := h.encoded
  rw [SequentialReader.openFile, readHeader_encode hsize]
  simp only [bind, Except.bind, validateHeader_encode hsize]
  rfl

theorem Holds.drop_header (h : Holds file index bloom r) :
    ∃ tail, file.drop headerSize = r.entries.flatMap recordBytes ++ tail := by
  obtain ⟨n, rfl, rfl, hsize⟩ := h.encoded
  exact ⟨_, List.drop_left' (writeHeader_length _)⟩

omit [Xxh3] [BloomSizing] in
theorem lookup_indexFrom (es : List (String × Entry)) (pre tail : Bytes) (k : String) :
    match es.lookup k with
    | none => (indexFrom pre.length es).lookup k = none
    | some e => ∃ offset rest, (indexFrom pre.length es).lookup k = some offset ∧
        (pre ++ (es.flatMap recordBytes ++ tail)).drop offset = recordBytes (k, e) ++ rest := by
  induction es generalizing pre with
  | nil => rfl
  | cons p es ih =>
    rw [indexFrom, List.lookup_cons, List.lookup_cons]
    by_cases hk : k = p.1
    · subst hk
      simp only [beq_self_eq_true]
      refine ⟨pre.length, es.flatMap recordBytes ++ tail, rfl, ?_⟩
      rw [List.drop_left' rfl, List.flatMap_cons, List.append_assoc]
    · simp only [beq_eq_false_iff_ne.mpr hk]
      have ih := ih (pre ++ recordBytes p)
      rw [List.length_append] at ih
      rwa [List.flatMap_cons, List.append_assoc, ← List.append_assoc pre]

theorem Holds.readEntry (h : Holds file index bloom r) (k : String) :
    readEntry file index k = .ok (r.lookup k) := by
  obtain ⟨n, rfl, rfl, hsize⟩ := h.encoded
  obtain rfl := h.index_eq
  have hlookup := lookup_indexFrom r.entries (writeHeader (headerOf n r.entries))
    ((bloomOf n r.entries).toBytes ++ indexBytes (indexFrom headerSize r.entries)) k
  rw [writeHeader_length] at hlookup
  rw [Table.readEntry, find_eq_lookup (indexFrom_pairwise r.sorted headerSize), Run.lookup]
  cases he : r.entries.lookup k with
  | none =>
    rw [he] at hlookup
    simp only [hlookup]
  | some e =>
    rw [he] at hlookup
    obtain ⟨offset, rest, ho, hdrop⟩ := hlookup
    have hfits := h.fits (k, e) (r.lookup_eq_some.mp he)
    simp only [ho, encode, hdrop, readRecord_recordBytes hfits, bind, Except.bind]
    rfl

theorem Holds.mayContain (h : Holds file index bloom r) {k : String}
    (hk : bloom.mayContain k = false) : r.lookup k = none := by
  obtain ⟨n, rfl, rfl, hsize⟩ := h.encoded
  cases he : r.lookup k with
  | none => rfl
  | some e =>
    have hmem := r.lookup_eq_some.mp he
    rw [mayContain_bloomOf n hmem] at hk
    cases hk

end Reader
end Table
end KvRaft
