import KvRaft.Lsm.RecordSpec

/-! Bloom filters (`lsm/sstable/bloom.rs`). -/

namespace KvRaft
open Bytes

/-- `xxhash_rust::xxh3::xxh3_128`. -/
class Xxh3 where
  hash128 : Bytes → BitVec 128

/-- The floating-point sizes of a filter for `n ≥ 1` items at the rate 0.01, before the lower bounds
`max(8.0)` and `max(1)` are applied. -/
class BloomSizing where
  /-- `(-n * p.ln()) / 2.0_f64.ln().powi(2)`, rounded up; the cast to `usize` saturates. -/
  bits : Nat → Nat
  /-- `(num_bits as f64 / n) * 2.0_f64.ln()`, rounded. -/
  hashes : Nat → Nat → Nat
  bits_lt : ∀ n, bits n < 2 ^ 64
  hashes_le : ∀ n, 1 ≤ n → hashes (max 8 (bits n)) n ≤ 100

structure BloomFilter where
  bits : Bytes
  numBits : Nat
  numHashes : Nat
  length_eq : bits.length = (numBits + 7) / 8
  numBits_pos : 0 < numBits
  numBits_lt : numBits < 2 ^ 64
  numHashes_pos : 0 < numHashes
  numHashes_le : numHashes ≤ 100

namespace BloomFilter

def headerSize : Nat := 25

/-- `HASH_ALGORITHM_XXH3_128`. -/
def algorithm : UInt8 := 1

def new [BloomSizing] (expectedItems : Nat) : BloomFilter where
  bits := List.replicate ((max 8 (BloomSizing.bits (max expectedItems 1)) + 7) / 8) 0
  numBits := max 8 (BloomSizing.bits (max expectedItems 1))
  numHashes := max (BloomSizing.hashes (max 8 (BloomSizing.bits (max expectedItems 1)))
    (max expectedItems 1)) 1
  length_eq := List.length_replicate
  numBits_pos := by omega
  numBits_lt := by have := BloomSizing.bits_lt (max expectedItems 1); omega
  numHashes_pos := by omega
  numHashes_le := by have := BloomSizing.hashes_le (max expectedItems 1) (by omega); omega

variable [Xxh3]

def hashPair (key : String) : UInt64 × UInt64 :=
  let hash := (Xxh3.hash128 (utf8 key)).toNat
  (UInt64.ofNat hash, UInt64.ofNat (hash >>> 64) ||| 1)

def bitOf (numBits : Nat) (key : String) (i : Nat) : Nat :=
  let (h1, h2) := hashPair key
  (h1 + UInt64.ofNat i * h2).toNat % numBits

/-- `1 << (bit % 8)`. -/
def mask (bit : Nat) : UInt8 := 1 <<< UInt8.ofNat (bit % 8)

def setBit (bits : Bytes) (bit : Nat) : Bytes := bits.modify (bit / 8) (· ||| mask bit)

def testBit (bits : Bytes) (bit : Nat) : Bool := bits.getD (bit / 8) 0 &&& mask bit ≠ 0

def setBits (numBits numHashes : Nat) (bits : Bytes) (key : String) : Bytes :=
  (List.range numHashes).foldl (fun bits i => setBit bits (bitOf numBits key i)) bits

theorem setBits_length (numBits numHashes : Nat) (bits : Bytes) (key : String) :
    (setBits numBits numHashes bits key).length = bits.length := by
  unfold setBits
  induction List.range numHashes generalizing bits with
  | nil => rfl
  | cons i is ih => rw [List.foldl_cons, ih, setBit, List.length_modify]

def insert (f : BloomFilter) (key : String) : BloomFilter :=
  { f with
    bits := setBits f.numBits f.numHashes f.bits key
    length_eq := (setBits_length ..).trans f.length_eq }

def mayContain (f : BloomFilter) (key : String) : Bool :=
  (List.range f.numHashes).all fun i => testBit f.bits (bitOf f.numBits key i)

omit [Xxh3] in
def toBytes (f : BloomFilter) : Bytes :=
  [algorithm] ++ leBytes 8 f.numBits ++ leBytes 8 f.numHashes ++ leBytes 8 f.bits.length ++ f.bits

omit [Xxh3] in
/-- The sum `HEADER_SIZE + bits_len` cannot overflow once `bits_len` is the byte count of a `u64`
number of bits. -/
def fromBytes (bytes : Bytes) : Except Fault BloomFilter :=
  if bytes.length < headerSize then .error (.invalidData "truncated Bloom filter header")
  else if bytes.head? ≠ some algorithm then
    .error (.invalidData "unsupported Bloom filter hash algorithm")
  else
    let numBits := leNat ((bytes.drop 1).take 8)
    let numHashes := leNat ((bytes.drop 9).take 8)
    let bitsLen := leNat ((bytes.drop 17).take 8)
    if hzero : numBits = 0 ∨ numHashes = 0 then
      .error (.invalidData "Bloom filter dimensions must be nonzero")
    else if hmany : 100 < numHashes then
      .error (.invalidData "Bloom filter hash count exceeds limit")
    else if hcount : bitsLen ≠ (numBits + 7) / 8 then
      .error (.invalidData "Bloom filter bit and byte counts disagree")
    else if hlen : bytes.length ≠ headerSize + bitsLen then
      .error (.invalidData "Bloom filter payload length mismatch")
    else .ok
      { bits := bytes.drop headerSize
        numBits := numBits
        numHashes := numHashes
        length_eq := by
          rw [List.length_drop, not_not.mp hlen, ← not_not.mp hcount]
          exact Nat.add_sub_cancel_left ..
        numBits_pos := Nat.pos_of_ne_zero fun h => hzero (Or.inl h)
        numBits_lt := by
          have hlt := leNat_lt ((bytes.drop 1).take 8)
          exact hlt.trans_le (Nat.pow_le_pow_right (by decide) (List.length_take_le 8 _))
        numHashes_pos := Nat.pos_of_ne_zero fun h => hzero (Or.inr h)
        numHashes_le := Nat.not_lt.mp hmany }

/-! What is inserted is contained, and stays so. -/

omit [Xxh3] in
theorem testBit_setBit (bits : Bytes) {bit : Nat} (h : bit / 8 < bits.length) :
    testBit (setBit bits bit) bit = true := by
  have hmask : ∀ x : UInt8, (x ||| mask bit) &&& mask bit = mask bit := fun x => by
    rw [UInt8.and_comm, UInt8.or_comm]
    apply UInt8.toBitVec_inj.mp
    ext i hi
    simp
    intro h
    simp [h]
  have hne : mask bit ≠ 0 := by
    have hcases : ∀ j : Fin 8, (1 : UInt8) <<< UInt8.ofNat j.val ≠ 0 := by decide
    exact hcases ⟨bit % 8, Nat.mod_lt _ (by decide)⟩
  rw [testBit, setBit, List.getD_eq_getElem?_getD, List.getElem?_modify,
    List.getElem?_eq_getElem h, Option.map_eq_map, Option.map_some, Option.getD_some, if_pos rfl, hmask]
  exact decide_eq_true hne

omit [Xxh3] in
theorem testBit_setBit_of_testBit {bits : Bytes} {bit : Nat} (h : testBit bits bit = true) (bit' : Nat) :
    testBit (setBit bits bit') bit = true := by
  have hkeep : ∀ x m m' : UInt8, x &&& m ≠ 0 → (x ||| m') &&& m ≠ 0 := fun x m m' hx hzero => by
    apply hx
    have hor : (x ||| m') &&& m = (x &&& m) ||| (m' &&& m) := by
      apply UInt8.toBitVec_inj.mp
      ext i hi
      simp [Bool.and_or_distrib_right]
    exact (UInt8.or_eq_zero_iff.mp (hor ▸ hzero)).1
  have hne := of_decide_eq_true h
  rw [testBit, setBit, List.getD_eq_getElem?_getD, List.getElem?_modify]
  rw [List.getD_eq_getElem?_getD] at hne
  refine decide_eq_true ?_
  cases hb : bits[bit / 8]? with
  | none =>
    rw [hb] at hne
    simp at hne
  | some x =>
    rw [hb, Option.getD_some] at hne
    rw [Option.map_eq_map, Option.map_some, Option.getD_some]
    split_ifs
    · exact hkeep x _ _ hne
    · exact hne

theorem testBit_setBits_of_testBit {bits : Bytes} {bit : Nat} (h : testBit bits bit = true)
    (numBits numHashes : Nat) (key : String) :
    testBit (setBits numBits numHashes bits key) bit = true := by
  unfold setBits
  induction List.range numHashes generalizing bits with
  | nil => exact h
  | cons i is ih => exact ih (testBit_setBit_of_testBit h _)

theorem mayContain_insert_self (f : BloomFilter) (key : String) :
    (f.insert key).mayContain key = true := by
  refine List.all_eq_true.mpr fun i hi => ?_
  have hbit : bitOf f.numBits key i / 8 < f.bits.length := by
    have hlt : bitOf f.numBits key i < f.numBits := Nat.mod_lt _ f.numBits_pos
    rw [f.length_eq]
    omega
  change testBit (setBits f.numBits f.numHashes f.bits key) (bitOf f.numBits key i) = true
  change i ∈ List.range f.numHashes at hi
  unfold setBits
  generalize f.bits = bits at hbit
  revert hi
  induction List.range f.numHashes generalizing bits with
  | nil => exact fun hi => nomatch hi
  | cons j js ih =>
    intro hi
    have hlen : (setBit bits (bitOf f.numBits key j)).length = bits.length := List.length_modify ..
    rcases List.mem_cons.mp hi with rfl | hi
    · -- the bit is set now and no later round clears it
      have hset := testBit_setBit bits hbit
      rw [List.foldl_cons]
      generalize setBit bits (bitOf f.numBits key i) = bits' at hset
      clear ih hlen hi
      induction js generalizing bits' with
      | nil => exact hset
      | cons j js ih => exact ih _ (testBit_setBit_of_testBit hset _)
    · exact ih _ (hlen ▸ hbit) hi

theorem mayContain_insert {f : BloomFilter} {key : String} (h : f.mayContain key = true) (key' : String) :
    (f.insert key').mayContain key = true := by
  rw [mayContain, List.all_eq_true] at h ⊢
  exact fun i hi => testBit_setBits_of_testBit (h i hi) _ _ _

omit [Xxh3] in
@[simp] theorem fromBytes_toBytes (f : BloomFilter) : fromBytes f.toBytes = .ok f := by
  have hbits : f.bits.length < 256 ^ 8 := by
    have := f.numBits_lt
    have := f.length_eq
    omega
  have hbytes : f.toBytes = [algorithm] ++ (leBytes 8 f.numBits ++ (leBytes 8 f.numHashes ++
      (leBytes 8 f.bits.length ++ f.bits))) := by
    simp only [toBytes, List.append_assoc]
  have hnum : leNat ((f.toBytes.drop 1).take 8) = f.numBits := by
    rw [hbytes, slice_append [algorithm] (List.length_singleton ..) (leBytes_length ..),
      leNat_leBytes (by have := f.numBits_lt; omega)]
  have hhash : leNat ((f.toBytes.drop 9).take 8) = f.numHashes := by
    rw [hbytes, ← List.append_assoc, slice_append ([algorithm] ++ leBytes 8 f.numBits)
      (by simp) (leBytes_length ..), leNat_leBytes (by have := f.numHashes_le; omega)]
  have hcount : leNat ((f.toBytes.drop 17).take 8) = f.bits.length := by
    rw [hbytes, ← List.append_assoc, ← List.append_assoc, slice_append
      ([algorithm] ++ leBytes 8 f.numBits ++ leBytes 8 f.numHashes) (by simp) (leBytes_length ..),
      leNat_leBytes hbits]
  have hlen : f.toBytes.length = headerSize + f.bits.length := by
    simp [toBytes, headerSize]
    omega
  have hdrop : f.toBytes.drop headerSize = f.bits := List.drop_left' (by simp [headerSize])
  unfold fromBytes
  rw [if_neg (by omega), if_neg (by simp [toBytes])]
  simp only [hnum, hhash, hcount]
  rw [dif_neg (by have := f.numBits_pos; have := f.numHashes_pos; omega),
    dif_neg (Nat.not_lt.mpr f.numHashes_le), dif_neg (not_not.mpr f.length_eq),
    dif_neg (not_not.mpr hlen)]
  simp only [hdrop]

end BloomFilter

/-- The last mixing step of XXH64. -/
def Xxh3.avalanche (h : UInt64) : UInt64 :=
  let h := (h ^^^ (h >>> 33)) * 0xC2B2AE3D27D4EB4F
  let h := (h ^^^ (h >>> 29)) * 0x165667B19E3779F9
  h ^^^ (h >>> 32)

/-- XXH3-128 of one to three bytes; other strings are not hashed. -/
@[reducible] def Xxh3.short : Xxh3 where
  hash128 bs := match bs with
    | [] => 0
    | c :: _ =>
      if 3 < bs.length then 0
      else
        let b1 := UInt32.ofNat c.toNat
        let b2 := UInt32.ofNat (bs.getD (bs.length / 2) 0).toNat
        let b3 := UInt32.ofNat (bs.getD (bs.length - 1) 0).toNat
        let lo : UInt32 := (b1 <<< 16) ||| (b2 <<< 24) ||| b3 ||| (UInt32.ofNat bs.length <<< 8)
        let swapped : UInt32 :=
          (lo >>> 24) ||| ((lo >>> 8) &&& (0xFF00 : UInt32)) ||| ((lo <<< 8) &&& (0xFF0000 : UInt32)) ||| (lo <<< 24)
        let hi : UInt32 := (swapped <<< 13) ||| (swapped >>> 19)
        (avalanche (UInt64.ofNat (hi ^^^ 0x302C208B).toNat)).toBitVec ++
          (avalanche (UInt64.ofNat (lo ^^^ 0x87275A9B).toNat)).toBitVec

/-- The sizes of a filter with one false positive in a hundred: 9.585 bits for each item, and seven
hashes. -/
@[reducible] def BloomSizing.onePercent : BloomSizing where
  bits n := min (2 ^ 64 - 1) ((n * 9585058377367439 + 999999999999999) / 10 ^ 15)
  hashes _ _ := 7
  bits_lt n := by omega
  hashes_le n _ := by decide

/-! One choice of everything the model leaves open. -/

namespace Concrete

scoped instance floatText : FloatText := .ofBits

scoped instance xxh3 : Xxh3 := .short

scoped instance bloomSizing : BloomSizing := .onePercent

end Concrete
end KvRaft
