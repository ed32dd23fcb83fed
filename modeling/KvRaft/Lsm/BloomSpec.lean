import KvRaft.Lsm.Bloom

/-! Bloom filters over whole sequences of insertions and through their byte form: nothing that was
inserted is ever missed, and the bytes and the filter determine each other. -/

namespace KvRaft.BloomFilter
open Bytes

/-- A filter as `may_contain` sees it: three fields that nothing ties together. -/
structure Raw where
  bits : Bytes
  numBits : Nat
  numHashes : Nat
  deriving DecidableEq, Repr

def raw (f : BloomFilter) : Raw := ⟨f.bits, f.numBits, f.numHashes⟩

section Bounds
variable [Xxh3]

/-- The loop of `may_contain` over the hashes still to be looked at. The remainder and the index are
its two panics. -/
def Raw.probe (f : Raw) (key : String) : List Nat → Except Fault Bool
  | [] => .ok true
  | i :: is =>
    if f.numBits = 0 then
      .error (.panic "attempt to calculate the remainder with a divisor of zero")
    else match f.bits[bitOf f.numBits key i / 8]? with
      | none => .error (.panic "index out of bounds")
      | some byte =>
        if byte &&& mask (bitOf f.numBits key i) = 0 then .ok false else f.probe key is

def Raw.mayContain (f : Raw) (key : String) : Except Fault Bool :=
  f.probe key (List.range f.numHashes)

theorem bitOf_div_lt (f : BloomFilter) (key : String) (i : Nat) :
    bitOf f.numBits key i / 8 < f.bits.length := by
  have hlt : bitOf f.numBits key i < f.numBits := Nat.mod_lt _ f.numBits_pos
  rw [f.length_eq]
  omega

theorem probe_raw (f : BloomFilter) (key : String) (is : List Nat) :
    f.raw.probe key is = .ok (is.all fun i => testBit f.bits (bitOf f.numBits key i)) := by
  induction is with
  | nil => rfl
  | cons i is ih =>
    have hpos : f.raw.numBits ≠ 0 := f.numBits_pos.ne'
    have hin := bitOf_div_lt f key i
    have hbyte : f.raw.bits[bitOf f.raw.numBits key i / 8]? =
        some (f.bits[bitOf f.numBits key i / 8]) := List.getElem?_eq_getElem hin
    rw [Raw.probe, if_neg hpos, hbyte, List.all_cons, testBit,
      List.getD_eq_getElem?_getD, List.getElem?_eq_getElem hin, Option.getD_some]
    dsimp only
    split_ifs with hbit
    · have hclear : f.bits[bitOf f.numBits key i / 8] &&& mask (bitOf f.numBits key i) = 0 := hbit
      simp [hclear]
    · have hset : f.bits[bitOf f.numBits key i / 8] &&& mask (bitOf f.numBits key i) ≠ 0 := hbit
      simp [hset, ih]

theorem mayContain_raw (f : BloomFilter) (key : String) : f.raw.mayContain key = .ok (f.mayContain key) :=
  probe_raw f key _

end Bounds

section Insertions
variable [Xxh3]

def insertAll (f : BloomFilter) (keys : List String) : BloomFilter := keys.foldl insert f

theorem mayContain_insertAll_of_mayContain {f : BloomFilter} {key : String}
    (h : f.mayContain key = true) (keys : List String) : (f.insertAll keys).mayContain key = true := by
  induction keys generalizing f with
  | nil => exact h
  | cons k keys ih => exact ih (mayContain_insert h k)

theorem mayContain_insertAll (f : BloomFilter) {keys : List String} {key : String} (h : key ∈ keys) :
    (f.insertAll keys).mayContain key = true := by
  induction keys generalizing f with
  | nil => cases h
  | cons k keys ih =>
    rcases List.mem_cons.mp h with rfl | h
    · -- set now, and kept by the insertions that follow
      exact mayContain_insertAll_of_mayContain (mayContain_insert_self f key) keys
    · exact ih (f.insert k) h

end Insertions

section Bytes

theorem split_header (b : Bytes) : b = b.take 1 ++ (b.drop 1).take 8 ++
    (b.drop 9).take 8 ++ (b.drop 17).take 8 ++ b.drop headerSize := by
  have hsplit : ∀ i n, b.drop i = (b.drop i).take n ++ b.drop (i + n) := by
    intro i n
    rw [← List.drop_drop, List.take_append_drop]
  conv_lhs => rw [← List.take_append_drop 1 b, hsplit 1 8, hsplit 9 8, hsplit 17 8]
  simp only [List.append_assoc, headerSize]

theorem leBytes_slice {b : Bytes} {i : Nat} (h : i + 8 ≤ b.length) :
    leBytes 8 (leNat ((b.drop i).take 8)) = (b.drop i).take 8 := by
  have hlen : ((b.drop i).take 8).length = 8 := by
    rw [List.length_take, List.length_drop]
    omega
  have hback := leBytes_leNat ((b.drop i).take 8)
  rwa [hlen] at hback

theorem toBytes_of_fromBytes {b : Bytes} {f : BloomFilter} (h : fromBytes b = .ok f) : f.toBytes = b := by
  unfold fromBytes at h
  dsimp only at h
  split_ifs at h with hshort halg hzero hmany hcount hlen
  obtain rfl := Except.ok.inj h
  have hsize : headerSize ≤ b.length := Nat.not_lt.mp hshort
  have hge : 25 ≤ b.length := hsize
  have hhead : b.take 1 = [algorithm] := by
    cases b with
    | nil => simp [headerSize] at hsize
    | cons x xs =>
      have hx : x = algorithm := by simpa using halg
      simp [hx]
  have hbits : (b.drop headerSize).length = leNat ((b.drop 17).take 8) := by
    rw [List.length_drop, not_not.mp hlen]
    exact Nat.add_sub_cancel_left ..
  conv_rhs => rw [split_header b]
  rw [toBytes, hbits, leBytes_slice (by omega), leBytes_slice (by omega), leBytes_slice (by omega), hhead]

end Bytes

/-- Nothing inserted is missed, before or after a trip through the byte form; and whatever bytes are
accepted are those of the filter they give, on which every lookup stays in bounds. -/
theorem no_false_negatives [Xxh3] :
    (∀ (f : BloomFilter) (keys : List String), fromBytes (f.insertAll keys).toBytes = .ok (f.insertAll keys) ∧
      ∀ key ∈ keys, (f.insertAll keys).mayContain key = true) ∧
    ∀ (b : Bytes) (f : BloomFilter), fromBytes b = .ok f →
      f.toBytes = b ∧ ∀ key, f.raw.mayContain key = .ok (f.mayContain key) := by
  refine ⟨fun f keys => ⟨fromBytes_toBytes _, fun key hkey => mayContain_insertAll f hkey⟩,
    fun b f h => ⟨toBytes_of_fromBytes h, mayContain_raw f⟩⟩

end KvRaft.BloomFilter
