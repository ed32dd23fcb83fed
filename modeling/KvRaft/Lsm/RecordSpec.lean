import KvRaft.Lsm.Record

/-! Text and byte forms are read back as what was written. -/

namespace KvRaft
open Bytes

section Text

@[simp] theorem fromUtf8_utf8 (s : String) : fromUtf8 (utf8 s) = some s := by
  have hvalid : (⟨(utf8 s).toArray⟩ : ByteArray) = s.toByteArray := by
    simp [utf8]
  rw [fromUtf8, hvalid, String.fromUTF8?, dif_pos s.isValidUTF8]
  rfl

theorem utf8_eq_of_fromUtf8 {bs : Bytes} {s : String} (h : fromUtf8 bs = some s) : utf8 s = bs := by
  rw [fromUtf8, String.fromUTF8?] at h
  split_ifs at h with hvalid
  obtain rfl := Option.some.inj h
  rfl

theorem toString_nat_toList (n : Nat) : (toString n).toList = Nat.toDigits 10 n := by
  simp [toString, Nat.repr]

theorem parseDigits_toDigits (n : Nat) : parseDigits (Nat.toDigits 10 n) = some n := by
  have hdigits : (Nat.toDigits 10 n).all Char.isDigit = true :=
    List.all_eq_true.mpr fun c hc => Nat.isDigit_of_mem_toDigits (by decide) (by decide) hc
  rw [parseDigits, if_pos ⟨Nat.toDigits_ne_nil, hdigits⟩, Nat.ofDigitChars_ten_toDigits]

theorem parseI64_toDigits {s : String} {n : Nat} (hs : s.toList = Nat.toDigits 10 n)
    (hn : n < 2 ^ 63) : parseI64 s = some (Int64.ofInt n) := by
  have hdigit : ∀ c cs, Nat.toDigits 10 n = c :: cs → c.isDigit = true := fun c cs h =>
    Nat.isDigit_of_mem_toDigits (b := 10) (n := n) (by decide) (by decide) (h ▸ List.mem_cons_self ..)
  unfold parseI64
  rw [hs]
  split
  · next cs h => exact absurd (hdigit _ _ h) (by decide)
  · next cs h => exact absurd (hdigit _ _ h) (by decide)
  · rw [parseDigits_toDigits, Option.bind_some, if_pos hn]

theorem parseI64_toString (v : Int64) : parseI64 (toString v.toInt) = some v := by
  have hlo := Int64.le_toInt v
  have hhi := Int64.toInt_lt v
  rcases hv : v.toInt with n | n
  · rw [hv] at hhi
    have hn : n < 2 ^ 63 := by
      have : (n : Int) < 2 ^ 63 := hhi
      omega
    rw [parseI64_toDigits (show (toString (Int.ofNat n)).toList = _ from toString_nat_toList n) hn]
    have : Int64.ofInt (v.toInt) = v := Int64.ofInt_toInt v
    rw [hv] at this
    exact congrArg some this
  · rw [hv] at hlo
    have hn : n + 1 ≤ 2 ^ 63 := by
      have : -2 ^ 63 ≤ Int.negSucc n := hlo
      omega
    have htext : (toString (Int.negSucc n)).toList = '-' :: Nat.toDigits 10 (n + 1) := by
      simp [toString, Int.repr, Nat.repr]
    unfold parseI64
    simp only [htext]
    rw [parseDigits_toDigits, Option.bind_some, if_pos hn]
    have : Int64.ofInt (v.toInt) = v := Int64.ofInt_toInt v
    rw [hv] at this
    exact congrArg some this

end Text

/-- Floats written as the decimal value of their bits. -/
@[reducible] def FloatText.ofBits : FloatText where
  toText x := toString x.bits.toNat
  parse s := (parseDigits s.toList).map fun n => F64.ofBits (UInt64.ofNat n)
  parse_toText x := by
    rw [toString_nat_toList, parseDigits_toDigits, Option.map_some, UInt64.ofNat_toNat, F64.ofBits_bits]

section Records

@[simp] theorem Value.fromBytes_asBytes [FloatText] (v : Value) : Value.fromBytes v.dataType v.asBytes = .ok v := by
  cases v with
  | int v => simp only [Value.fromBytes, Value.dataType, Value.asBytes, fromUtf8_utf8, parseI64_toString]
  | float v => simp [Value.fromBytes, Value.dataType, Value.asBytes, FloatText.parse_toText]
  | string v => simp [Value.fromBytes, Value.dataType, Value.asBytes]

/-- A command whose key and encoded value are shorter than `2 ^ 32` bytes. -/
def Command.Fits [FloatText] (c : Command) : Prop :=
  (utf8 c.key).length < 2 ^ 32 ∧ ∀ v, c.value = some v → v.asBytes.length < 2 ^ 32

instance [FloatText] (c : Command) : Decidable c.Fits :=
  inferInstanceAs (Decidable (_ ∧ ∀ v ∈ c.value, v.asBytes.length < 2 ^ 32))

namespace LogRecord

theorem readBytes_append {k : Nat} {xs : Bytes} (h : xs.length = k) (ys : Bytes) :
    readBytes k (xs ++ ys) = .ok (xs, ys) := by
  rw [readBytes, readExact_append_of_length h]

theorem readU32_append {n : Nat} (h : n < 2 ^ 32) (ys : Bytes) :
    readU32 (leBytes 4 n ++ ys) = .ok (n, ys) := by
  rw [readU32, readBytes_append (leBytes_length 4 n)]
  change Except.ok (leNat (leBytes 4 n), ys) = _
  rw [leNat_leBytes h]

theorem readString_append {s : String} {k : Nat} (h : (utf8 s).length = k) (field : String)
    (ys : Bytes) : readString k field (utf8 s ++ ys) = .ok (s, ys) := by
  rw [readString, readBytes_append h]
  change (readUtf8 (utf8 s) field).bind _ = _
  rw [readUtf8, fromUtf8_utf8]
  rfl

theorem readSet_write [FloatText] {k : String} {v : Value} (hk : (utf8 k).length < 2 ^ 32)
    (hv : v.asBytes.length < 2 ^ 32) (ys : Bytes) :
    readSet (v.dataType.code :: (leBytes 4 (utf8 k).length ++ (leBytes 4 v.asBytes.length ++
      (utf8 k ++ (v.asBytes ++ ys))))) = .ok (.set k v, ys) := by
  simp only [readSet, readU8, bind, Except.bind, DataType.fromCode_code, readU32_append hk,
    readU32_append hv, readString_append rfl, readBytes_append rfl]
  cases v with
  | int v => simp only [Value.asBytes, Value.dataType, readUtf8, fromUtf8_utf8, parseI64_toString]; rfl
  | float v =>
    simp only [Value.asBytes, Value.dataType, readUtf8, fromUtf8_utf8, FloatText.parse_toText]; rfl
  | string v => simp only [Value.asBytes, Value.dataType, readUtf8, fromUtf8_utf8]; rfl

theorem readDelete_write {k : String} (hk : (utf8 k).length < 2 ^ 32) (ys : Bytes) :
    readDelete (0 :: (leBytes 4 (utf8 k).length ++ (leBytes 4 0 ++ (utf8 k ++ ys)))) =
      .ok (.delete k, ys) := by
  simp only [readDelete, readU8, bind, Except.bind, readU32_append hk,
    readU32_append (show 0 < 2 ^ 32 by decide), readString_append rfl]
  rfl

theorem readFrom_writeTo [FloatText] (id : UInt64) {c : Command} (hc : c.Fits) (rest : Bytes) :
    readFrom ((new id c).writeTo ++ rest) = .ok (some (new id c, rest)) := by
  have hid : UInt64.ofNat (leNat (leBytes 8 id.toNat)) = id := by
    rw [leNat_leBytes (by have := id.toNat_lt; omega), UInt64.ofNat_toNat]
  cases c with
  | set k v =>
    have hbytes : (new id (.set k v)).writeTo ++ rest = leBytes 8 id.toNat ++ (1 ::
        (v.dataType.code :: (leBytes 4 (utf8 k).length ++ (leBytes 4 v.asBytes.length ++
          (utf8 k ++ (v.asBytes ++ (calculateChecksum id (.set k v) :: rest))))))) := by
      simp [writeTo, new, Command.commandCode]
    have hset := readSet_write (k := k) (v := v) hc.1 (hc.2 v rfl)
      (calculateChecksum id (.set k v) :: rest)
    rw [hbytes, readFrom, readExact_append_of_length (leBytes_length 8 _)]
    simp only [bind, Except.bind, hid, readU8, if_pos, hset]
    simp [new, pure, Except.pure]
  | delete k =>
    have hbytes : (new id (.delete k)).writeTo ++ rest = leBytes 8 id.toNat ++ (2 ::
        (0 :: (leBytes 4 (utf8 k).length ++ (leBytes 4 0 ++
          (utf8 k ++ (calculateChecksum id (.delete k) :: rest)))))) := by
      simp [writeTo, new, Command.commandCode]
    have hdel := readDelete_write (k := k) hc.1 (calculateChecksum id (.delete k) :: rest)
    rw [hbytes, readFrom, readExact_append_of_length (leBytes_length 8 _)]
    simp only [bind, Except.bind, hid, readU8, if_neg (show (2 : UInt8) ≠ 1 by decide), if_pos, hdel]
    simp [new, pure, Except.pure]

end LogRecord
end Records
end KvRaft
