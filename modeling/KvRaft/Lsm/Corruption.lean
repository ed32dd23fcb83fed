import KvRaft.Lsm.TornWal

/-! A write-ahead-log record with one byte altered. The checksum is that of the value which the altered
bytes are read as, in its own text, so an alteration is missed when the two values happen to weigh the
same. -/

namespace KvRaft.LogRecord
open Bytes

section Xor

theorem foldl_xor (a : UInt8) (bs : Bytes) : bs.foldl (· ^^^ ·) a = a ^^^ xorAll bs := by
  induction bs generalizing a with
  | nil => simp [xorAll]
  | cons b bs ih =>
    have hone : xorAll (b :: bs) = b ^^^ xorAll bs := by
      rw [xorAll, List.foldl_cons, ih, UInt8.zero_xor]
    rw [List.foldl_cons, ih, hone, UInt8.xor_assoc]

@[simp] theorem xorAll_nil : xorAll [] = 0 := rfl

@[simp] theorem xorAll_append (xs ys : Bytes) : xorAll (xs ++ ys) = xorAll xs ^^^ xorAll ys := by
  rw [xorAll, List.foldl_append, foldl_xor]
  rfl

@[simp] theorem xorAll_cons (b : UInt8) (bs : Bytes) : xorAll (b :: bs) = b ^^^ xorAll bs := by
  rw [xorAll, List.foldl_cons, foldl_xor, UInt8.zero_xor]

theorem xorAll_set_ne {bs : Bytes} {j : Nat} (hj : j < bs.length) {b : UInt8} (hb : bs[j] ≠ b) :
    xorAll (bs.set j b) ≠ xorAll bs := by
  induction bs generalizing j with
  | nil => simp at hj
  | cons x bs ih =>
    cases j with
    | zero => simpa [eq_comm] using hb
    | succ j => simpa using ih (Nat.lt_of_succ_lt_succ hj) hb

end Xor

/-- The parts of an encoded record, without the two lengths. -/
structure Parts where
  id : Bytes
  code : UInt8
  type : UInt8
  key : Bytes
  text : Bytes
  checksum : UInt8

namespace Parts

def bytes (p : Parts) : Bytes :=
  p.id ++ (p.code :: p.type :: (leBytes 4 p.key.length ++ (leBytes 4 p.text.length ++
    (p.key ++ (p.text ++ [p.checksum])))))

structure Sized (p : Parts) : Prop where
  id : p.id.length = 8
  key : p.key.length < 2 ^ 32
  text : p.text.length < 2 ^ 32

inductive Altered (p : Parts) (b : UInt8) : Nat → Parts → Prop where
  | id {i : Nat} (h : i < p.id.length) (hb : p.id[i] ≠ b) : Altered p b i { p with id := p.id.set i b }
  | code (hb : p.code ≠ b) : Altered p b 8 { p with code := b }
  | type (hb : p.type ≠ b) : Altered p b 9 { p with type := b }
  | key {j : Nat} (h : j < p.key.length) (hb : p.key[j] ≠ b) :
      Altered p b (18 + j) { p with key := p.key.set j b }
  | text {j : Nat} (h : j < p.text.length) (hb : p.text[j] ≠ b) :
      Altered p b (18 + p.key.length + j) { p with text := p.text.set j b }
  | checksum (hb : p.checksum ≠ b) :
      Altered p b (18 + p.key.length + p.text.length) { p with checksum := b }

theorem Altered.sized {p q : Parts} {b : UInt8} {i : Nat} (h : p.Altered b i q) (hp : p.Sized) : q.Sized := by
  have hid := hp.id
  have hkey := hp.key
  have htext := hp.text
  cases h <;> constructor <;> simpa

theorem middle (pre xs post : Bytes) {bs : Bytes} (hbs : bs = pre ++ (xs ++ post)) {j : Nat}
    (hj : j < xs.length) (b : UInt8) : bs[pre.length + j]? = some xs[j] ∧
      bs.set (pre.length + j) b = pre ++ (xs.set j b ++ post) := by
  subst hbs
  constructor
  · rw [List.getElem?_append_right (Nat.le_add_right ..), Nat.add_sub_cancel_left,
      List.getElem?_append_left hj, List.getElem?_eq_getElem hj]
  · rw [List.set_append_right _ _ (Nat.le_add_right ..), Nat.add_sub_cancel_left, List.set_append_left _ _ hj]

theorem exists_altered {p : Parts} (hid : p.id.length = 8) {i : Nat} {b : UInt8} (hi : i < p.bytes.length)
    (hout : i < 10 ∨ 18 ≤ i) (hb : p.bytes[i]? ≠ some b) :
    ∃ q, p.Altered b i q ∧ p.bytes.set i b = q.bytes := by
  have hlen : p.bytes.length = 19 + p.key.length + p.text.length := by
    simp [bytes, hid]
    omega
  have hne : ∀ {x : UInt8}, p.bytes[i]? = some x → x ≠ b := fun hx heq => hb (heq ▸ hx)
  -- the fields of a record, one after the other, the two lengths left out
  obtain h | rfl | rfl | h | h | h : i < 8 ∨ i = 8 ∨ i = 9 ∨ (18 ≤ i ∧ i < 18 + p.key.length) ∨
      (18 + p.key.length ≤ i ∧ i < 18 + p.key.length + p.text.length) ∨
      i = 18 + p.key.length + p.text.length := by omega
  · obtain ⟨hat, hset⟩ := middle [] p.id _ (show p.bytes = [] ++ (p.id ++ _) from rfl) (hid ▸ h) b
    rw [List.length_nil, Nat.zero_add] at hat hset
    exact ⟨_, .id (hid ▸ h) (hne hat), hset⟩
  · obtain ⟨hat, hset⟩ := middle p.id [p.code] _ (show p.bytes = _ from rfl) Nat.zero_lt_one b
    rw [hid] at hat hset
    exact ⟨_, .code (hne hat), hset⟩
  · obtain ⟨hat, hset⟩ := middle (p.id ++ [p.code]) [p.type] _
      (show p.bytes = _ by simp [bytes]; rfl) Nat.zero_lt_one b
    rw [List.length_append, hid] at hat hset
    exact ⟨_, .type (hne hat), hset.trans (by simp [bytes])⟩
  · obtain ⟨j, rfl⟩ := Nat.exists_eq_add_of_le h.1
    have hj : j < p.key.length := by omega
    obtain ⟨hat, hset⟩ := middle (p.id ++ (p.code :: p.type :: (leBytes 4 p.key.length ++
      leBytes 4 p.text.length))) p.key _ (show p.bytes = _ by simp [bytes]; rfl) hj b
    simp only [List.length_append, List.length_cons, hid, leBytes_length] at hat hset
    exact ⟨_, .key hj (hne hat), hset.trans (by simp [bytes])⟩
  · obtain ⟨j, rfl⟩ := Nat.exists_eq_add_of_le h.1
    have hj : j < p.text.length := by omega
    obtain ⟨hat, hset⟩ := middle (p.id ++ (p.code :: p.type :: (leBytes 4 p.key.length ++
      (leBytes 4 p.text.length ++ p.key)))) p.text _ (show p.bytes = _ by simp [bytes]; rfl) hj b
    have hpre : 8 + (4 + (4 + p.key.length) + 1 + 1) = 18 + p.key.length := by omega
    simp only [List.length_append, List.length_cons, hid, leBytes_length, hpre] at hat hset
    exact ⟨_, .text hj (hne hat), hset.trans (by simp [bytes])⟩
  · subst h
    obtain ⟨hat, hset⟩ := middle (p.id ++ (p.code :: p.type :: (leBytes 4 p.key.length ++
      (leBytes 4 p.text.length ++ (p.key ++ p.text))))) [p.checksum] []
      (show p.bytes = _ by simp [bytes]) Nat.zero_lt_one b
    have hpre : 8 + (4 + (4 + (p.key.length + p.text.length)) + 1 + 1) + 0 =
        18 + p.key.length + p.text.length := by omega
    simp only [List.length_append, List.length_cons, hid, leBytes_length, hpre] at hat hset
    exact ⟨_, .checksum (hne hat), hset.trans (by simp [bytes])⟩

section Read
variable {p : Parts}

theorem bytes_append (p : Parts) (rest : Bytes) : p.bytes ++ rest = p.id ++ (p.code :: p.type ::
    (leBytes 4 p.key.length ++ (leBytes 4 p.text.length ++ (p.key ++ (p.text ++ (p.checksum :: rest)))))) := by
  simp [bytes]

variable [FloatText]

theorem readFrom_of_command (hp : p.Sized) {rest : Bytes} {x : Except Fault Command}
    (hx : readCommand p.code (p.type :: (leBytes 4 p.key.length ++ (leBytes 4 p.text.length ++
      (p.key ++ (p.text ++ (p.checksum :: rest)))))) = x.map fun c => (c, p.checksum :: rest))
    {r : LogRecord} {rest' : Bytes} :
    readFrom (p.bytes ++ rest) = .ok (some (r, rest')) ↔ rest' = rest ∧ ∃ c, x = .ok c ∧
      r = ⟨UInt64.ofNat (leNat p.id), c, p.checksum⟩ ∧
        calculateChecksum (UInt64.ofNat (leNat p.id)) c = p.checksum := by
  rw [readFrom_eq (by rw [bytes_append]; exact readExact_append_of_length hp.id _), readAfterId, readU8]
  simp only [Except.bind, hx]
  cases x with
  | error e => simp [Except.map]
  | ok c =>
    simp only [Except.map, readU8, checked]
    split_ifs with hsum
    · have hne : calculateChecksum (UInt64.ofNat (leNat p.id)) c ≠ p.checksum := hsum
      simp [hne]
    · have heq : calculateChecksum (UInt64.ofNat (leNat p.id)) c = p.checksum := not_not.mp hsum
      simp only [Except.ok.injEq, Option.some.injEq, Prod.mk.injEq, exists_eq_left', heq, and_true]
      constructor
      · rintro ⟨rfl, rfl⟩
        exact ⟨rfl, rfl⟩
      · rintro ⟨rfl, rfl⟩
        exact ⟨rfl, rfl⟩

def setCommand (p : Parts) : Except Fault Command := do
  let t ← DataType.fromCode p.type
  let key ← readUtf8 p.key "key"
  let text ← readUtf8 p.text "value"
  match t with
  | .int => match parseI64 text with
    | some v => return .set key (.int v)
    | none => throw (.invalidData "invalid integer value")
  | .float => match FloatText.parse text with
    | some v => return .set key (.float v)
    | none => throw (.invalidData "invalid float value")
  | .string => return .set key (.string text)

theorem readCommand_set (hp : p.Sized) (hcode : p.code = 1) (rest : Bytes) :
    readCommand p.code (p.type :: (leBytes 4 p.key.length ++ (leBytes 4 p.text.length ++
      (p.key ++ (p.text ++ rest))))) = p.setCommand.map fun c => (c, rest) := by
  rw [readCommand, if_pos hcode]
  simp only [readSet, setCommand, readU8, bind, Except.bind]
  cases DataType.fromCode p.type with
  | error e => rfl
  | ok t =>
    simp only [readU32_append hp.key, readU32_append hp.text, readString, readBytes_append rfl, bind,
      Except.bind]
    cases readUtf8 p.key "key" with
    | error e => rfl
    | ok key =>
      simp only [pure, Except.pure, readBytes_append rfl]
      cases readUtf8 p.text "value" with
      | error e => rfl
      | ok text =>
        cases t with
        | int => cases h : parseI64 text <;> simp only [h] <;> rfl
        | float => cases h : FloatText.parse text <;> simp only [h] <;> rfl
        | string => rfl

theorem setCommand_eq_ok {c : Command} : p.setCommand = .ok c ↔ ∃ t key v, DataType.fromCode p.type = .ok t ∧
    fromUtf8 p.key = some key ∧ Value.fromBytes t p.text = .ok v ∧ c = .set key v := by
  simp only [setCommand, readUtf8, bind, Except.bind]
  cases DataType.fromCode p.type with
  | error e => simp
  | ok t =>
    cases fromUtf8 p.key with
    | none => simp
    | some key =>
      cases t with
      | int =>
        simp only [Value.fromBytes]
        cases fromUtf8 p.text with
        | none => simp
        | some text =>
          cases h : parseI64 text <;> simp [h, pure, Except.pure, throw, throwThe, MonadExceptOf.throw, eq_comm]
      | float =>
        simp only [Value.fromBytes]
        cases fromUtf8 p.text with
        | none => simp
        | some text =>
          cases h : FloatText.parse text <;>
            simp [h, pure, Except.pure, throw, throwThe, MonadExceptOf.throw, eq_comm]
      | string =>
        simp only [Value.fromBytes]
        cases fromUtf8 p.text with
        | none => simp
        | some text => simp [pure, Except.pure, eq_comm]

theorem readFrom_set (hp : p.Sized) (hcode : p.code = 1) {rest rest' : Bytes} {r : LogRecord} :
    readFrom (p.bytes ++ rest) = .ok (some (r, rest')) ↔ rest' = rest ∧ ∃ t key v,
      DataType.fromCode p.type = .ok t ∧ fromUtf8 p.key = some key ∧ Value.fromBytes t p.text = .ok v ∧
        r = ⟨UInt64.ofNat (leNat p.id), .set key v, p.checksum⟩ ∧
        calculateChecksum (UInt64.ofNat (leNat p.id)) (.set key v) = p.checksum := by
  rw [readFrom_of_command hp (readCommand_set hp hcode _)]
  simp only [setCommand_eq_ok]
  constructor
  · rintro ⟨rfl, c, ⟨t, key, v, ht, hk, hv, rfl⟩, hr, hsum⟩
    exact ⟨rfl, t, key, v, ht, hk, hv, hr, hsum⟩
  · rintro ⟨rfl, t, key, v, ht, hk, hv, hr, hsum⟩
    exact ⟨rfl, _, ⟨t, key, v, ht, hk, hv, rfl⟩, hr, hsum⟩

theorem readFrom_delete_parts (hp : p.Sized) (hcode : p.code = 2) (htype : p.type = 0) (htext : p.text = [])
    {rest rest' : Bytes} {r : LogRecord} (h : readFrom (p.bytes ++ rest) = .ok (some (r, rest'))) :
    ∃ key, fromUtf8 p.key = some key ∧ r = ⟨UInt64.ofNat (leNat p.id), .delete key, p.checksum⟩ ∧
      calculateChecksum (UInt64.ofNat (leNat p.id)) (.delete key) = p.checksum := by
  have hread : readCommand p.code (p.type :: (leBytes 4 p.key.length ++ (leBytes 4 p.text.length ++
      (p.key ++ (p.text ++ (p.checksum :: rest)))))) =
        ((readUtf8 p.key "key").map Command.delete).map fun c => (c, p.checksum :: rest) := by
    rw [readCommand, if_neg (by rw [hcode]; decide), if_pos hcode, htext, htype]
    simp only [readDelete, readU8, readU32_append hp.key, List.length_nil,
      readU32_append (show 0 < 2 ^ 32 by decide), readString, readBytes_append rfl, bind, Except.bind,
      List.nil_append, ne_eq, not_true_eq_false, if_false]
    cases readUtf8 p.key "key" <;> rfl
  obtain ⟨-, c, hc, hr, hsum⟩ := (readFrom_of_command hp hread).mp h
  cases hkey : fromUtf8 p.key with
  | none =>
    simp only [readUtf8, hkey] at hc
    cases hc
  | some key =>
    simp only [readUtf8, hkey] at hc
    cases hc
    exact ⟨key, rfl, hr, hsum⟩

theorem readFrom_other (hp : p.Sized) (hset : p.code ≠ 1) (hdelete : p.code = 2 → p.type ≠ 0) (rest : Bytes)
    (r : LogRecord) (rest' : Bytes) : readFrom (p.bytes ++ rest) ≠ .ok (some (r, rest')) := by
  intro h
  obtain ⟨e, he⟩ : ∃ e, readCommand p.code (p.type :: (leBytes 4 p.key.length ++ (leBytes 4 p.text.length ++
      (p.key ++ (p.text ++ (p.checksum :: rest)))))) = .error e := by
    rw [readCommand, if_neg hset]
    split_ifs with hcode
    · simp only [readDelete, readU8, bind, Except.bind, ne_eq, hdelete hcode, not_false_eq_true, if_true]
      exact ⟨_, rfl⟩
    · exact ⟨_, rfl⟩
  obtain ⟨-, c, hc, -⟩ := (readFrom_of_command (x := .error e) hp he).mp h
  cases hc

end Read

end Parts

section Weights

/-- The share of a value in a checksum: its type, the length of its text, and the text. -/
def weight [FloatText] (v : Value) : UInt8 :=
  v.dataType.code ^^^ xorAll (leBytes 4 (v.asBytes.length % 2 ^ 32)) ^^^ xorAll v.asBytes

theorem calculateChecksum_set [FloatText] (id : UInt64) (k : String) (v : Value) : calculateChecksum id (.set k v) =
    xorAll (leBytes 8 id.toNat) ^^^ (1 ^^^ xorAll (leBytes 4 ((utf8 k).length % 2 ^ 32)) ^^^
      (xorAll (utf8 k) ^^^ weight v)) := by
  have hinput : checksumInput id (.set k v) = leBytes 8 id.toNat ++ [1] ++ [v.dataType.code] ++
    leBytes 4 ((utf8 k).length % 2 ^ 32) ++ leBytes 4 (v.asBytes.length % 2 ^ 32) ++ utf8 k ++ v.asBytes := rfl
  rw [calculateChecksum, hinput, weight]
  simp only [xorAll_append, xorAll_cons, xorAll_nil, UInt8.xor_zero]
  ac_rfl

theorem calculateChecksum_delete [FloatText] (id : UInt64) (k : String) : calculateChecksum id (.delete k) =
    xorAll (leBytes 8 id.toNat) ^^^ (2 ^^^ xorAll (leBytes 4 ((utf8 k).length % 2 ^ 32)) ^^^ xorAll (utf8 k)) := by
  have hinput : checksumInput id (.delete k) = leBytes 8 id.toNat ++ [2] ++ [] ++
    leBytes 4 ((utf8 k).length % 2 ^ 32) ++ leBytes 4 0 ++ utf8 k ++ [] := rfl
  have hzero : xorAll (leBytes 4 0) = 0 := by decide
  rw [calculateChecksum, hinput]
  simp only [xorAll_append, xorAll_cons, xorAll_nil, UInt8.xor_zero, hzero]
  ac_rfl

theorem leBytes_ofNat_leNat {w : Bytes} (hw : w.length = 8) : leBytes 8 (UInt64.ofNat (leNat w)).toNat = w := by
  have hlt := leNat_lt w
  have hback := leBytes_leNat w
  rw [hw] at hlt hback
  rw [UInt64.toNat_ofNat', Nat.mod_eq_of_lt (show leNat w < 2 ^ 64 from hlt), hback]

theorem ofNat_leNat_leBytes (id : UInt64) : UInt64.ofNat (leNat (leBytes 8 id.toNat)) = id := by
  rw [leNat_leBytes id.toNat_lt, UInt64.ofNat_toNat]

end Weights

section Detection
variable [FloatText]

def parts (id : UInt64) : Command → Parts
  | .set k v => ⟨leBytes 8 id.toNat, 1, v.dataType.code, utf8 k, v.asBytes, calculateChecksum id (.set k v)⟩
  | .delete k => ⟨leBytes 8 id.toNat, 2, 0, utf8 k, [], calculateChecksum id (.delete k)⟩

theorem parts_bytes (id : UInt64) (c : Command) : (parts id c).bytes = (new id c).writeTo := by
  cases c <;> simp [parts, Parts.bytes, writeTo, new, Command.commandCode]

theorem parts_sized (id : UInt64) {c : Command} (hc : c.Fits) : (parts id c).Sized := by
  cases c with
  | set k v => exact ⟨leBytes_length .., hc.1, hc.2 v rfl⟩
  | delete k => exact ⟨leBytes_length .., hc.1, Nat.two_pow_pos 32⟩

/-- A record with the byte `i` of its encoding replaced by `b` is not read as another record. -/
def Caught (id : UInt64) (c : Command) (i : Nat) (b : UInt8) : Prop :=
  ∀ rest r rest', readFrom ((new id c).writeTo.set i b ++ rest) = .ok (some (r, rest')) →
    r.id = id ∧ r.command = c

/-- A type and a text that are read as a value other than `v` of the same weight. -/
def Passes (v : Value) (code : UInt8) (text : Bytes) : Prop :=
  ∃ t v', DataType.fromCode code = .ok t ∧ Value.fromBytes t text = .ok v' ∧ v' ≠ v ∧ weight v' = weight v

/-- The alterations that are missed: of the type, and of a byte in the text of a number. -/
def Slips : Command → Nat → UInt8 → Prop
  | .delete _, _, _ => False
  | .set k v, i, b => (i = 9 ∧ Passes v b v.asBytes) ∨
      (v.dataType ≠ .string ∧ 18 + (utf8 k).length ≤ i ∧ i < 18 + (utf8 k).length + v.asBytes.length ∧
        Passes v v.dataType.code (v.asBytes.set (i - (18 + (utf8 k).length)) b))

def Refused (q : Parts) : Prop := ∀ rest r rest', readFrom (q.bytes ++ rest) ≠ .ok (some (r, rest'))

theorem refused_delete {id : UInt64} {k : String} (hk : (utf8 k).length < 2 ^ 32) {i : Nat} {b : UInt8} {q : Parts}
    (hq : (parts id (.delete k)).Altered b i q) : Refused q := by
  intro rest r rest' h
  have hsized := hq.sized (parts_sized id (c := .delete k) ⟨hk, nofun⟩)
  have hid : UInt64.ofNat (leNat (parts id (.delete k)).id) = id := ofNat_leNat_leBytes id
  have hkey : fromUtf8 (parts id (.delete k)).key = some k := fromUtf8_utf8 k
  cases hq with
  | id hi hb =>
    obtain ⟨key, hread, -, hsum⟩ := Parts.readFrom_delete_parts hsized rfl rfl rfl h
    obtain rfl := Option.some.inj (hread.symm.trans hkey)
    dsimp only at hsum
    rw [calculateChecksum_delete, leBytes_ofNat_leNat hsized.id, parts, calculateChecksum_delete,
      UInt8.xor_left_inj] at hsum
    exact xorAll_set_ne hi hb hsum
  | code hb =>
    -- a code that turns the delete into a set meets a type that no set has
    by_cases hset : b = 1
    · obtain ⟨-, t, -, -, htype, -⟩ := (Parts.readFrom_set hsized hset).mp h
      cases htype
    · exact Parts.readFrom_other hsized hset (fun h2 => absurd h2.symm hb) rest r rest' h
  | type hb => exact Parts.readFrom_other hsized (show (2 : UInt8) ≠ 1 by decide) (fun _ => Ne.symm hb) rest r rest' h
  | @key j hj hb =>
    obtain ⟨key, hread, -, hsum⟩ := Parts.readFrom_delete_parts hsized rfl rfl rfl h
    have hbytes : utf8 key = (utf8 k).set j b := utf8_eq_of_fromUtf8 hread
    dsimp only at hsum
    rw [hid, parts, calculateChecksum_delete, calculateChecksum_delete, UInt8.xor_right_inj, hbytes,
      List.length_set, UInt8.xor_right_inj] at hsum
    exact xorAll_set_ne hj hb hsum
  | text hj hb => exact absurd hj (Nat.not_lt_zero _)
  | checksum hb =>
    obtain ⟨key, hread, -, hsum⟩ := Parts.readFrom_delete_parts hsized rfl rfl rfl h
    obtain rfl := Option.some.inj (hread.symm.trans hkey)
    rw [hid] at hsum
    exact hb hsum

theorem refused_set {id : UInt64} {k : String} {v : Value} (hc : (Command.set k v).Fits) {i : Nat} {b : UInt8}
    {q : Parts} (hq : (parts id (.set k v)).Altered b i q)
    (hi : i < 9 ∨ 18 ≤ i ∧ i < 18 + (utf8 k).length ∨ i = 18 + (utf8 k).length + v.asBytes.length) :
    Refused q := by
  intro rest r rest' h
  have hsized := hq.sized (parts_sized id hc)
  have hid : UInt64.ofNat (leNat (parts id (.set k v)).id) = id := ofNat_leNat_leBytes id
  have hkey : fromUtf8 (parts id (.set k v)).key = some k := fromUtf8_utf8 k
  have htype : DataType.fromCode (parts id (.set k v)).type = .ok v.dataType := DataType.fromCode_code _
  have hvalue : Value.fromBytes v.dataType (parts id (.set k v)).text = .ok v := Value.fromBytes_asBytes v
  cases hq with
  | id hi hb =>
    obtain ⟨-, t, key, v', ht, hread, hv, -, hsum⟩ := (Parts.readFrom_set hsized rfl).mp h
    obtain rfl := Except.ok.inj (ht.symm.trans htype)
    obtain rfl := Option.some.inj (hread.symm.trans hkey)
    obtain rfl := Except.ok.inj (hv.symm.trans hvalue)
    dsimp only at hsum
    rw [calculateChecksum_set, leBytes_ofNat_leNat hsized.id, parts, calculateChecksum_set,
      UInt8.xor_left_inj] at hsum
    exact xorAll_set_ne hi hb hsum
  | code hb =>
    -- a set never has the type 0 that a delete must have
    have hne : v.dataType.code ≠ 0 := by cases v <;> simp [Value.dataType, DataType.code]
    exact Parts.readFrom_other hsized (Ne.symm hb) (fun _ => hne) rest r rest' h
  | type hb => omega
  | @key j hj hb =>
    obtain ⟨-, t, key, v', ht, hread, hv, -, hsum⟩ := (Parts.readFrom_set hsized rfl).mp h
    obtain rfl := Except.ok.inj (ht.symm.trans htype)
    obtain rfl := Except.ok.inj (hv.symm.trans hvalue)
    have hbytes : utf8 key = (utf8 k).set j b := utf8_eq_of_fromUtf8 hread
    dsimp only at hsum
    rw [hid, parts, calculateChecksum_set, calculateChecksum_set, UInt8.xor_right_inj, hbytes,
      List.length_set, UInt8.xor_right_inj, UInt8.xor_left_inj] at hsum
    exact xorAll_set_ne hj hb hsum
  | @text j hj hb =>
    have hj : j < v.asBytes.length := hj
    have hi : 18 + (utf8 k).length + j < 9 ∨ 18 ≤ 18 + (utf8 k).length + j ∧
      18 + (utf8 k).length + j < 18 + (utf8 k).length ∨
        18 + (utf8 k).length + j = 18 + (utf8 k).length + v.asBytes.length := hi
    omega
  | checksum hb =>
    obtain ⟨-, t, key, v', ht, hread, hv, -, hsum⟩ := (Parts.readFrom_set hsized rfl).mp h
    obtain rfl := Except.ok.inj (ht.symm.trans htype)
    obtain rfl := Option.some.inj (hread.symm.trans hkey)
    obtain rfl := Except.ok.inj (hv.symm.trans hvalue)
    rw [hid] at hsum
    exact hb hsum

/-- With the type or the text altered, all depends on the value that these are read as. -/
theorem read_iff_passes {id : UInt64} {k : String} {v : Value} {type : UInt8} {text : Bytes}
    (hsized : { parts id (.set k v) with type := type, text := text }.Sized) :
    (∀ rest r rest', readFrom ({ parts id (.set k v) with type := type, text := text }.bytes ++ rest) =
      .ok (some (r, rest')) → r.id = id ∧ r.command = .set k v) ↔ ¬ Passes v type text := by
  have hid : UInt64.ofNat (leNat (parts id (.set k v)).id) = id := ofNat_leNat_leBytes id
  have hkey : fromUtf8 (parts id (.set k v)).key = some k := fromUtf8_utf8 k
  have hweight : ∀ v', calculateChecksum id (.set k v') = calculateChecksum id (.set k v) ↔
      weight v' = weight v := by
    intro v'
    rw [calculateChecksum_set, calculateChecksum_set, UInt8.xor_right_inj, UInt8.xor_right_inj,
      UInt8.xor_right_inj]
  constructor
  · rintro hread ⟨t, v', ht, hv, hne, hw⟩
    have hok : readFrom ({ parts id (.set k v) with type := type, text := text }.bytes ++ []) = _ :=
      (Parts.readFrom_set hsized rfl).mpr
        ⟨rfl, t, k, v', ht, hkey, hv, rfl, by rw [hid]; exact (hweight v').mpr hw⟩
    have hsame : Command.set k v' = .set k v := (hread [] _ _ hok).2
    exact hne (Command.set.inj hsame).2
  · intro hno rest r rest' h
    obtain ⟨-, t, key, v', ht, hread, hv, rfl, hsum⟩ := (Parts.readFrom_set hsized rfl).mp h
    obtain rfl := Option.some.inj (hread.symm.trans hkey)
    rw [hid] at hsum
    refine ⟨hid, ?_⟩
    by_contra hne
    exact hno ⟨t, v', ht, hv, fun heq => hne (by rw [heq]), (hweight v').mp hsum⟩

theorem not_passes_string {v : Value} (hstring : v.dataType = .string) {j : Nat} (hj : j < v.asBytes.length)
    {b : UInt8} (hb : v.asBytes[j] ≠ b) : ¬ Passes v v.dataType.code (v.asBytes.set j b) := by
  rintro ⟨t, v', ht, hv, -, hw⟩
  rw [DataType.fromCode_code] at ht
  obtain rfl := Except.ok.inj ht
  have hread : v'.dataType = .string ∧ v'.asBytes = v.asBytes.set j b := by
    rw [hstring, Value.fromBytes] at hv
    cases hs : fromUtf8 (v.asBytes.set j b) with
    | none =>
      rw [hs] at hv
      cases hv
    | some s =>
      rw [hs] at hv
      cases hv
      exact ⟨rfl, utf8_eq_of_fromUtf8 hs⟩
  rw [weight, weight, hread.1, hread.2, hstring, List.length_set, UInt8.xor_right_inj] at hw
  exact xorAll_set_ne hj hb hw

/-- Replacing one byte outside the lengths is caught unless the type and the text, as altered, are read as
another value of the same weight. -/
theorem caught_iff (id : UInt64) {c : Command} (hc : c.Fits) {i : Nat} (hi : i < (new id c).writeTo.length)
    (hout : i < 10 ∨ 18 ≤ i) {b : UInt8} (hb : (new id c).writeTo[i]? ≠ some b) :
    Caught id c i b ↔ ¬ Slips c i b := by
  rw [← parts_bytes] at hi hb
  obtain ⟨q, hq, hbytes⟩ := Parts.exists_altered (parts_sized id hc).id hi hout hb
  have hcaught : Caught id c i b ↔ ∀ rest r rest', readFrom (q.bytes ++ rest) = .ok (some (r, rest')) →
      r.id = id ∧ r.command = c := by
    rw [Caught, ← parts_bytes, hbytes]
  rw [hcaught]
  cases c with
  | delete k =>
    have hrefused := refused_delete hc.1 hq
    exact ⟨fun _ => not_false, fun _ rest r rest' h => absurd h (hrefused rest r rest')⟩
  | set k v =>
    by_cases hrest : i < 9 ∨ 18 ≤ i ∧ i < 18 + (utf8 k).length ∨ i = 18 + (utf8 k).length + v.asBytes.length
    · have hrefused := refused_set hc hq hrest
      -- outside the type and the text
      have hno : ¬ Slips (.set k v) i b := by
        rw [Slips]
        omega
      exact ⟨fun _ => hno, fun _ rest r rest' h => absurd h (hrefused rest r rest')⟩
    · have hsized := hq.sized (parts_sized id hc)
      have hidLen : (parts id (.set k v)).id.length = 8 := leBytes_length ..
      cases hq with
      | id hi => omega
      | code => omega
      | type =>
        rw [read_iff_passes hsized, not_iff_not, Slips]
        constructor
        · exact fun hp => Or.inl ⟨rfl, hp⟩
        · rintro (⟨-, hp⟩ | ⟨-, h18, -⟩)
          · exact hp
          · omega
      | @key j hj =>
        have hj : j < (utf8 k).length := hj
        omega
      | @text j hj hne =>
        have hj : j < v.asBytes.length := hj
        have hat : 18 + (parts id (.set k v)).key.length + j - (18 + (utf8 k).length) = j :=
          Nat.add_sub_cancel_left ..
        rw [read_iff_passes hsized, not_iff_not, Slips, hat]
        constructor
        · intro hp
          refine Or.inr ⟨fun hstring => not_passes_string hstring hj hne hp, Nat.le_add_right .., ?_, hp⟩
          exact Nat.add_lt_add_left hj _
        · rintro (⟨h9, -⟩ | ⟨-, -, -, hp⟩)
          · omega
          · exact hp
      | checksum => exact absurd (Or.inr (Or.inr rfl)) hrest

end Detection

open scoped Concrete

/-- A string of digits with leading zeros becomes an integer when its type byte does. -/
theorem digits_slip : ¬ Caught 1 (.set "k" (.string "007")) 9 1 := by
  intro hcaught
  have hread : readFrom ((new 1 (.set "k" (.string "007"))).writeTo.set 9 1 ++ []) =
      .ok (some (⟨1, .set "k" (.int 7), calculateChecksum 1 (.set "k" (.int 7))⟩, [])) := by rfl
  have hsame := (hcaught [] _ _ hread).2
  cases hsame

/-- The first byte of the id of the same record. -/
theorem id_caught : Caught 1 (.set "k" (.string "007")) 0 2 := by
  refine (caught_iff 1 ?_ ?_ (Or.inl (by decide)) ?_).mpr ?_
  · decide +kernel
  · decide +kernel
  · decide +kernel
  · rintro (⟨h, -⟩ | ⟨h, -⟩)
    · cases h
    · exact h rfl

end KvRaft.LogRecord
