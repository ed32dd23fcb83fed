import KvRaft.Lib.Bytes

/-! Values, commands and write-ahead-log records, with their byte encoding
(`lsm/wal/log_record.rs`). -/

namespace KvRaft

inductive ErrorKind where
  | unexpectedEof
  | invalidData
  | invalidInput
  | notFound
  deriving DecidableEq, Repr

/-- How a storage function can fail: an `io::Error` it returns, or a panic. -/
inductive Fault where
  | io (kind : ErrorKind) (message : String)
  | panic (message : String)
  deriving DecidableEq, Repr

namespace Fault

def message : Fault → String
  | .io _ m => m
  | .panic m => m

def invalidData (m : String) : Fault := .io .invalidData m

def eof : Fault := .io .unexpectedEof "failed to fill whole buffer"

end Fault

namespace F64

/-- An exponent of ones only, and a fraction. -/
def isNanBits (bits : UInt64) : Bool := 0x7FF0000000000000 < bits &&& 0x7FFFFFFFFFFFFFFF

/-- `f64::NAN`. -/
def nanBits : UInt64 := 0x7FF8000000000000

end F64

/-- An `f64`, opaque to the store. There is one NaN, as all of them have the same text. -/
structure F64 where
  bits : UInt64
  canonical : F64.isNanBits bits = true → bits = F64.nanBits
  deriving DecidableEq, Repr

namespace F64

def ofBits (bits : UInt64) : F64 :=
  if h : isNanBits bits = true then ⟨nanBits, fun _ => rfl⟩ else ⟨bits, fun h' => absurd h' h⟩

theorem ofBits_bits (x : F64) : ofBits x.bits = x := by
  obtain ⟨bits, hcanonical⟩ := x
  unfold ofBits
  split_ifs with h
  · simp only [hcanonical h]
  · rfl

end F64

/-- `f64::to_string` and `str::parse::<f64>`. -/
class FloatText where
  toText : F64 → String
  parse : String → Option F64
  parse_toText : ∀ x, parse (toText x) = some x

inductive DataType where
  | int
  | float
  | string
  deriving DecidableEq, Repr

namespace DataType

def code : DataType → UInt8
  | int => 1
  | float => 2
  | string => 3

def fromCode (code : UInt8) : Except Fault DataType :=
  if code = 1 then .ok int
  else if code = 2 then .ok float
  else if code = 3 then .ok string
  else .error (.invalidData "invalid data type")

/-- The discriminant `value.data_type() as u8` that an SSTable record stores. -/
def asU8 : DataType → UInt8
  | int => 0
  | float => 1
  | string => 2

def fromU8 (value : UInt8) : Except Fault DataType :=
  if value = 0 then .ok int
  else if value = 1 then .ok float
  else if value = 2 then .ok string
  else .error (.invalidData "invalid SSTable value type")

@[simp] theorem fromCode_code (t : DataType) : fromCode t.code = .ok t := by
  cases t <;> rfl

@[simp] theorem fromU8_asU8 (t : DataType) : fromU8 t.asU8 = .ok t := by
  cases t <;> rfl

end DataType

inductive Value where
  | int (value : Int64)
  | float (value : F64)
  | string (value : String)
  deriving DecidableEq, Repr

def utf8 (s : String) : Bytes := s.toByteArray.data.toList

/-- `String::from_utf8`. -/
def fromUtf8 (bs : Bytes) : Option String := String.fromUTF8? ⟨bs.toArray⟩

def parseDigits (cs : List Char) : Option Nat :=
  if cs ≠ [] ∧ cs.all Char.isDigit then some (Nat.ofDigitChars 10 cs 0) else none

/-- `str::parse::<i64>`: an optional sign, then decimal digits, in range. -/
def parseI64 (s : String) : Option Int64 :=
  match s.toList with
  | '-' :: cs => (parseDigits cs).bind fun n =>
      if n ≤ 2 ^ 63 then some (Int64.ofInt (-(n : Int))) else none
  | '+' :: cs => (parseDigits cs).bind fun n =>
      if n < 2 ^ 63 then some (Int64.ofInt n) else none
  | cs => (parseDigits cs).bind fun n =>
      if n < 2 ^ 63 then some (Int64.ofInt n) else none

inductive Command where
  | set (key : String) (value : Value)
  | delete (key : String)
  deriving DecidableEq, Repr

namespace Value

def dataType : Value → DataType
  | int _ => .int
  | float _ => .float
  | string _ => .string

variable [FloatText]

def asBytes : Value → Bytes
  | int v => utf8 (toString v.toInt)
  | float v => utf8 (FloatText.toText v)
  | string v => utf8 v

def fromBytes (t : DataType) (bs : Bytes) : Except Fault Value :=
  match t with
  | .int => match fromUtf8 bs with
    | none => .error (.invalidData "invalid UTF-8 integer value")
    | some s => match parseI64 s with
      | none => .error (.invalidData "invalid integer value")
      | some v => .ok (int v)
  | .float => match fromUtf8 bs with
    | none => .error (.invalidData "invalid UTF-8 float value")
    | some s => match FloatText.parse s with
      | none => .error (.invalidData "invalid float value")
      | some v => .ok (float v)
  | .string => match fromUtf8 bs with
    | none => .error (.invalidData "invalid UTF-8 string value")
    | some s => .ok (string s)

end Value

namespace Command

def key : Command → String
  | set k _ => k
  | delete k => k

def value : Command → Option Value
  | set _ v => some v
  | delete _ => none

def dataType (c : Command) : Option DataType := c.value.map Value.dataType

def commandCode : Command → UInt8
  | set .. => 1
  | delete .. => 2

/-- `self.key().len() as u32`. -/
def keyLen (c : Command) : Nat := (utf8 c.key).length % 2 ^ 32

/-- `value.as_bytes().len() as u32`, and 0 for a delete. -/
def valueLen [FloatText] (c : Command) : Nat :=
  match c.value with
  | some v => v.asBytes.length % 2 ^ 32
  | none => 0

end Command

structure LogRecord where
  id : UInt64
  command : Command
  checksum : UInt8
  deriving DecidableEq, Repr

namespace LogRecord
open Bytes

def xorAll (bs : Bytes) : UInt8 := bs.foldl (· ^^^ ·) 0

variable [FloatText]

/-- The bytes `calculate_checksum` folds over, in its order. -/
def checksumInput (id : UInt64) (c : Command) : Bytes :=
  leBytes 8 id.toNat ++ [c.commandCode] ++ (c.dataType.map DataType.code).toList ++
    leBytes 4 c.keyLen ++ leBytes 4 c.valueLen ++ utf8 c.key ++ (c.value.map Value.asBytes).getD []

def calculateChecksum (id : UInt64) (c : Command) : UInt8 := xorAll (checksumInput id c)

def new (id : UInt64) (c : Command) : LogRecord := ⟨id, c, calculateChecksum id c⟩

def writeTo (r : LogRecord) : Bytes :=
  leBytes 8 r.id.toNat ++ [r.command.commandCode] ++
    (match r.command with
      | .set k v => [v.dataType.code] ++ leBytes 4 (utf8 k).length ++ leBytes 4 v.asBytes.length ++
          utf8 k ++ v.asBytes
      | .delete k => [0] ++ leBytes 4 (utf8 k).length ++ leBytes 4 0 ++ utf8 k) ++
    [r.checksum]

def readBytes (k : Nat) (bs : Bytes) : Except Fault (Bytes × Bytes) :=
  match readExact k bs with
  | some r => .ok r
  | none => .error .eof

def readU8 (bs : Bytes) : Except Fault (UInt8 × Bytes) :=
  match bs with
  | b :: bs => .ok (b, bs)
  | [] => .error .eof

def readU32 (bs : Bytes) : Except Fault (Nat × Bytes) := do
  let (w, bs) ← readBytes 4 bs
  return (leNat w, bs)

def readUtf8 (bs : Bytes) (field : String) : Except Fault String :=
  match fromUtf8 bs with
  | some s => .ok s
  | none => .error (.invalidData s!"invalid UTF-8 {field}")

def readString (k : Nat) (field : String) (bs : Bytes) : Except Fault (String × Bytes) := do
  let (w, bs) ← readBytes k bs
  let s ← readUtf8 w field
  return (s, bs)

def readSet (bs : Bytes) : Except Fault (Command × Bytes) := do
  let (code, bs) ← readU8 bs
  let dataType ← DataType.fromCode code
  let (keyLen, bs) ← readU32 bs
  let (valueLen, bs) ← readU32 bs
  let (key, bs) ← readString keyLen "key" bs
  let (valueBytes, bs) ← readBytes valueLen bs
  let text ← readUtf8 valueBytes "value"
  match dataType with
  | .int => match parseI64 text with
    | some v => return (.set key (.int v), bs)
    | none => throw (.invalidData "invalid integer value")
  | .float => match FloatText.parse text with
    | some v => return (.set key (.float v), bs)
    | none => throw (.invalidData "invalid float value")
  | .string => return (.set key (.string text), bs)

def readDelete (bs : Bytes) : Except Fault (Command × Bytes) := do
  let (dataType, bs) ← readU8 bs
  if dataType ≠ 0 then throw (.invalidData "invalid delete data type")
  let (keyLen, bs) ← readU32 bs
  let (_, bs) ← readU32 bs
  let (key, bs) ← readString keyLen "key" bs
  return (.delete key, bs)

/-- A short read of the id is a clean end of the file; any later short read is an error. -/
def readFrom (bs : Bytes) : Except Fault (Option (LogRecord × Bytes)) :=
  match readExact 8 bs with
  | none => .ok none
  | some (idBytes, bs) => do
    let id := UInt64.ofNat (leNat idBytes)
    let (code, bs) ← readU8 bs
    let (command, bs) ←
      if code = 1 then readSet bs
      else if code = 2 then readDelete bs
      else throw (.invalidData "invalid command")
    let (checksum, bs) ← readU8 bs
    if calculateChecksum id command ≠ checksum then throw (.invalidData "checksum mismatch")
    return some (⟨id, command, checksum⟩, bs)

end LogRecord
end KvRaft
