import KvRaft.Raft.Types

/-! The durable Raft log and metadata (`raft/log_store.rs`). -/

namespace KvRaft
open Bytes

/-- `bincode::serialize` and `bincode::deserialize` at `LogEntry`: decoding undoes encoding, and
an encoding cut short is an unexpected end of input. -/
class Bincode where
  serialize : LogEntry → Bytes
  deserialize : Bytes → Option LogEntry
  deserialize_serialize : ∀ e, deserialize (serialize e) = some e
  deserialize_take : ∀ e k, k < (serialize e).length → deserialize ((serialize e).take k) = none

/-- The file and the byte offset at which each entry starts. -/
structure RaftLogStore where
  file : Bytes
  offsets : List Nat
  deriving DecidableEq, Repr

namespace RaftLogStore
variable [Bincode]

def maxEntrySize : Nat := 64 * 1024 * 1024

/-- The length prefix of an entry's frame, `payload.len() as u32`. -/
def frameLen (e : LogEntry) : Bytes := leBytes 4 (Bincode.serialize e).length

def frame (e : LogEntry) : Bytes := frameLen e ++ Bincode.serialize e

/-- `Ok(None)` when not even the length prefix is there, an error when the frame is damaged. -/
def readEntry (bs : Bytes) : Except Fault (Option (LogEntry × Bytes)) :=
  match readExact 4 bs with
  | none => .ok none
  | some (lenBytes, bs) =>
    if leNat lenBytes > maxEntrySize then
      .error (.invalidData s!"entry length {leNat lenBytes} exceeds maximum {maxEntrySize}")
    else match readExact (leNat lenBytes) bs with
      | none => .error .eof
      | some (payload, bs) => match Bincode.deserialize payload with
        | none => .error (.invalidData "bincode")
        | some e => .ok (some (e, bs))

/-- The replay loop of `open`: entries, their offsets, and where a damaged tail starts. Every
round consumes at least the four bytes of a length prefix, so `fuel` above the length is enough. -/
def openLoop : Nat → Nat → Bytes → List LogEntry × List Nat × Option Nat
  | 0, _, _ => ([], [], none)
  | fuel + 1, pos, bs => match readEntry bs with
    | .ok (some (e, rest)) =>
      let (es, os, cut) := openLoop fuel (pos + (bs.length - rest.length)) rest
      (e :: es, pos :: os, cut)
    | .ok none => ([], [], none)
    | .error _ => ([], [], some pos)

/-- `RaftLogStore::open` on the bytes of an existing file. -/
def openFile (file : Bytes) : RaftLogStore × List LogEntry :=
  let (es, os, cut) := openLoop (file.length + 1) 0 file
  match cut with
  | some pos => (⟨file.take pos, os⟩, es)
  | none => (⟨file, os⟩, es)

def append (s : RaftLogStore) (e : LogEntry) : RaftLogStore :=
  ⟨s.file ++ frame e, s.offsets ++ [s.file.length]⟩

def truncateFrom (s : RaftLogStore) (start : Nat) : RaftLogStore :=
  match s.offsets[start]? with
  | none => s
  | some newEnd => ⟨s.file.take newEnd, s.offsets.take start⟩

def len (s : RaftLogStore) : Nat := s.offsets.length

end RaftLogStore

/-- The metadata file, as the 8-byte words it holds. -/
structure RaftMeta where
  file : List Nat
  deriving DecidableEq, Repr

structure MetaState where
  commitIndex : Nat
  currentTerm : Nat
  votedFor : Option Nat
  deriving DecidableEq, Repr

namespace RaftMeta

/-- `RaftMeta::open`: a file shorter than the three words counts as fresh, and a zero vote word
means no vote. -/
def load : List Nat → MetaState
  | c :: t :: v :: _ => ⟨c, t, if v = 0 then none else some v⟩
  | _ => ⟨0, 0, none⟩

def save (m : RaftMeta) (commitIndex currentTerm : Nat) (votedFor : Option Nat) : RaftMeta :=
  ⟨[commitIndex, currentTerm, votedFor.getD 0] ++ m.file.drop 3⟩

@[simp] theorem load_save (m : RaftMeta) (c t : Nat) (v : Option Nat) :
    load (m.save c t v).file = ⟨c, t, if v.getD 0 = 0 then none else some (v.getD 0)⟩ := rfl

theorem load_save_of_pos (m : RaftMeta) (c t : Nat) {v : Option Nat} (hv : v ≠ some 0) :
    load (m.save c t v).file = ⟨c, t, v⟩ := by
  rcases v with _ | v
  · rfl
  · have hpos : v ≠ 0 := fun h => hv (h ▸ rfl)
    simp [hpos]

end RaftMeta
end KvRaft
