import KvRaft.Raft.Cluster
import KvRaft.Raft.LogMirror

/-! Messages on the connection between two nodes (`raft/network.rs`): what the writer task puts into a
frame, and what the reader task of the other side takes. -/

namespace KvRaft
open Bytes

/-- The numbers of a message are `u64`s; the largest one does not occur. -/
structure AppendEntries.Words (a : AppendEntries) : Prop where
  term : a.term < 2 ^ 64 - 1
  leaderId : a.leaderId < 2 ^ 64 - 1
  prevLogIndex : a.prevLogIndex < 2 ^ 64 - 1
  prevLogTerm : a.prevLogTerm < 2 ^ 64 - 1
  entries : a.entries.length < 2 ^ 64 - 1
  leaderCommit : a.leaderCommit < 2 ^ 64 - 1

def entriesSize [Bincode] (es : List LogEntry) : Nat := (es.map fun e => (Bincode.serialize e).length).sum

/-- `bincode::serialize_into` and `bincode::deserialize` at `Message`. A message with log entries takes
six numbers, the number of its variant and the entries. -/
class WireFormat [Bincode] where
  serialize : Message → Bytes
  deserialize : Bytes → Option Message
  deserialize_serialize : ∀ m, deserialize (serialize m) = some m
  deserialize_take : ∀ m k, k < (serialize m).length → deserialize ((serialize m).take k) = none
  serialize_appendEntries : ∀ a : AppendEntries, a.Words →
    (serialize (.appendEntries a)).length = 52 + entriesSize a.entries

namespace Wire

/-- `to_be_bytes`. -/
def beBytes (w n : Nat) : Bytes := (leBytes w n).reverse

/-- `from_be_bytes`. -/
def beNat (bs : Bytes) : Nat := leNat bs.reverse

def maxMessageSize : Nat := 16 * 1024 * 1024

variable [Bincode] [WireFormat]

/-- What the writer task sends for a message; the length is cut to a `u32`. -/
def frame (m : Message) : Bytes := beBytes 4 (WireFormat.serialize m).length ++ WireFormat.serialize m

/-- One round of the reader task on the bytes that are to come: the message it passes on and what is left
for the next round, or nothing when it gives the connection up. -/
def readMessage (bs : Bytes) : Option (Message × Bytes) := do
  let (lenBuf, bs) ← readExact 4 bs
  let len := beNat lenBuf
  guard (len ≤ maxMessageSize)
  let (msgBuf, bs) ← readExact len bs
  let m ← WireFormat.deserialize msgBuf
  return (m, bs)

/-- The reader passes the message on, and goes on behind it. -/
def Accepted (m : Message) : Prop := ∀ rest, readMessage (frame m ++ rest) = some (m, rest)

theorem readMessage_frame (m : Message) (rest : Bytes) : readMessage (frame m ++ rest) =
    if (WireFormat.serialize m).length % 2 ^ 32 ≤ maxMessageSize then
      (readExact ((WireFormat.serialize m).length % 2 ^ 32) (WireFormat.serialize m ++ rest)).bind fun p =>
        (WireFormat.deserialize p.1).map fun m' => (m', p.2)
    else none := by
  have hwidth : (beBytes 4 (WireFormat.serialize m).length).length = 4 := by
    rw [beBytes, List.length_reverse, leBytes_length]
  have hlen : beNat (beBytes 4 (WireFormat.serialize m).length) = (WireFormat.serialize m).length % 2 ^ 32 := by
    rw [beNat, beBytes, List.reverse_reverse]
    exact leNat_leBytes_mod 4 _
  rw [readMessage, frame, List.append_assoc, readExact_append_of_length hwidth]
  simp only [bind, Option.bind, hlen]
  split_ifs with hle
  · rw [guard, if_pos hle]
    dsimp only [pure]
    cases readExact ((WireFormat.serialize m).length % 2 ^ 32) (WireFormat.serialize m ++ rest) with
    | none => rfl
    | some p =>
      dsimp only
      cases WireFormat.deserialize p.1 <;> rfl
  · rw [guard, if_neg hle]
    rfl

theorem accepted_iff (m : Message) : Accepted m ↔ (WireFormat.serialize m).length ≤ maxMessageSize := by
  constructor
  · intro h
    by_contra hbig
    have hread := h []
    rw [readMessage_frame] at hread
    split_ifs at hread with hle
    have hlt : (WireFormat.serialize m).length % 2 ^ 32 < (WireFormat.serialize m).length := by omega
    rw [List.append_nil, readExact, if_pos hlt.le, Option.bind_some,
      WireFormat.deserialize_take m _ hlt] at hread
    cases hread
  · intro hle rest
    have hmod : (WireFormat.serialize m).length % 2 ^ 32 = (WireFormat.serialize m).length := by
      have : maxMessageSize = 16 * 1024 * 1024 := rfl
      exact Nat.mod_eq_of_lt (by omega)
    rw [readMessage_frame, hmod, if_pos hle, readExact_append, Option.bind_some,
      WireFormat.deserialize_serialize, Option.map_some]

end Wire

section Node
variable {D : Type} [Storage D]

structure RaftNode.Words (n : RaftNode D) : Prop where
  id : n.id < 2 ^ 64 - 1
  currentTerm : n.currentTerm < 2 ^ 64 - 1
  commitIndex : n.commitIndex < 2 ^ 64 - 1
  log : n.log.length < 2 ^ 64 - 1
  terms : ∀ e ∈ n.log, e.term < 2 ^ 64 - 1

theorem makeAppendEntries_entries {n : RaftNode D} {peer : NodeId} {next : Nat}
    (hnext : n.nextIndex.lookup peer = some next) {a : AppendEntries}
    (ha : n.makeAppendEntries peer = some a) :
    a.entries = n.log.drop next ∧ (n.Words → a.Words) := by
  rw [RaftNode.makeAppendEntries, hnext] at ha
  simp only [bind, Option.bind_some] at ha
  obtain ⟨_, h1, ha⟩ := Option.bind_eq_some_iff.mp ha
  obtain ⟨_, h2, ha⟩ := Option.bind_eq_some_iff.mp ha
  obtain ⟨prev, hprev, ha⟩ := Option.bind_eq_some_iff.mp ha
  obtain rfl := Option.some.inj ha
  refine ⟨rfl, fun hn => ⟨hn.currentTerm, hn.id, ?_, hn.terms prev (List.mem_of_getElem? hprev), ?_,
    hn.commitIndex⟩⟩
  · have hlt := (List.getElem?_eq_some_iff.mp hprev).1
    exact hlt.trans hn.log
  · change (n.log.drop next).length < _
    rw [List.length_drop]
    exact (Nat.sub_le ..).trans_lt hn.log

variable [Bincode]

theorem append_frames (es : List LogEntry) :
    (es.foldl RaftLogStore.append ⟨[], []⟩).Holds es := by
  induction es using List.reverseRecOn with
  | nil => exact RaftLogStore.holds_nil
  | append_singleton es e ih =>
    rw [List.foldl_append]
    exact ih.append e

variable [WireFormat]

/-- What a node sends to a peer is taken by its reader if what is left of the log for that peer takes at
most 16 MiB, less the 52 bytes around it; what it has appended to its log file is read back if every
entry takes at most 64 MiB. -/
theorem frames_accepted_iff {n : RaftNode D} (hn : n.Words) {peer : NodeId} {next : Nat}
    (hnext : n.nextIndex.lookup peer = some next) {a : AppendEntries}
    (ha : n.makeAppendEntries peer = some a) (es : List LogEntry) :
    (Wire.Accepted (.appendEntries a) ∧
      (RaftLogStore.openFile (es.foldl RaftLogStore.append ⟨[], []⟩).file).2 = es) ↔
    52 + entriesSize (n.log.drop next) ≤ Wire.maxMessageSize ∧
      ∀ e ∈ es, (Bincode.serialize e).length ≤ RaftLogStore.maxEntrySize := by
  obtain ⟨hentries, hwords⟩ := makeAppendEntries_entries hnext ha
  have hfile : (es.foldl RaftLogStore.append ⟨[], []⟩).file = RaftLogStore.frames es := by
    rw [append_frames es]
  rw [Wire.accepted_iff, WireFormat.serialize_appendEntries a (hwords hn), hentries, hfile,
    openFile_eq_iff]
  rfl

end Node

namespace Format
open Codec

theorem nat_length {n : Nat} (h : n < 2 ^ 64 - 1) : (nat.enc n).length = 8 := by
  have hlt : n < maxU64 := h
  change (if h : n < maxU64 then _ else _ : Bytes).length = 8
  rw [dif_pos hlt]
  exact leBytes_length 8 n

theorem message_appendEntries {a : AppendEntries} (h : a.Words) :
    (message.enc (.appendEntries a)).length = 52 + (a.entries.map fun e => (logEntry.enc e).length).sum := by
  have htag : ∀ t, ((uint 4).enc t).length = 4 := fun t => leBytes_length 4 t
  change ((uint 4).enc _ ++ (nat.enc a.term ++ (nat.enc a.leaderId ++ (nat.enc a.prevLogIndex ++
    (nat.enc a.prevLogTerm ++ ((nat.enc a.entries.length ++ a.entries.flatMap logEntry.enc) ++
      nat.enc a.leaderCommit)))))).length = _
  simp only [List.length_append, htag, nat_length h.term, nat_length h.leaderId, nat_length h.prevLogIndex,
    nat_length h.prevLogTerm, nat_length h.entries, nat_length h.leaderCommit, List.length_flatMap]
  omega

theorem string_le_logEntry (term : Nat) (r : LogRecord) {k v : String} (hr : r.command = .set k (.string v)) :
    (utf8 v).length ≤ (logEntry.enc ⟨term, .command r⟩).length := by
  obtain ⟨id, command, checksum⟩ := r
  obtain rfl : command = .set k (.string v) := hr
  change _ ≤ (nat.enc term ++ ((uint 4).enc 0 ++ (u64.enc id ++ (((uint 4).enc 0 ++ (string.enc k ++
    ((uint 4).enc 2 ++ (nat.enc (utf8 v).length ++ utf8 v)))) ++ u8.enc checksum)))).length
  simp only [List.length_append]
  omega

end Format

namespace Concrete

scoped instance wireFormat : WireFormat where
  serialize := Format.message.enc
  deserialize bs := (Format.message.dec bs).map Prod.fst
  deserialize_serialize m := by
    have h := Format.message.dec_enc m []
    rw [List.append_nil] at h
    rw [h, Option.map_some]
  deserialize_take m k hk := by
    rw [Format.message.dec_take m k hk, Option.map_none]
  serialize_appendEntries a ha := Format.message_appendEntries ha

end Concrete

section Concrete
open scoped Concrete

def setEntry (size : Nat) : LogEntry :=
  ⟨1, .command (LogRecord.new 0 (.set "a" (.string (String.ofList (List.replicate size 'a')))))⟩

theorem le_setEntry (size : Nat) : size ≤ (Bincode.serialize (setEntry size)).length := by
  have hsize : (utf8 (String.ofList (List.replicate size 'a'))).length = size := by
    change (String.ofList (List.replicate size 'a')).utf8ByteSize = size
    induction size with
    | zero => rfl
    | succ n ih =>
      rw [List.replicate_succ, String.ofList_cons, String.utf8ByteSize_append, ih]
      exact Nat.add_comm 1 n
  have hle : (utf8 (String.ofList (List.replicate size 'a'))).length ≤
      (Bincode.serialize (setEntry size)).length := Format.string_le_logEntry 1 _ rfl
  rwa [hsize] at hle

/-- The leader of the first election, which has not appended anything. -/
theorem first_leader : ∃ (c : Cluster Database) (n : RaftNode Database),
    Cluster.exec .default (Membership.three.start .default ⟨0, 0⟩) (firstElection ⟨0, 0⟩) = some c ∧
    c.nodes 1 = some n ∧ n.id = 1 ∧ n.currentTerm = 1 ∧ n.commitIndex = 0 ∧ n.log = [sentinel] ∧
    n.nextIndex.lookup 2 = some 1 := by
  have hrun : ((Cluster.exec .default (Membership.three.start .default ⟨0, 0⟩ : Cluster Database)
      (firstElection ⟨0, 0⟩)).bind fun c => (c.nodes 1).map fun n =>
        (n.id, n.currentTerm, n.commitIndex, n.log, n.nextIndex.lookup 2)) =
      some (1, 1, 0, [sentinel], some 1) := by
    decide +kernel
  obtain ⟨c, hc, hrun⟩ := Option.bind_eq_some_iff.mp hrun
  obtain ⟨n, hn, hrun⟩ := Option.map_eq_some_iff.mp hrun
  simp only [Prod.mk.injEq] at hrun
  obtain ⟨hid, hterm, hcommit, hlog, hnext⟩ := hrun
  exact ⟨c, n, hc, hn, hid, hterm, hcommit, hlog, hnext⟩

theorem makeAppendEntries_pushed {n : RaftNode Database} (hid : n.id = 1) (hterm : n.currentTerm = 1)
    (hcommit : n.commitIndex = 0) (hlog : n.log = [sentinel]) (hnext : n.nextIndex.lookup 2 = some 1)
    (e : LogEntry) : (n.pushLogEntry e).makeAppendEntries 2 = some ⟨1, 1, 0, 0, [e], 0⟩ := by
  have hlog' : (n.pushLogEntry e).log = [sentinel, e] := by
    change n.log ++ [e] = _
    rw [hlog]
    rfl
  have hnext' : (n.pushLogEntry e).nextIndex.lookup 2 = some 1 := hnext
  have hid' : (n.pushLogEntry e).id = 1 := hid
  have hterm' : (n.pushLogEntry e).currentTerm = 1 := hterm
  have hcommit' : (n.pushLogEntry e).commitIndex = 0 := hcommit
  rw [RaftNode.makeAppendEntries, hnext', hlog', hid', hterm', hcommit']
  rfl

theorem frames_accepted_first : ∃ (c : Cluster Database) (n : RaftNode Database),
    Cluster.exec .default (Membership.three.start .default ⟨0, 0⟩) (firstElection ⟨0, 0⟩) = some c ∧
    c.nodes 1 = some n ∧ ∃ a, (n.pushLogEntry (setEntry 3)).makeAppendEntries 2 = some a ∧
      Wire.Accepted (.appendEntries a) ∧
      (RaftLogStore.openFile ([setEntry 3].foldl RaftLogStore.append ⟨[], []⟩).file).2 = [setEntry 3] := by
  obtain ⟨c, n, hc, hn, hid, hterm, hcommit, hlog, hnext⟩ := first_leader
  have ha := makeAppendEntries_pushed hid hterm hcommit hlog hnext (setEntry 3)
  have hlog' : (n.pushLogEntry (setEntry 3)).log = [sentinel, setEntry 3] := by
    change n.log ++ [setEntry 3] = _
    rw [hlog]
    rfl
  have hwords : (n.pushLogEntry (setEntry 3)).Words := by
    refine ⟨?_, ?_, ?_, ?_, ?_⟩
    · change n.id < _
      rw [hid]
      decide
    · change n.currentTerm < _
      rw [hterm]
      decide
    · change n.commitIndex < _
      rw [hcommit]
      decide
    · rw [hlog']
      decide
    · rw [hlog']
      decide +kernel
  refine ⟨c, n, hc, hn, _, ha, (frames_accepted_iff hwords hnext ha [setEntry 3]).mpr ⟨?_, ?_⟩⟩
  · rw [hlog']
    decide +kernel
  · decide +kernel

theorem not_accepted_setEntry {size : Nat} (h : 2 ^ 24 ≤ size) :
    ¬ Wire.Accepted (.appendEntries ⟨1, 1, 0, 0, [setEntry size], 0⟩) := by
  rw [Wire.accepted_iff, WireFormat.serialize_appendEntries _ (by constructor <;> norm_num)]
  have hentry := le_setEntry size
  have hsum : entriesSize [setEntry size] = (Bincode.serialize (setEntry size)).length := List.sum_singleton
  have hmax : Wire.maxMessageSize = 2 ^ 24 := rfl
  change ¬ 52 + entriesSize [setEntry size] ≤ _
  omega

theorem not_read_setEntry {size : Nat} (h : 2 ^ 26 < size) :
    (RaftLogStore.openFile ([setEntry size].foldl RaftLogStore.append ⟨[], []⟩).file).2 ≠ [setEntry size] := by
  rw [append_frames]
  intro hopen
  have hle : (Bincode.serialize (setEntry size)).length ≤ RaftLogStore.maxEntrySize :=
    (openFile_eq_iff _).mp hopen _ (List.mem_singleton.mpr rfl)
  have hentry := le_setEntry size
  have hmax : RaftLogStore.maxEntrySize = 2 ^ 26 := rfl
  omega

/-- A command of 16 MiB makes a message that the reader gives the connection up for, and an entry of more
than 64 MiB is not read back from the log file. -/
theorem frame_too_large : ∃ (c : Cluster Database) (n : RaftNode Database),
    Cluster.exec .default (Membership.three.start .default ⟨0, 0⟩) (firstElection ⟨0, 0⟩) = some c ∧
    c.nodes 1 = some n ∧
    (∃ a, (n.pushLogEntry (setEntry (2 ^ 24))).makeAppendEntries 2 = some a ∧
      ¬ Wire.Accepted (.appendEntries a)) ∧
    (RaftLogStore.openFile ([setEntry (2 ^ 26 + 1)].foldl RaftLogStore.append ⟨[], []⟩).file).2 ≠
      [setEntry (2 ^ 26 + 1)] := by
  obtain ⟨c, n, hc, hn, hid, hterm, hcommit, hlog, hnext⟩ := first_leader
  exact ⟨c, n, hc, hn, ⟨_, makeAppendEntries_pushed hid hterm hcommit hlog hnext _,
    not_accepted_setEntry le_rfl⟩, not_read_setEntry (Nat.lt_succ_self _)⟩

end Concrete
end KvRaft
