import KvRaft.Lib.Codec
import KvRaft.Lsm.RecordSpec
import KvRaft.Raft.LogStore

/-! The format `bincode` 1.3 uses for log entries and messages: fields in order, integers in eight bytes, the
index of an enum variant in four, strings behind their length. -/

namespace KvRaft.Format
open Codec

def string : Codec String := Codec.bytes.xmap utf8 fromUtf8 fromUtf8_utf8

def u64 : Codec UInt64 := (uint 8).xmap (fun v => ⟨v.toNat, v.toNat_lt⟩)
  (fun n => some (UInt64.ofNat n)) fun _ => congrArg some UInt64.ofNat_toNat

def u8 : Codec UInt8 := (uint 1).xmap (fun v => ⟨v.toNat, v.toNat_lt⟩)
  (fun n => some (UInt8.ofNat n)) fun _ => congrArg some UInt8.ofNat_toNat

def value : Codec Value := (variants u64 u64 string).xmap
  (fun
    | .int v => .inl v.toUInt64
    | .float v => .inr (.inl v.bits)
    | .string v => .inr (.inr v))
  (fun
    | .inl v => some (.int v.toInt64)
    | .inr (.inl v) => some (.float (F64.ofBits v))
    | .inr (.inr v) => some (.string v))
  fun v => by
    cases v with
    | int => rfl
    | float v => exact congrArg (some ∘ Value.float) v.ofBits_bits
    | string => rfl

def command : Codec Command := (variants (pair string value) string empty).xmap
  (fun
    | .set k v => .inl (k, v)
    | .delete k => .inr (.inl k))
  (fun
    | .inl (k, v) => some (.set k v)
    | .inr (.inl k) => some (.delete k)
    | .inr (.inr e) => nomatch e)
  fun c => by cases c <;> rfl

def logRecord : Codec LogRecord := (pair u64 (pair command u8)).xmap
  (fun r => (r.id, r.command, r.checksum)) (fun (i, c, s) => some ⟨i, c, s⟩) fun _ => rfl

def payload : Codec EntryPayload := (variants logRecord (pair nat string) nat).xmap
  (fun
    | .command r => .inl r
    | .addNode id addr => .inr (.inl (id, addr))
    | .removeNode id => .inr (.inr id))
  (fun
    | .inl r => some (.command r)
    | .inr (.inl (id, addr)) => some (.addNode id addr)
    | .inr (.inr id) => some (.removeNode id))
  fun p => by cases p <;> rfl

def logEntry : Codec LogEntry := (pair nat payload).xmap (fun e => (e.term, e.payload))
  (fun (t, p) => some ⟨t, p⟩) fun _ => rfl

/-- `bincode::deserialize` does not mind what follows the value. -/
@[reducible] def bincode : Bincode where
  serialize := logEntry.enc
  deserialize bs := (logEntry.dec bs).map Prod.fst
  deserialize_serialize e := by
    have h := logEntry.dec_enc e []
    rw [List.append_nil] at h
    rw [h, Option.map_some]
  deserialize_take e k hk := by
    rw [logEntry.dec_take e k hk, Option.map_none]

def bool : Codec Bool := (uint 1).xmap (fun b => if b then 1 else 0)
  (fun n => if n = 0 then some false else if n = 1 then some true else none) fun b => by cases b <;> rfl

def option {α : Type} (A : Codec α) : Codec (Option α) :=
  ((Alternatives.none.first A).first unit |>.codec 1 (by decide)).xmap
    (fun
      | none => .inl ()
      | some a => .inr (.inl a))
    (fun
      | .inl _ => some none
      | .inr (.inl a) => some (some a)
      | .inr (.inr e) => nomatch e)
    fun a => by cases a <;> rfl

def requestVote : Codec RequestVote := (pair nat (pair nat (pair nat nat))).xmap
  (fun r => (r.term, r.candidateId, r.lastLogIndex, r.lastLogTerm)) (fun (t, c, i, l) => some ⟨t, c, i, l⟩)
  fun _ => rfl

def requestVoteResponse : Codec RequestVoteResponse := (pair nat (pair nat bool)).xmap
  (fun r => (r.term, r.voterId, r.voteGranted)) (fun (t, v, g) => some ⟨t, v, g⟩) fun _ => rfl

def appendEntries : Codec AppendEntries :=
  (pair nat (pair nat (pair nat (pair nat (pair (list logEntry) nat))))).xmap
    (fun a => (a.term, a.leaderId, a.prevLogIndex, a.prevLogTerm, a.entries, a.leaderCommit))
    (fun (t, l, i, p, es, c) => some ⟨t, l, i, p, es, c⟩) fun _ => rfl

def appendEntriesResponse : Codec AppendEntriesResponse := (pair nat (pair nat (pair bool nat))).xmap
  (fun r => (r.term, r.followerId, r.success, r.matchIndex)) (fun (t, f, s, m) => some ⟨t, f, s, m⟩)
  fun _ => rfl

def clientResponse : Codec ClientResponse :=
  (pair nat (pair bool (pair (option value) (pair string (pair (option nat) (pair nat (pair string
    (pair nat (list nat))))))))).xmap
    (fun r => (r.requestId, r.success, r.value, r.message, r.leaderId, r.nodeId, r.role, r.term, r.peers))
    (fun (i, s, v, m, l, n, r, t, p) => some ⟨i, s, v, m, l, n, r, t, p⟩) fun _ => rfl

def message : Codec Message :=
  ((((((((((((Alternatives.none.first unit).first nat).first (pair nat string)).first clientResponse).first
    (pair nat nat)).first (pair nat (pair nat string))).first (pair nat (pair nat command))).first
    command).first appendEntriesResponse).first appendEntries).first requestVoteResponse).first
    requestVote |>.codec 4 (by decide)).xmap
  (fun
    | .requestVote r => .inl r
    | .requestVoteResponse r => .inr (.inl r)
    | .appendEntries a => .inr (.inr (.inl a))
    | .appendEntriesResponse r => .inr (.inr (.inr (.inl r)))
    | .clientCommand c => .inr (.inr (.inr (.inr (.inl c))))
    | .clientRequest i j c => .inr (.inr (.inr (.inr (.inr (.inl (i, j, c))))))
    | .clientQuery i j k => .inr (.inr (.inr (.inr (.inr (.inr (.inl (i, j, k)))))))
    | .statusQuery i j => .inr (.inr (.inr (.inr (.inr (.inr (.inr (.inl (i, j))))))))
    | .clientResponse r => .inr (.inr (.inr (.inr (.inr (.inr (.inr (.inr (.inl r))))))))
    | .addNode i a => .inr (.inr (.inr (.inr (.inr (.inr (.inr (.inr (.inr (.inl (i, a))))))))))
    | .removeNode i => .inr (.inr (.inr (.inr (.inr (.inr (.inr (.inr (.inr (.inr (.inl i))))))))))
    | .timeout => .inr (.inr (.inr (.inr (.inr (.inr (.inr (.inr (.inr (.inr (.inr (.inl ()))))))))))))
  (fun
    | .inl r => some (.requestVote r)
    | .inr (.inl r) => some (.requestVoteResponse r)
    | .inr (.inr (.inl a)) => some (.appendEntries a)
    | .inr (.inr (.inr (.inl r))) => some (.appendEntriesResponse r)
    | .inr (.inr (.inr (.inr (.inl c)))) => some (.clientCommand c)
    | .inr (.inr (.inr (.inr (.inr (.inl (i, j, c)))))) => some (.clientRequest i j c)
    | .inr (.inr (.inr (.inr (.inr (.inr (.inl (i, j, k))))))) => some (.clientQuery i j k)
    | .inr (.inr (.inr (.inr (.inr (.inr (.inr (.inl (i, j)))))))) => some (.statusQuery i j)
    | .inr (.inr (.inr (.inr (.inr (.inr (.inr (.inr (.inl r)))))))) => some (.clientResponse r)
    | .inr (.inr (.inr (.inr (.inr (.inr (.inr (.inr (.inr (.inl (i, a)))))))))) => some (.addNode i a)
    | .inr (.inr (.inr (.inr (.inr (.inr (.inr (.inr (.inr (.inr (.inl i)))))))))) => some (.removeNode i)
    | .inr (.inr (.inr (.inr (.inr (.inr (.inr (.inr (.inr (.inr (.inr (.inl _))))))))))) => some .timeout
    | .inr (.inr (.inr (.inr (.inr (.inr (.inr (.inr (.inr (.inr (.inr (.inr e))))))))))) => nomatch e)
  fun m => by cases m <;> rfl

end KvRaft.Format

namespace KvRaft.Concrete

scoped instance bincode : Bincode := Format.bincode

end KvRaft.Concrete
