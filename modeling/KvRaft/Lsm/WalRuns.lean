import KvRaft.Lsm.TornWal

/-! Write-ahead logs read back whole, and what is left of one to which some appends failed. -/

namespace KvRaft
open Bytes LogRecord

section Reading
variable [FloatText]

/-- `read_from` until it returns no record: each record with the bytes that were read for it. -/
def readUntilNone (bs : Bytes) : Except Fault (List (LogRecord × Bytes)) :=
  match h : LogRecord.readFrom bs with
  | .error e => .error e
  | .ok none => .ok []
  | .ok (some (record, rest)) =>
    have := readFrom_length h
    (readUntilNone rest).map ((record, bs.take (bs.length - rest.length)) :: ·)
termination_by bs.length

theorem readUntilNone_nil : readUntilNone [] = .ok [] := by
  rw [readUntilNone]
  rfl

theorem readUntilNone_cons {bs rest : Bytes} {r : LogRecord} (h : LogRecord.readFrom bs = .ok (some (r, rest))) :
    readUntilNone bs = (readUntilNone rest).map ((r, bs.take (bs.length - rest.length)) :: ·) := by
  rw [readUntilNone]
  split
  · next e he => rw [h] at he; cases he
  · next hn => rw [h] at hn; cases hn
  · next r' rest' hr =>
    rw [h] at hr
    cases hr
    rfl

theorem readUntilNone_bytesOf (rs : List LogRecord) (hrs : ∀ r ∈ rs, Logged r) :
    readUntilNone (bytesOf rs) = .ok (rs.map fun r => (r, r.writeTo)) := by
  induction rs with
  | nil => exact readUntilNone_nil
  | cons r rs ih =>
    have hlen : (r.writeTo ++ bytesOf rs).length - (bytesOf rs).length = r.writeTo.length := by
      rw [List.length_append, Nat.add_sub_cancel]
    rw [bytesOf_cons, readUntilNone_cons ((hrs r List.mem_cons_self).readFrom (bytesOf rs)), hlen,
      List.take_left, ih fun x hx => hrs x (List.mem_cons_of_mem _ hx)]
    rfl

/-- Records written one after another are read back one after another, each from its own bytes. -/
theorem wal_round_trip (cs : List (UInt64 × Command)) (hcs : ∀ p ∈ cs, p.2.Fits) :
    readUntilNone (bytesOf (cs.map fun p => LogRecord.new p.1 p.2)) =
      .ok ((cs.map fun p => LogRecord.new p.1 p.2).map fun r => (r, r.writeTo)) := by
  apply readUntilNone_bytesOf
  intro r hr
  obtain ⟨p, hp, rfl⟩ := List.mem_map.mp hr
  exact ⟨p.1, p.2, rfl, hcs p hp⟩

end Reading

section Failing
variable [FloatText]

namespace Logger

/-- A call of `Logger::log`, and how many bytes of its record it leaves when it fails. -/
structure Call where
  command : Command
  stops : Option Nat

/-- A call on the file and the next id. A failed one neither takes its bytes back nor uses up the id. -/
def call (s : Bytes × UInt64) (x : Call) : Bytes × UInt64 :=
  match x.stops with
  | none => log s x.command
  | some k => (s.1 ++ (LogRecord.new s.2 x.command).writeTo.take k, s.2)

def callAll (s : Bytes × UInt64) (xs : List Call) : Bytes × UInt64 := xs.foldl call s

def acknowledged : Bytes × UInt64 → List Call → List LogRecord
  | _, [] => []
  | s, x :: xs => match x.stops with
    | none => LogRecord.new s.2 x.command :: acknowledged (call s x) xs
    | some _ => acknowledged (call s x) xs

/-- After calls on a log of the records `rs`, a reopened log still has these and the acknowledged ones. -/
def Keeps (rs : List LogRecord) (xs : List Call) : Prop :=
  let s := (bytesOf rs, nextId rs)
  (rs ++ acknowledged s xs).Sublist (readRecords (openFile (callAll s xs).1).1)

/-- No call returns `Ok` behind one that failed and left bytes. -/
def Unspoilt : List Call → Prop
  | [] => True
  | x :: xs => (∀ k, x.stops = some (k + 1) → ∀ y ∈ xs, y.stops ≠ none) ∧ Unspoilt xs

theorem acknowledged_nil {xs : List Call} (h : ∀ y ∈ xs, y.stops ≠ none) (s : Bytes × UInt64) :
    acknowledged s xs = [] := by
  induction xs generalizing s with
  | nil => rfl
  | cons x xs ih =>
    obtain ⟨k, hk⟩ := Option.ne_none_iff_exists'.mp (h x List.mem_cons_self)
    rw [acknowledged, hk]
    exact ih (fun y hy => h y (List.mem_cons_of_mem _ hy)) _

theorem prefix_callAll (s : Bytes × UInt64) (xs : List Call) : s.1 <+: (callAll s xs).1 := by
  induction xs generalizing s with
  | nil => exact List.prefix_refl _
  | cons x xs ih =>
    refine List.IsPrefix.trans ?_ (ih (call s x))
    unfold call
    split
    · exact List.prefix_append _ _
    · exact List.prefix_append _ _

theorem callAll_unspoilt (rs : List LogRecord) (n : UInt64) {xs : List Call} (hxs : Unspoilt xs) :
    ∃ tail, (callAll (bytesOf rs, n) xs).1 = bytesOf (rs ++ acknowledged (bytesOf rs, n) xs) ++ tail := by
  induction xs generalizing rs n with
  | nil => exact ⟨[], by rw [acknowledged, List.append_nil, List.append_nil]; rfl⟩
  | cons x xs ih =>
    obtain ⟨hx, hxs⟩ := hxs
    rcases hstops : x.stops with _ | k
    · have hcall : call (bytesOf rs, n) x = (bytesOf (rs ++ [LogRecord.new n x.command]), n + 1) := by
        rw [call, hstops, bytesOf_append, bytesOf_cons]
        exact congrArg (fun tail => (bytesOf rs ++ tail, n + 1)) (List.append_nil _).symm
      obtain ⟨tail, htail⟩ := ih (rs ++ [LogRecord.new n x.command]) (n + 1) hxs
      refine ⟨tail, ?_⟩
      rw [acknowledged, hstops, callAll, List.foldl_cons, hcall]
      rw [List.append_assoc] at htail
      exact htail
    · cases k with
      | zero =>
        have hcall : call (bytesOf rs, n) x = (bytesOf rs, n) := by
          rw [call, hstops]
          exact congrArg (fun file => (file, n)) (List.append_nil _)
        rw [acknowledged, hstops, callAll, List.foldl_cons, hcall]
        exact ih rs n hxs
      | succ k =>
        -- nothing is acknowledged behind the bytes that are left
        have hnone := acknowledged_nil (hx k hstops) (call (bytesOf rs, n) x)
        obtain ⟨tail, htail⟩ := prefix_callAll (bytesOf rs, n) (x :: xs)
        refine ⟨tail, ?_⟩
        rw [acknowledged, hstops]
        dsimp only
        rw [hnone, List.append_nil]
        exact htail.symm

theorem acknowledged_logged {xs : List Call} (hfits : ∀ x ∈ xs, x.command.Fits) (s : Bytes × UInt64) :
    ∀ r ∈ acknowledged s xs, Logged r := by
  induction xs generalizing s with
  | nil => exact fun r hr => absurd hr List.not_mem_nil
  | cons x xs ih =>
    have htail := ih (fun y hy => hfits y (List.mem_cons_of_mem _ hy)) (call s x)
    intro r hr
    unfold acknowledged at hr
    split at hr
    · rcases List.mem_cons.mp hr with rfl | hr
      · exact ⟨s.2, x.command, rfl, hfits x List.mem_cons_self⟩
      · exact htail r hr
    · exact htail r hr

end Logger

/-- Acknowledged records survive as long as none of them is written behind what a failed call left. -/
theorem failed_append_keeps {rs : List LogRecord} (hrs : ∀ r ∈ rs, Logged r) {xs : List Logger.Call}
    (hfits : ∀ x ∈ xs, x.command.Fits) (hxs : Logger.Unspoilt xs) : Logger.Keeps rs xs := by
  have hall : ∀ r ∈ rs ++ Logger.acknowledged (bytesOf rs, nextId rs) xs, Logged r := by
    intro r hr
    rcases List.mem_append.mp hr with hr | hr
    · exact hrs r hr
    · exact Logger.acknowledged_logged hfits _ r hr
  obtain ⟨tail, htail⟩ := Logger.callAll_unspoilt rs (nextId rs) hxs
  obtain ⟨kept, fuel, -, hread⟩ := readRecords_openFile hall tail
  rw [Logger.Keeps, htail, hread]
  exact List.sublist_append_left _ _

end Failing

section Concrete
open scoped Concrete

theorem wal_round_trip_pair :
    readUntilNone (bytesOf [LogRecord.new 0 (.set "a" (.int (-1))), LogRecord.new 1 (.delete "a")]) =
      .ok [(LogRecord.new 0 (.set "a" (.int (-1))), (LogRecord.new 0 (.set "a" (.int (-1)))).writeTo),
        (LogRecord.new 1 (.delete "a"), (LogRecord.new 1 (.delete "a")).writeTo)] :=
  wal_round_trip [(0, .set "a" (.int (-1))), (1, .delete "a")] (by decide)

theorem failed_append_keeps_first :
    Logger.Keeps [] [⟨.set "a" (.int 1), none⟩, ⟨.delete "a", some 3⟩] :=
  failed_append_keeps (fun _ hr => absurd hr List.not_mem_nil) (by decide)
    ⟨fun _ h => absurd h (Option.some_ne_none _).symm, fun _ _ y hy => absurd hy List.not_mem_nil, trivial⟩

/-- Three bytes of the first record, which failed, hide the second, which did not. -/
theorem failed_append_loses_next :
    3 < (LogRecord.new 0 (.set "a" (.int 1))).writeTo.length ∧
    ¬ Logger.Keeps [] [⟨.set "a" (.int 1), some 3⟩, ⟨.set "b" (.int 2), none⟩] := by
  unfold Logger.Keeps
  decide +kernel

end Concrete
end KvRaft
