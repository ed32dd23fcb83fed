import KvRaft.Lib.Reader
import KvRaft.Lsm.Database

/-! A write-ahead log that was cut short. Behind the id of a record the cut is found and the record cut
off; inside the id it looks like the end of the file and stays in front of whatever is logged. -/

namespace KvRaft
open Bytes LogRecord

section Reading

namespace LogRecord

theorem bind_eq_ok {ε α β : Type} {x : Except ε α} {f : α → Except ε β} {b : β} (h : x.bind f = .ok b) :
    ∃ a, x = .ok a ∧ f a = .ok b := by
  cases x with
  | error e => cases h
  | ok a => exact ⟨a, rfl, h⟩

theorem readBytes_eq_ok {k : Nat} {bs xs rest : Bytes} (h : readBytes k bs = .ok (xs, rest)) :
    bs = xs ++ rest ∧ xs.length = k := by
  unfold readBytes at h
  cases hx : readExact k bs with
  | none =>
    rw [hx] at h
    cases h
  | some r =>
    rw [hx] at h
    obtain rfl := Except.ok.inj h
    exact readExact_eq_some hx

theorem readBytes_steady (k : Nat) : Steady (readBytes k) := by
  refine ⟨fun bs xs rest h => ?_, fun bs xs rest ys h => ?_⟩
  · rw [(readBytes_eq_ok h).1]
    exact List.suffix_append _ _
  · obtain ⟨rfl, hlen⟩ := readBytes_eq_ok h
    rw [List.append_assoc, readBytes_append hlen]

theorem readU8_eq_ok {bs rest : Bytes} {b : UInt8} (h : readU8 bs = .ok (b, rest)) : bs = b :: rest := by
  cases bs with
  | nil => cases h
  | cons x bs => cases h; rfl

theorem readU8_steady : Steady readU8 := by
  refine ⟨fun bs b rest h => ?_, fun bs b rest ys h => ?_⟩
  · rw [readU8_eq_ok h]
    exact List.suffix_cons ..
  · rw [readU8_eq_ok h]
    rfl

theorem readU32_steady : Steady readU32 :=
  (readBytes_steady 4).bind fun w => .of_except (.ok (leNat w))

theorem readString_steady (k : Nat) (field : String) : Steady (readString k field) :=
  (readBytes_steady k).bind fun w => .of_except (readUtf8 w field)

theorem readSet_steady [FloatText] : Steady readSet := by
  refine readU8_steady.bind fun code => .bind_except _ fun dataType => readU32_steady.bind fun keyLen =>
    readU32_steady.bind fun valueLen => (readString_steady keyLen "key").bind fun key =>
    (readBytes_steady valueLen).bind fun w => .bind_except (readUtf8 w "value") fun text => ?_
  cases dataType with
  | int => cases parseI64 text with
    | none => exact .fail _
    | some v => exact .of_except (.ok _)
  | float => cases FloatText.parse text with
    | none => exact .fail _
    | some v => exact .of_except (.ok _)
  | string => exact .of_except (.ok _)

theorem readDelete_steady : Steady readDelete := by
  refine readU8_steady.bind fun dataType => ?_
  by_cases hzero : dataType = 0
  · simp only [ne_eq, hzero, not_true_eq_false, if_false]
    refine readU32_steady.bind fun keyLen => ?_
    dsimp only
    exact readU32_steady.bind fun _ => (readString_steady keyLen "key").bind fun key =>
      .of_except (.ok (Command.delete key))
  · simp only [ne_eq, hzero, not_false_eq_true, if_true]
    exact .fail _

def readCommand [FloatText] (code : UInt8) (bs : Bytes) : Except Fault (Command × Bytes) :=
  if code = 1 then readSet bs
  else if code = 2 then readDelete bs
  else .error (.invalidData "invalid command")

def checked [FloatText] (id : UInt64) (command : Command) (checksum : UInt8) : Except Fault LogRecord :=
  if calculateChecksum id command ≠ checksum then .error (.invalidData "checksum mismatch")
  else .ok ⟨id, command, checksum⟩

def readAfterId [FloatText] (id : UInt64) (bs : Bytes) : Except Fault (LogRecord × Bytes) :=
  (readU8 bs).bind fun r => (readCommand r.1 r.2).bind fun c => (readU8 c.2).bind fun k =>
    (checked id c.1 k.1).map fun record => (record, k.2)

theorem readFrom_eq [FloatText] {bs w rest : Bytes} (h : readExact 8 bs = some (w, rest)) :
    readFrom bs = (readAfterId (UInt64.ofNat (leNat w)) rest).map some := by
  rw [readFrom, h]
  cases hcode : readU8 rest with
  | error e => simp only [readAfterId, hcode, bind, Except.bind, Except.map]
  | ok r =>
    obtain ⟨code, rest⟩ := r
    simp only [readAfterId, hcode, bind, Except.bind]
    -- the same for each way in which the command may be read
    have hend : ∀ x : Except Fault (Command × Bytes),
        (x.bind fun c => (readU8 c.2).bind fun k =>
          if calculateChecksum (UInt64.ofNat (leNat w)) c.1 ≠ k.1 then
            .error (.invalidData "checksum mismatch")
          else .ok (some (⟨UInt64.ofNat (leNat w), c.1, k.1⟩, k.2))) =
        (x.bind fun c => (readU8 c.2).bind fun k =>
          (checked (UInt64.ofNat (leNat w)) c.1 k.1).map fun record => (record, k.2)).map some := by
      intro x
      cases x with
      | error e => rfl
      | ok c =>
        simp only [Except.bind]
        cases readU8 c.2 with
        | error e => rfl
        | ok k =>
          simp only [checked]
          split_ifs <;> rfl
    have hend := hend (readCommand code rest)
    unfold readCommand at hend ⊢
    by_cases hset : code = 1
    · simp only [hset, if_true] at hend ⊢
      exact hend
    · by_cases hdelete : code = 2
      · simp only [hdelete, if_true] at hend ⊢
        exact hend
      · simp only [hset, hdelete, if_false] at hend ⊢
        exact hend

theorem readAfterId_steady [FloatText] (id : UInt64) : Steady (readAfterId id) := by
  refine readU8_steady.bind fun code => ?_
  dsimp only
  have hcommand : Steady (readCommand code) := .ite readSet_steady (.ite readDelete_steady (.fail _))
  refine hcommand.bind fun command => ?_
  dsimp only
  exact readU8_steady.bind fun checksum => .of_except (checked id command checksum)

/-! Where the key of a delete stands. -/

theorem readU32_eq_ok {bs rest : Bytes} {n : Nat} (h : readU32 bs = .ok (n, rest)) :
    ∃ w, bs = w ++ rest ∧ w.length = 4 := by
  obtain ⟨⟨w, rest'⟩, hw, h⟩ := bind_eq_ok h
  cases h
  exact ⟨w, readBytes_eq_ok hw⟩

theorem readString_eq_ok {k : Nat} {field : String} {bs rest : Bytes} {s : String}
    (h : readString k field bs = .ok (s, rest)) : bs = utf8 s ++ rest := by
  obtain ⟨⟨w, rest'⟩, hw, h⟩ := bind_eq_ok h
  obtain ⟨t, ht, h⟩ := bind_eq_ok h
  cases h
  obtain ⟨rfl, -⟩ := readBytes_eq_ok hw
  rw [utf8_eq_of_fromUtf8 (by
    unfold readUtf8 at ht
    cases hx : fromUtf8 w with
    | none => simp only [hx] at ht; cases ht
    | some t' => simp only [hx] at ht; cases ht; rfl)]

theorem readSet_ne_delete [FloatText] {bs rest : Bytes} {k : String} : readSet bs ≠ .ok (.delete k, rest) := by
  intro h
  obtain ⟨⟨code, bs₁⟩, -, h⟩ := bind_eq_ok h
  obtain ⟨dataType, -, h⟩ := bind_eq_ok h
  obtain ⟨⟨keyLen, bs₂⟩, -, h⟩ := bind_eq_ok h
  obtain ⟨⟨valueLen, bs₃⟩, -, h⟩ := bind_eq_ok h
  obtain ⟨⟨key, bs₄⟩, -, h⟩ := bind_eq_ok h
  obtain ⟨⟨w, bs₅⟩, -, h⟩ := bind_eq_ok h
  obtain ⟨text, -, h⟩ := bind_eq_ok h
  cases dataType with
  | int =>
    dsimp only at h
    cases hx : parseI64 text with
    | none => rw [hx] at h; cases h
    | some v => rw [hx] at h; cases h
  | float =>
    dsimp only at h
    cases hx : FloatText.parse text with
    | none => rw [hx] at h; cases h
    | some v => rw [hx] at h; cases h
  | string => cases h

theorem readDelete_eq_ok {bs rest : Bytes} {c : Command} (h : readDelete bs = .ok (c, rest)) :
    ∃ k w, c = .delete k ∧ bs = w ++ (utf8 k ++ rest) ∧ w.length = 9 := by
  obtain ⟨⟨dataType, bs₁⟩, hdata, h⟩ := bind_eq_ok h
  have hbs : bs = dataType :: bs₁ := readU8_eq_ok hdata
  by_cases hzero : dataType = 0
  · simp only [ne_eq, hzero, not_true_eq_false, if_false] at h
    obtain ⟨⟨keyLen, bs₂⟩, hkey, h⟩ := bind_eq_ok h
    obtain ⟨⟨valueLen, bs₃⟩, hvalue, h⟩ := bind_eq_ok h
    obtain ⟨⟨k, bs₄⟩, hstring, h⟩ := bind_eq_ok h
    cases h
    obtain ⟨w, rfl, hw⟩ := readU32_eq_ok hkey
    obtain ⟨w', rfl, hw'⟩ := readU32_eq_ok hvalue
    refine ⟨k, dataType :: (w ++ w'), rfl, ?_, ?_⟩
    · have hkey : bs₃ = utf8 k ++ bs₄ := readString_eq_ok hstring
      rw [hbs, hkey, List.cons_append, List.append_assoc]
    · rw [List.length_cons, List.length_append, hw, hw']
  · simp only [ne_eq, hzero, not_false_eq_true, if_true] at h
    cases h

theorem readFrom_length [FloatText] {bs rest : Bytes} {r : LogRecord} (h : readFrom bs = .ok (some (r, rest))) :
    rest.length < bs.length := by
  cases hid : readExact 8 bs with
  | none =>
    rw [readFrom, hid] at h
    cases h
  | some p =>
    obtain ⟨w, bs₁⟩ := p
    obtain ⟨rfl, hw⟩ := readExact_eq_some hid
    rw [readFrom_eq hid] at h
    obtain ⟨⟨r', rest'⟩, h, heq⟩ := bind_eq_ok (f := fun a => .ok (some a)) h
    cases heq
    have hle := ((readAfterId_steady _).suffix _ _ _ h).length_le
    rw [List.length_append]
    omega

theorem readFrom_delete [FloatText] {bs rest : Bytes} {r : LogRecord} {k : String} (hr : r.command = .delete k)
    (h : readFrom bs = .ok (some (r, rest))) : utf8 k <+: bs.drop 18 := by
  cases hid : readExact 8 bs with
  | none =>
    rw [readFrom, hid] at h
    cases h
  | some p =>
    obtain ⟨w, bs₁⟩ := p
    obtain ⟨rfl, hw⟩ := readExact_eq_some hid
    rw [readFrom_eq hid] at h
    obtain ⟨⟨r', rest'⟩, h, heq⟩ := bind_eq_ok (f := fun a => .ok (some a)) h
    cases heq
    obtain ⟨⟨code, bs₂⟩, hcode, h⟩ := bind_eq_ok h
    obtain ⟨⟨c, bs₃⟩, hcommand, h⟩ := bind_eq_ok h
    obtain ⟨⟨checksum, bs₄⟩, -, h⟩ := bind_eq_ok h
    obtain ⟨r'', hchecked, h⟩ := bind_eq_ok (f := fun record => .ok (record, bs₄)) h
    cases h
    have hc : c = .delete k := by
      unfold checked at hchecked
      split_ifs at hchecked
      cases hchecked
      exact hr
    have hbs₁ : bs₁ = code :: bs₂ := readU8_eq_ok hcode
    unfold readCommand at hcommand
    split_ifs at hcommand
    · exact absurd (hc ▸ hcommand) readSet_ne_delete
    · obtain ⟨k', w', hk', hbs₂, hw'⟩ := readDelete_eq_ok hcommand
      have hbs₂ : bs₂ = w' ++ (utf8 k' ++ bs₃) := hbs₂
      obtain rfl : k = k' := Command.delete.inj (hc.symm.trans hk')
      refine ⟨bs₃, ?_⟩
      have hsplit : w ++ bs₁ = (w ++ code :: w') ++ (utf8 k ++ bs₃) := by
        rw [hbs₁, hbs₂, List.append_assoc, List.cons_append]
      rw [hsplit, List.drop_left' (by rw [List.length_append, List.length_cons, hw, hw'])]

end LogRecord
end Reading

section Scanning
variable [FloatText]

def Logged (r : LogRecord) : Prop := ∃ id c, r = LogRecord.new id c ∧ c.Fits

def bytesOf (rs : List LogRecord) : Bytes := rs.flatMap writeTo

theorem bytesOf_append (rs rs' : List LogRecord) : bytesOf (rs ++ rs') = bytesOf rs ++ bytesOf rs' :=
  List.flatMap_append

theorem bytesOf_cons (r : LogRecord) (rs : List LogRecord) : bytesOf (r :: rs) = r.writeTo ++ bytesOf rs :=
  List.flatMap_cons

theorem Logged.readFrom {r : LogRecord} (h : Logged r) (rest : Bytes) :
    LogRecord.readFrom (r.writeTo ++ rest) = .ok (some (r, rest)) := by
  obtain ⟨id, c, rfl, hc⟩ := h
  exact readFrom_writeTo id hc rest

theorem writeTo_length (r : LogRecord) : 8 ≤ r.writeTo.length := by
  simp only [writeTo, List.length_append, leBytes_length]
  omega

theorem length_le_bytesOf (rs : List LogRecord) : rs.length ≤ (bytesOf rs).length := by
  induction rs with
  | nil => exact Nat.zero_le _
  | cons r rs ih =>
    have := writeTo_length r
    rw [bytesOf_cons, List.length_append, List.length_cons]
    omega

theorem scan_append (rs : List LogRecord) (hrs : ∀ r ∈ rs, Logged r) (tail : Bytes) (fuel : Nat) :
    Logger.scan (rs.length + fuel) (bytesOf rs ++ tail) =
      (rs ++ (Logger.scan fuel tail).1, (Logger.scan fuel tail).2) := by
  induction rs with
  | nil => rw [List.length_nil, Nat.zero_add]; rfl
  | cons r rs ih =>
    rw [bytesOf_cons, List.append_assoc, List.length_cons, Nat.add_right_comm, Logger.scan,
      (hrs r (List.mem_cons_self ..)).readFrom]
    dsimp only
    rw [ih fun x hx => hrs x (List.mem_cons_of_mem _ hx)]
    rfl

theorem scan_bytesOf (rs : List LogRecord) (hrs : ∀ r ∈ rs, Logged r) (tail : Bytes) :
    ∃ fuel, tail.length ≤ fuel ∧ Logger.scan (bytesOf rs ++ tail).length (bytesOf rs ++ tail) =
      (rs ++ (Logger.scan fuel tail).1, (Logger.scan fuel tail).2) := by
  have hle := length_le_bytesOf rs
  refine ⟨(bytesOf rs ++ tail).length - rs.length, ?_, ?_⟩
  · rw [List.length_append]
    omega
  · have hfuel : (bytesOf rs ++ tail).length = rs.length + ((bytesOf rs ++ tail).length - rs.length) := by
      rw [List.length_append]
      omega
    conv_lhs => rw [hfuel]
    exact scan_append rs hrs tail _

def nextId (rs : List LogRecord) : UInt64 :=
  match rs.getLast? with
  | some r => r.id + 1
  | none => 0

theorem scan_short {tail : Bytes} (h : tail.length < 8) (fuel : Nat) : Logger.scan fuel tail = ([], none) := by
  cases fuel with
  | zero => rfl
  | succ fuel => rw [Logger.scan, LogRecord.readFrom, readExact_short h]

theorem scan_bad {tail : Bytes} {f : Fault} (h : LogRecord.readFrom tail = .error f) {fuel : Nat}
    (hfuel : tail.length ≤ fuel) (hne : tail ≠ []) : Logger.scan fuel tail = ([], some tail) := by
  obtain ⟨fuel, rfl⟩ : ∃ k, fuel = k + 1 := ⟨fuel - 1, by
    have := List.length_pos_iff.mpr hne
    omega⟩
  rw [Logger.scan, h]

section Opening
variable {rs : List LogRecord} (hrs : ∀ r ∈ rs, Logged r)
include hrs

/-- Fewer than eight bytes at the end are taken for the end of the file and stay there. -/
theorem openFile_short (tail : Bytes) (h : tail.length < 8) :
    Logger.openFile (bytesOf rs ++ tail) = (bytesOf rs ++ tail, nextId rs) ∧
      Logger.readRecords (bytesOf rs ++ tail) = rs := by
  obtain ⟨fuel, -, hscan⟩ := scan_bytesOf rs hrs tail
  rw [scan_short h, List.append_nil] at hscan
  constructor
  · rw [Logger.openFile, hscan]
    rfl
  · rw [Logger.readRecords, hscan]

theorem openFile_bad {tail : Bytes} {f : Fault} (h : LogRecord.readFrom tail = .error f) (hne : tail ≠ []) :
    Logger.openFile (bytesOf rs ++ tail) = (bytesOf rs, nextId rs) := by
  obtain ⟨fuel, hfuel, hscan⟩ := scan_bytesOf rs hrs tail
  rw [scan_bad h hfuel hne, List.append_nil] at hscan
  rw [Logger.openFile, hscan]
  have hlen : (bytesOf rs ++ tail).length - tail.length = (bytesOf rs).length := by
    rw [List.length_append, Nat.add_sub_cancel]
  dsimp only
  rw [hlen, List.take_left]
  rfl

end Opening

/-! What a cut leaves. -/

namespace Logger

/-- `Logger::log`, on the file and the next id. -/
def log (s : Bytes × UInt64) (c : Command) : Bytes × UInt64 :=
  (s.1 ++ (LogRecord.new s.2 c).writeTo, s.2 + 1)

def logAll (s : Bytes × UInt64) (cs : List Command) : Bytes × UInt64 := cs.foldl log s

def numbered : UInt64 → List Command → List LogRecord
  | _, [] => []
  | first, c :: cs => LogRecord.new first c :: numbered (first + 1) cs

theorem logAll_fst (s : Bytes × UInt64) (cs : List Command) :
    (logAll s cs).1 = s.1 ++ bytesOf (numbered s.2 cs) := by
  induction cs generalizing s with
  | nil => exact (List.append_nil _).symm
  | cons c cs ih =>
    rw [numbered, bytesOf_cons, ← List.append_assoc]
    exact ih (log s c)

theorem numbered_logged {cs : List Command} (hcs : ∀ c ∈ cs, c.Fits) (id : UInt64) :
    ∀ r ∈ numbered id cs, Logged r := by
  induction cs generalizing id with
  | nil => exact fun r hr => absurd hr List.not_mem_nil
  | cons c cs ih =>
    intro r hr
    rcases List.mem_cons.mp hr with rfl | hr
    · exact ⟨id, c, rfl, hcs c (List.mem_cons_self ..)⟩
    · exact ih (fun x hx => hcs x (List.mem_cons_of_mem _ hx)) (id + 1) r hr

/-- The records that are complete in the first `p` bytes, and the number of bytes behind them. -/
def cutAt : List LogRecord → Nat → List LogRecord × Nat
  | [], _ => ([], 0)
  | r :: rs, p =>
    if r.writeTo.length ≤ p then
      let (done, k) := cutAt rs (p - r.writeTo.length)
      (r :: done, k)
    else ([], p)

theorem take_bytesOf (rs : List LogRecord) (p : Nat) :
    ∃ tail, (bytesOf rs).take p = bytesOf (cutAt rs p).1 ++ tail ∧ tail.length = (cutAt rs p).2 ∧
      (∀ r ∈ (cutAt rs p).1, r ∈ rs) ∧
      (tail = [] ∨ ∃ r ∈ rs, tail = r.writeTo.take tail.length ∧ tail.length < r.writeTo.length) := by
  induction rs generalizing p with
  | nil => exact ⟨[], by rw [bytesOf, List.flatMap_nil, List.take_nil]; rfl, rfl, fun r hr => hr, Or.inl rfl⟩
  | cons r rs ih =>
    rw [cutAt, bytesOf_cons, List.take_append]
    split_ifs with hle
    · obtain ⟨tail, htake, hlen, hmem, htail⟩ := ih (p - r.writeTo.length)
      refine ⟨tail, ?_, hlen, fun x hx => ?_, htail.imp_right ?_⟩
      · rw [List.take_of_length_le hle, htake, ← List.append_assoc]
        rfl
      · rcases List.mem_cons.mp hx with rfl | hx
        · exact List.mem_cons_self ..
        · exact List.mem_cons_of_mem _ (hmem x hx)
      · rintro ⟨x, hx, htail⟩
        exact ⟨x, List.mem_cons_of_mem _ hx, htail⟩
    · have hlen : (r.writeTo.take p).length = p := List.length_take_of_le (by omega)
      refine ⟨r.writeTo.take p, ?_, hlen, fun x hx => absurd hx List.not_mem_nil, Or.inr
        ⟨r, List.mem_cons_self .., by rw [hlen], by omega⟩⟩
      rw [Nat.sub_eq_zero_of_le (by omega), List.take_zero, List.append_nil]
      rfl

/-- Opening a log that was cut after `p` bytes gives back the complete records, and whatever is logged
then is read after them. -/
def Harmless (cs : List Command) (p : Nat) : Prop :=
  let cut := (logAll ([], 0) cs).1.take p
  let complete := (cutAt (numbered 0 cs) p).1
  readRecords (openFile cut).1 = complete ∧
    ∀ more : List Command, (∀ c ∈ more, c.Fits) →
      readRecords (openFile (logAll (openFile cut) more).1).1 = complete ++ numbered (openFile cut).2 more

end Logger

theorem Logged.readFrom_take {r : LogRecord} (h : Logged r) {k : Nat} (hk : 8 ≤ k)
    (hlt : k < r.writeTo.length) : ∃ f, LogRecord.readFrom (r.writeTo.take k) = .error f := by
  have hwhole := h.readFrom []
  rw [List.append_nil] at hwhole
  have hread : ∀ bs : Bytes, 8 ≤ bs.length → readExact 8 bs = some (bs.take 8, bs.drop 8) := fun bs hbs =>
    if_pos hbs
  have hid : (r.writeTo.take k).take 8 = r.writeTo.take 8 := by
    rw [List.take_take, Nat.min_eq_left hk]
  have hlen : (r.writeTo.take k).length = k := List.length_take_of_le hlt.le
  rw [readFrom_eq (hread _ (by omega))] at hwhole
  rw [readFrom_eq (hread _ (by omega)), hid, List.drop_take]
  obtain ⟨⟨r', rest⟩, hr, heq⟩ := bind_eq_ok (f := fun a => .ok (some a)) hwhole
  cases heq
  cases hx : readAfterId (UInt64.ofNat (leNat (r.writeTo.take 8))) ((r.writeTo.drop 8).take (k - 8)) with
  | error f => exact ⟨f, rfl⟩
  | ok p => exact absurd hx ((readAfterId_steady _).not_ok_of_take hr
      (by rw [List.length_drop]; omega) p.1 p.2)

section Sound
variable {rs : List LogRecord} (hrs : ∀ r ∈ rs, Logged r)
include hrs

/-- Unless a piece of an id is left, opening leaves the complete records alone. -/
theorem openFile_cut {tail : Bytes} (hcut : tail.length = 0 ∨ 8 ≤ tail.length)
    (htail : tail = [] ∨ ∃ r, Logged r ∧ tail = r.writeTo.take tail.length ∧ tail.length < r.writeTo.length) :
    Logger.openFile (bytesOf rs ++ tail) = (bytesOf rs, nextId rs) := by
  have hnil : Logger.openFile (bytesOf rs ++ []) = (bytesOf rs, nextId rs) := by
    have h := (openFile_short hrs [] (by decide)).1
    rwa [List.append_nil] at h ⊢
  rcases htail with rfl | ⟨r, hr, htake, hlt⟩
  · exact hnil
  · rcases hcut with hzero | h8
    · rw [List.length_eq_zero_iff.mp hzero]
      exact hnil
    · obtain ⟨f, hf⟩ := hr.readFrom_take h8 hlt
      rw [← htake] at hf
      exact openFile_bad hrs hf (List.ne_nil_of_length_pos (by omega))

theorem readRecords_bytesOf : Logger.readRecords (Logger.openFile (bytesOf rs)).1 = rs := by
  have h := openFile_short hrs [] (by decide)
  rw [List.append_nil] at h
  rw [h.1]
  exact h.2

end Sound

section Lost
variable {rs : List LogRecord} (hrs : ∀ r ∈ rs, Logged r) {stray : Bytes}

theorem scan_bad_suffix {fuel : Nat} {bs bad : Bytes} (h : (Logger.scan fuel bs).2 = some bad) :
    bad.length ≤ bs.length := by
  induction fuel generalizing bs with
  | zero => cases h
  | succ fuel ih =>
    unfold Logger.scan at h
    cases hx : LogRecord.readFrom bs with
    | error e =>
      rw [hx] at h
      exact (congrArg List.length (Option.some.inj h)).ge
    | ok o =>
      cases o with
      | none =>
        rw [hx] at h
        cases h
      | some p =>
        rw [hx] at h
        exact (ih h).trans (readFrom_length hx).le

include hrs in
theorem readRecords_openFile (tail : Bytes) : ∃ kept fuel, kept <+: tail ∧
    Logger.readRecords (Logger.openFile (bytesOf rs ++ tail)).1 = rs ++ (Logger.scan fuel kept).1 := by
  obtain ⟨fuel, -, hscan⟩ := scan_bytesOf rs hrs tail
  have hfile : ∃ kept, kept <+: tail ∧ (Logger.openFile (bytesOf rs ++ tail)).1 = bytesOf rs ++ kept := by
    rw [Logger.openFile, hscan]
    dsimp only
    cases hbad : (Logger.scan fuel tail).2 with
    | none => exact ⟨tail, List.prefix_refl _, rfl⟩
    | some bad =>
      refine ⟨tail.take (tail.length - bad.length), List.take_prefix _ _, ?_⟩
      have hle := scan_bad_suffix hbad
      have hlen : (bytesOf rs ++ tail).length - bad.length =
          (bytesOf rs).length + (tail.length - bad.length) := by
        rw [List.length_append]
        omega
      dsimp only
      rw [hlen, List.take_length_add_append]
  obtain ⟨kept, hkept, heq⟩ := hfile
  obtain ⟨fuel', -, hscan'⟩ := scan_bytesOf rs hrs kept
  exact ⟨kept, fuel', hkept, by rw [heq, Logger.readRecords, hscan']⟩

/-- A key of which no byte comes again, to be logged behind a piece of an id. -/
def distinctKey : String := "abcdefgh"

theorem readFrom_stray (hpos : 0 < stray.length) (hlt : stray.length < 8) (n : UInt64) {kept : Bytes}
    (hkept : kept <+: stray ++ (LogRecord.new n (.delete distinctKey)).writeTo) (rest : Bytes) :
    LogRecord.readFrom kept ≠ .ok (some (LogRecord.new n (.delete distinctKey), rest)) := by
  intro h
  have hkey : utf8 distinctKey = [97, 98, 99, 100, 101, 102, 103, 104] := by decide +kernel
  obtain ⟨pre, hpre, hw⟩ : ∃ pre : Bytes, pre.length = 18 ∧
      (LogRecord.new n (.delete distinctKey)).writeTo =
        pre ++ (utf8 distinctKey ++ [calculateChecksum n (.delete distinctKey)]) := by
    refine ⟨leBytes 8 n.toNat ++ [2] ++ [0] ++ leBytes 4 (utf8 distinctKey).length ++ leBytes 4 0, ?_, ?_⟩
    · simp only [List.length_append, leBytes_length, List.length_singleton]
    · simp [writeTo, LogRecord.new, Command.commandCode]
  have hprefix : utf8 distinctKey <+: (stray ++ pre ++
      (utf8 distinctKey ++ [calculateChecksum n (.delete distinctKey)])).drop 18 := by
    rw [List.append_assoc, ← hw]
    exact (readFrom_delete rfl h).trans (hkept.drop 18)
  have hdrop : (stray ++ pre).length - 18 = stray.length := by
    rw [List.length_append, hpre, Nat.add_sub_cancel]
  rw [List.drop_append_of_le_length (by rw [List.length_append]; omega)] at hprefix
  -- the first byte of the key would come again after the stray bytes
  have hlen : ((stray ++ pre).drop 18).length = stray.length := by rw [List.length_drop, hdrop]
  obtain ⟨tail, htail⟩ := hprefix
  have hget := congrArg (fun l : Bytes => l[stray.length]?) htail
  rw [List.getElem?_append_left (by rw [hkey]; exact hlt), List.getElem?_append_right hlen.le, hlen,
    Nat.sub_self, List.getElem?_append_left (by rw [hkey]; decide), hkey] at hget
  generalize stray.length = k at hget hpos hlt
  interval_cases k <;> exact absurd hget (by decide)

end Lost

/-- A cut is harmless just when it does not leave one to seven bytes of an id. -/
theorem torn_wal_harmless_iff {cs : List Command} (hcs : ∀ c ∈ cs, c.Fits) (p : Nat) :
    Logger.Harmless cs p ↔ (Logger.cutAt (Logger.numbered 0 cs) p).2 = 0 ∨
      8 ≤ (Logger.cutAt (Logger.numbered 0 cs) p).2 := by
  obtain ⟨tail, htake, hlen, hmem, htail⟩ := Logger.take_bytesOf (Logger.numbered 0 cs) p
  set complete := (Logger.cutAt (Logger.numbered 0 cs) p).1 with hcomplete
  have hall := Logger.numbered_logged hcs 0
  have hrs : ∀ r ∈ complete, Logged r := fun r hr => hall r (hmem r hr)
  have hcut : (Logger.logAll ([], 0) cs).1.take p = bytesOf complete ++ tail := by
    rw [Logger.logAll_fst, List.nil_append, htake]
  have htail : tail = [] ∨ ∃ r, Logged r ∧ tail = r.writeTo.take tail.length ∧
      tail.length < r.writeTo.length :=
    htail.imp_right fun ⟨r, hr, h⟩ => ⟨r, hall r hr, h⟩
  rw [Logger.Harmless, hcut, ← hcomplete, ← hlen]
  constructor
  · rintro ⟨-, hmore⟩
    by_contra hno
    -- a tail of less than eight bytes is kept, and the next record is written behind it
    obtain ⟨hopen, -⟩ := openFile_short hrs tail (by omega)
    have hfits : ∀ c ∈ [Command.delete distinctKey], c.Fits := fun c hc => by
      rw [List.mem_singleton.mp hc]
      exact ⟨by decide +kernel, fun v hv => nomatch hv⟩
    have hread := hmore _ hfits
    rw [hopen, Logger.logAll_fst] at hread
    dsimp only at hread
    rw [List.append_assoc] at hread
    obtain ⟨kept, fuel, hkept, heq⟩ := readRecords_openFile hrs
      (tail ++ bytesOf (Logger.numbered (nextId complete) [.delete distinctKey]))
    rw [heq] at hread
    have hone := List.append_cancel_left hread
    have hbytes : bytesOf (Logger.numbered (nextId complete) [.delete distinctKey]) =
        (LogRecord.new (nextId complete) (.delete distinctKey)).writeTo := List.append_nil _
    rw [hbytes] at hkept
    cases fuel with
    | zero => cases hone
    | succ fuel =>
      unfold Logger.scan at hone
      cases hx : LogRecord.readFrom kept with
      | error e => rw [hx] at hone; cases hone
      | ok o =>
        cases o with
        | none => rw [hx] at hone; cases hone
        | some q =>
          rw [hx] at hone
          obtain ⟨r, rest⟩ := q
          obtain rfl : r = _ := (List.cons.inj hone).1
          exact readFrom_stray (by omega) (by omega) _ hkept rest hx
  · intro hcut
    -- with the id of the torn record complete, the logger sees the damage and truncates
    have hopen := openFile_cut hrs hcut htail
    refine ⟨?_, fun more hfits => ?_⟩
    · rw [hopen]
      have h := (openFile_short hrs [] (by decide)).2
      rwa [List.append_nil] at h
    · rw [hopen, Logger.logAll_fst, ← bytesOf_append]
      refine readRecords_bytesOf fun r hr => ?_
      rcases List.mem_append.mp hr with hr | hr
      · exact hrs r hr
      · exact Logger.numbered_logged hfits _ r hr

end Scanning

section Concrete
open scoped Concrete

theorem torn_wal_harmless_checksum : Logger.Harmless [.set "a" (.int 1), .delete "a"] 40 :=
  (torn_wal_harmless_iff (by decide) 40).mpr (by decide +kernel)

/-- Three bytes of an id stay, and the record logged behind them is lost. -/
theorem torn_wal_loses_record :
    (Logger.openFile ((Logger.logAll ([], 0) [.set "a" (.int 1)]).1.take 3)) = ([0, 0, 0], 0) ∧
    Logger.readRecords (Logger.openFile (Logger.logAll ([0, 0, 0], 0) [.set "b" (.int 2)]).1).1 = [] := by
  decide +kernel

end Concrete
end KvRaft
