import KvRaft.Raft.LogStore

/-! The bytes of `raft_log.bin`: a file of complete frames, possibly with a torn one at its end,
and what opening it gives back. -/

namespace KvRaft.RaftLogStore
open Bytes
variable [Bincode]

def frames (es : List LogEntry) : Bytes := es.flatMap frame

def starts : Nat → List LogEntry → List Nat
  | _, [] => []
  | pos, e :: es => pos :: starts (pos + (frame e).length) es

def Holds (s : RaftLogStore) (es : List LogEntry) : Prop := s = ⟨frames es, starts 0 es⟩

theorem frames_append (es es' : List LogEntry) : frames (es ++ es') = frames es ++ frames es' :=
  List.flatMap_append

theorem frames_cons (e : LogEntry) (es : List LogEntry) : frames (e :: es) = frame e ++ frames es :=
  List.flatMap_cons

@[simp] theorem frames_nil : frames [] = [] := rfl

theorem starts_append (pos : Nat) (es es' : List LogEntry) :
    starts pos (es ++ es') = starts pos es ++ starts (pos + (frames es).length) es' := by
  induction es generalizing pos with
  | nil => rfl
  | cons e es ih =>
    rw [List.cons_append, starts, ih, starts, frames_cons, List.length_append, List.cons_append,
      Nat.add_assoc]

@[simp] theorem starts_length (pos : Nat) (es : List LogEntry) : (starts pos es).length = es.length := by
  induction es generalizing pos with
  | nil => rfl
  | cons e es ih => simp [starts, ih]

theorem holds_nil : Holds ⟨[], []⟩ [] := rfl

theorem Holds.append {s : RaftLogStore} {es : List LogEntry} (h : Holds s es) (e : LogEntry) :
    Holds (s.append e) (es ++ [e]) := by
  rw [Holds] at h
  subst h
  rw [Holds, RaftLogStore.append, frames_append, starts_append, Nat.zero_add, frames_cons,
    frames_nil, List.append_nil]
  rfl

theorem starts_getElem? {es : List LogEntry} {k : Nat} (hk : k < es.length) :
    (starts 0 es)[k]? = some (frames (es.take k)).length := by
  have hsplit : es = es.take k ++ es[k] :: es.drop (k + 1) := by
    rw [← List.drop_eq_getElem_cons hk, List.take_append_drop]
  have hlen : (es.take k).length = k := List.length_take_of_le hk.le
  conv_lhs => rw [hsplit, starts_append, starts, Nat.zero_add]
  rw [List.getElem?_append_right (by rw [starts_length, hlen]), starts_length, hlen, Nat.sub_self]
  rfl

theorem starts_take (pos : Nat) (es : List LogEntry) (k : Nat) :
    (starts pos es).take k = starts pos (es.take k) := by
  induction es generalizing pos k with
  | nil => simp [starts]
  | cons e es ih => cases k with
    | zero => rfl
    | succ k => rw [starts, List.take_succ_cons, List.take_succ_cons, starts, ih]

theorem frames_take (es : List LogEntry) (k : Nat) :
    (frames es).take (frames (es.take k)).length = frames (es.take k) := by
  conv_lhs => rw [← List.take_append_drop k es, frames_append]
  rw [List.take_append_drop, List.take_left]

theorem Holds.truncateFrom {s : RaftLogStore} {es : List LogEntry} (h : Holds s es) (k : Nat) :
    Holds (s.truncateFrom k) (es.take k) := by
  rw [Holds] at h
  subst h
  by_cases hk : k < es.length
  · rw [RaftLogStore.truncateFrom, starts_getElem? hk]
    exact congrArg₂ RaftLogStore.mk (frames_take es k) (starts_take 0 es k)
  · have hnone : (starts 0 es)[k]? = none :=
      List.getElem?_eq_none (by rw [starts_length]; omega)
    have htake : es.take k = es := List.take_of_length_le (by omega)
    rw [RaftLogStore.truncateFrom, hnone, htake]
    rfl

section Open

/-- The largest payload `open` accepts. -/
def Fits (e : LogEntry) : Prop := (Bincode.serialize e).length ≤ maxEntrySize

theorem frame_length (e : LogEntry) : (frame e).length = 4 + (Bincode.serialize e).length := by
  rw [frame, List.length_append, frameLen, leBytes_length]

theorem readEntry_frameLen (e : LogEntry) (bs : Bytes) :
    readEntry (frameLen e ++ bs) =
      if (Bincode.serialize e).length % 2 ^ 32 > maxEntrySize then
        .error (.invalidData s!"entry length {(Bincode.serialize e).length % 2 ^ 32} exceeds maximum {maxEntrySize}")
      else match readExact ((Bincode.serialize e).length % 2 ^ 32) bs with
        | none => .error .eof
        | some (payload, bs) => match Bincode.deserialize payload with
          | none => .error (.invalidData "bincode")
          | some e => .ok (some (e, bs)) := by
  have hlen : leNat (frameLen e) = (Bincode.serialize e).length % 2 ^ 32 := leNat_leBytes_mod 4 _
  have hwidth : (frameLen e).length = 4 := leBytes_length 4 _
  rw [readEntry, readExact_append_of_length hwidth]
  generalize (Bincode.serialize e).length % 2 ^ 32 = n at hlen ⊢
  subst hlen
  rfl

theorem readEntry_frame {e : LogEntry} (he : Fits e) (bs : Bytes) :
    readEntry (frame e ++ bs) = .ok (some (e, bs)) := by
  have hle : (Bincode.serialize e).length ≤ 64 * 1024 * 1024 := he
  have hmod : (Bincode.serialize e).length % 2 ^ 32 = (Bincode.serialize e).length :=
    Nat.mod_eq_of_lt (by omega)
  rw [frame, List.append_assoc, readEntry_frameLen, hmod, if_neg (Nat.not_lt.mpr he),
    readExact_append]
  dsimp only
  rw [Bincode.deserialize_serialize]

theorem readEntry_oversize {e : LogEntry} (he : ¬ Fits e) (bs : Bytes) :
    ∃ f, readEntry (frame e ++ bs) = .error f := by
  rw [frame, List.append_assoc, readEntry_frameLen]
  split_ifs with hbig
  · exact ⟨_, rfl⟩
  · have hlt : (Bincode.serialize e).length % 2 ^ 32 < (Bincode.serialize e).length := by
      have : maxEntrySize < (Bincode.serialize e).length := Nat.not_le.mp he
      omega
    have hread : readExact ((Bincode.serialize e).length % 2 ^ 32) (Bincode.serialize e ++ bs) =
        some ((Bincode.serialize e).take ((Bincode.serialize e).length % 2 ^ 32),
          (Bincode.serialize e ++ bs).drop ((Bincode.serialize e).length % 2 ^ 32)) := by
      rw [readExact, if_pos (by rw [List.length_append]; omega),
        List.take_append_of_le_length hlt.le]
    rw [hread]
    dsimp only
    rw [Bincode.deserialize_take e _ hlt]
    exact ⟨_, rfl⟩

/-- The rest of a file at which `open` stops: its end, or a frame that cannot be read. -/
def Stops (tail : Bytes) : Prop := tail = [] ∨ ∃ f, readEntry tail = .error f

theorem stops_frameLen {e : LogEntry} (he : Bincode.serialize e ≠ []) : Stops (frameLen e) := by
  refine Or.inr ?_
  have hpos : 0 < (Bincode.serialize e).length := List.length_pos_iff.mpr he
  have hread := readEntry_frameLen e []
  rw [List.append_nil] at hread
  rw [hread]
  split_ifs
  · exact ⟨_, rfl⟩
  · cases hm : (Bincode.serialize e).length % 2 ^ 32 with
    | zero =>
      have hempty := Bincode.deserialize_take e 0 hpos
      rw [List.take_zero] at hempty
      simp only [readExact, Nat.le_refl, List.length_nil, if_true, List.take_nil, hempty]
      exact ⟨_, rfl⟩
    | succ m =>
      rw [readExact_short (Nat.succ_pos m)]
      exact ⟨_, rfl⟩

theorem openLoop_append (es : List LogEntry) (hes : ∀ e ∈ es, Fits e) (tail : Bytes) (pos fuel : Nat) :
    openLoop (es.length + fuel) pos (frames es ++ tail) =
      (es ++ (openLoop fuel (pos + (frames es).length) tail).1,
        starts pos es ++ (openLoop fuel (pos + (frames es).length) tail).2.1,
        (openLoop fuel (pos + (frames es).length) tail).2.2) := by
  induction es generalizing pos with
  | nil => rw [List.length_nil, Nat.zero_add]; rfl
  | cons e es ih =>
    rw [frames_cons, List.append_assoc, List.length_cons, Nat.add_right_comm, openLoop,
      readEntry_frame (hes e (List.mem_cons_self ..))]
    dsimp only
    rw [List.length_append, Nat.add_sub_cancel, ih fun x hx => hes x (List.mem_cons_of_mem _ hx),
      List.length_append, ← Nat.add_assoc]
    rfl

theorem openLoop_frames (es : List LogEntry) (hes : ∀ e ∈ es, Fits e) {tail : Bytes}
    (htail : Stops tail) (pos fuel : Nat) (hfuel : es.length < fuel) :
    ∃ cut, openLoop fuel pos (frames es ++ tail) = (es, starts pos es, cut) ∧
      (tail = [] ∧ cut = none ∨ cut = some (pos + (frames es).length)) := by
  obtain ⟨fuel, rfl⟩ : ∃ k, fuel = es.length + (k + 1) := ⟨fuel - es.length - 1, by omega⟩
  rw [openLoop_append es hes]
  rcases htail with rfl | ⟨f, hf⟩
  · refine ⟨none, ?_, Or.inl ⟨rfl, rfl⟩⟩
    rw [show openLoop (fuel + 1) (pos + (frames es).length) [] = ([], [], none) from rfl, List.append_nil,
      List.append_nil]
  · refine ⟨some (pos + (frames es).length), ?_, Or.inr rfl⟩
    rw [openLoop, hf]
    dsimp only
    rw [List.append_nil, List.append_nil]

theorem length_le_frames (es : List LogEntry) : es.length ≤ (frames es).length := by
  induction es with
  | nil => exact Nat.zero_le _
  | cons e es ih =>
    rw [frames_cons, List.length_append, frame_length, List.length_cons]
    omega

/-- Opening a file gives back the entries whose frames are complete, and cuts off the rest. -/
theorem openFile_frames (es : List LogEntry) (hes : ∀ e ∈ es, Fits e) {tail : Bytes}
    (htail : Stops tail) :
    openFile (frames es ++ tail) = (⟨frames es, starts 0 es⟩, es) := by
  obtain ⟨cut, hloop, hcut⟩ := openLoop_frames es hes htail 0 ((frames es ++ tail).length + 1) (by
    have := length_le_frames es
    rw [List.length_append]
    omega)
  rw [openFile, hloop]
  rcases hcut with ⟨rfl, rfl⟩ | rfl
  · rw [List.append_nil]
  · dsimp only
    rw [Nat.zero_add, List.take_left]

theorem exists_oversize (es : List LogEntry) : (∀ e ∈ es, Fits e) ∨
    ∃ es₁ e es₂, es = es₁ ++ e :: es₂ ∧ (∀ x ∈ es₁, Fits x) ∧ ¬ Fits e := by
  induction es with
  | nil => exact Or.inl fun e he => nomatch he
  | cons e es ih =>
    by_cases he : Fits e
    · rcases ih with hall | ⟨es₁, x, es₂, rfl, h1, h2⟩
      · exact Or.inl (List.forall_mem_cons.mpr ⟨he, hall⟩)
      · exact Or.inr ⟨e :: es₁, x, es₂, rfl, List.forall_mem_cons.mpr ⟨he, h1⟩, h2⟩
    · exact Or.inr ⟨[], e, es, rfl, fun x hx => (nomatch hx), he⟩

theorem openFile_prefix (es : List LogEntry) {tail : Bytes} (htail : Stops tail) :
    ∃ es', es' <+: es ∧ openFile (frames es ++ tail) = (⟨frames es', starts 0 es'⟩, es') := by
  rcases exists_oversize es with hall | ⟨es₁, e, es₂, rfl, h1, h2⟩
  · exact ⟨es, List.prefix_rfl, openFile_frames es hall htail⟩
  · refine ⟨es₁, List.prefix_append _ _, ?_⟩
    rw [frames_append, frames_cons, List.append_assoc, List.append_assoc]
    exact openFile_frames es₁ h1 (Or.inr (readEntry_oversize h2 _))

end Open
end KvRaft.RaftLogStore
