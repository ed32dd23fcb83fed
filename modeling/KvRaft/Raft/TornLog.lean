import KvRaft.Raft.BincodeFormat
import KvRaft.Raft.LogFile

/-! A log file whose last frame was cut short. Inside the payload the tail is cut off when the file is
opened; inside the length prefix it looks like the end of the file and stays in front of whatever is
appended. -/

namespace KvRaft.RaftLogStore
open Bytes

section General
variable [Bincode]

/-- The file after a crash that left `k` bytes of the last frame. -/
def torn (es : List LogEntry) (e : LogEntry) (k : Nat) : Bytes := frames es ++ (frame e).take k

def complete (es : List LogEntry) (e : LogEntry) (k : Nat) : List LogEntry :=
  if k < (frame e).length then es else es ++ [e]

def appendAll (s : RaftLogStore) (es : List LogEntry) : RaftLogStore := es.foldl append s

/-- Opening gives back the complete entries, and whatever is appended then is read after them. -/
def Harmless (es : List LogEntry) (e : LogEntry) (k : Nat) : Prop :=
  (openFile (torn es e k)).2 = complete es e k ∧
    ∀ more, (∀ x ∈ more, Fits x) →
      (openFile ((openFile (torn es e k)).1.appendAll more).file).2 = complete es e k ++ more

theorem Holds.appendAll {s : RaftLogStore} {es : List LogEntry} (h : Holds s es) (more : List LogEntry) :
    Holds (s.appendAll more) (es ++ more) := by
  induction more generalizing s es with
  | nil => rwa [List.append_nil]
  | cons x more ih =>
    rw [← List.singleton_append, ← List.append_assoc]
    exact ih (h.append x)

section Payload
variable {es : List LogEntry} {e : LogEntry} {k : Nat}

theorem stops_take (he : Fits e) (hk : 4 ≤ k) (hlt : k < (frame e).length) : Stops ((frame e).take k) := by
  have hle : (Bincode.serialize e).length ≤ 64 * 1024 * 1024 := he
  have hmod : (Bincode.serialize e).length % 2 ^ 32 = (Bincode.serialize e).length :=
    Nat.mod_eq_of_lt (by omega)
  have hwidth : (frameLen e).length = 4 := leBytes_length 4 _
  have htake : (frame e).take k = frameLen e ++ (Bincode.serialize e).take (k - 4) := by
    rw [frame, List.take_append, hwidth, List.take_of_length_le (hwidth.trans_le hk)]
  have hshort : ((Bincode.serialize e).take (k - 4)).length < (Bincode.serialize e).length := by
    rw [frame_length] at hlt
    rw [List.length_take]
    omega
  refine Or.inr ⟨.eof, ?_⟩
  rw [htake, readEntry_frameLen, hmod, if_neg (Nat.not_lt.mpr he), readExact_short hshort]

theorem openFile_torn (hes : ∀ x ∈ es, Fits x) (he : Fits e) (hcut : k = 0 ∨ 4 ≤ k) :
    openFile (torn es e k) = (⟨frames (complete es e k), starts 0 (complete es e k)⟩, complete es e k) := by
  rw [torn, complete]
  split_ifs with hlt
  · refine openFile_frames es hes ?_
    rcases hcut with rfl | hk
    · exact Or.inl rfl
    · exact stops_take he hk hlt
  · have hall : ∀ x ∈ es ++ [e], Fits x := fun x hx => by
      rcases List.mem_append.mp hx with hx | hx
      · exact hes x hx
      · exact List.mem_singleton.mp hx ▸ he
    have hopen := openFile_frames (es ++ [e]) hall (Or.inl rfl)
    rw [List.append_nil, frames_append, frames_cons, frames_nil, List.append_nil] at hopen
    rw [List.take_of_length_le (Nat.not_lt.mp hlt), hopen, frames_append, frames_cons, frames_nil,
      List.append_nil]

theorem harmless_of_payload (hes : ∀ x ∈ es, Fits x) (he : Fits e) (hcut : k = 0 ∨ 4 ≤ k) :
    Harmless es e k := by
  have hopen := openFile_torn hes he hcut
  have hfits : ∀ x ∈ complete es e k, Fits x := fun x hx => by
    rw [complete] at hx
    split_ifs at hx
    · exact hes x hx
    · rcases List.mem_append.mp hx with hx | hx
      · exact hes x hx
      · exact List.mem_singleton.mp hx ▸ he
  refine ⟨by rw [hopen], fun more hmore => ?_⟩
  have hholds : Holds (openFile (torn es e k)).1 (complete es e k) := by rw [hopen]; rfl
  have hfile : ((openFile (torn es e k)).1.appendAll more).file = frames (complete es e k ++ more) ++ [] := by
    rw [show _ = _ from hholds.appendAll more, List.append_nil]
  rw [hfile, openFile_frames _ (fun x hx => (List.mem_append.mp hx).elim (hfits x) (hmore x)) (Or.inl rfl)]

end Payload

section Prefix
variable {es : List LogEntry} {stray : Bytes}

/-- Fewer than four bytes at the end are taken for the end of the file and stay there. -/
theorem openFile_stray (hes : ∀ x ∈ es, Fits x) (hstray : stray.length < 4) :
    openFile (frames es ++ stray) = (⟨frames es ++ stray, starts 0 es⟩, es) := by
  have hread : readEntry stray = .ok none := by rw [readEntry, readExact_short hstray]
  obtain ⟨fuel, hfuel⟩ : ∃ fuel, (frames es ++ stray).length + 1 = es.length + (fuel + 1) :=
    ⟨(frames es ++ stray).length - es.length, by
      have := length_le_frames es
      rw [List.length_append]
      omega⟩
  have hloop : openLoop (fuel + 1) (0 + (frames es).length) stray = ([], [], none) := by
    rw [openLoop, hread]
  rw [openFile, hfuel, openLoop_append es hes, hloop]
  dsimp only
  rw [List.append_nil, List.append_nil]

/-- Behind stray bytes the length prefix of a short entry is read as a length beyond the end. -/
theorem readEntry_stray (hpos : 0 < stray.length) (hstray : stray.length < 4) {x : LogEntry}
    (hx : 0 < (Bincode.serialize x).length) (hsmall : (Bincode.serialize x).length < 256) :
    ∃ f, readEntry (stray ++ frame x) = .error f := by
  set k := stray.length with hk
  have hwidth : (frameLen x).length = 4 := leBytes_length 4 _
  have hsplit : stray ++ frame x = (stray ++ (frameLen x).take (4 - k)) ++
      ((frameLen x).drop (4 - k) ++ Bincode.serialize x) := by
    rw [frame, List.append_assoc, ← List.append_assoc ((frameLen x).take _), List.take_append_drop]
  have hlen : (stray ++ (frameLen x).take (4 - k)).length = 4 := by
    rw [List.length_append, List.length_take, hwidth]
    omega
  -- the length that is read is at least 256 times the real one
  have hbig : 256 * (Bincode.serialize x).length ≤ leNat (stray ++ (frameLen x).take (4 - k)) := by
    have hlow : (Bincode.serialize x).length < 256 ^ (4 - k) :=
      hsmall.trans_le (Nat.le_self_pow (by omega) 256)
    have hpow : 256 ≤ 256 ^ k := Nat.le_self_pow (by omega) 256
    rw [leNat_append, frameLen, leBytes_take (by omega), leNat_leBytes hlow, ← hk]
    exact (Nat.mul_le_mul_right _ hpow).trans (Nat.le_add_left ..)
  have hrest : ((frameLen x).drop (4 - k) ++ Bincode.serialize x).length <
      leNat (stray ++ (frameLen x).take (4 - k)) := by
    rw [List.length_append, List.length_drop, hwidth]
    omega
  rw [hsplit, readEntry, readExact_append_of_length hlen]
  dsimp only
  split_ifs
  · exact ⟨_, rfl⟩
  · rw [readExact_short hrest]
    exact ⟨_, rfl⟩

theorem not_harmless_of_prefixed {e : LogEntry} {k : Nat} (hes : ∀ x ∈ es, Fits x) (hpos : 0 < k)
    (hk : k < 4) {x : LogEntry} (hx : 0 < (Bincode.serialize x).length)
    (hsmall : (Bincode.serialize x).length < 256) : ¬ Harmless es e k := by
  intro h
  have hframe : 4 ≤ (frame e).length := by rw [frame_length]; omega
  have hstray : ((frame e).take k).length = k := List.length_take_of_le (by omega)
  have hcomplete : complete es e k = es := if_pos (by omega)
  have hfits : ∀ y ∈ [x], Fits y := fun y hy => by
    rw [List.mem_singleton.mp hy]
    exact hsmall.le.trans (by decide)
  have hmore := h.2 [x] hfits
  have hfile : ((openFile (torn es e k)).1.appendAll [x]).file = frames es ++ ((frame e).take k ++ frame x) := by
    rw [torn, openFile_stray hes (by omega), ← List.append_assoc]
    rfl
  rw [hfile, hcomplete, openFile_frames es hes
    (Or.inr (readEntry_stray (by omega) (by omega) hx hsmall))] at hmore
  exact absurd hmore (by simp)

end Prefix

/-- A torn tail is harmless just when the cut is not inside the four bytes of a length prefix; that a
cut there does harm needs one entry with a payload of 1 to 255 bytes. -/
theorem torn_log_harmless_iff (hshort : ∃ x, 0 < (Bincode.serialize x).length ∧
    (Bincode.serialize x).length < 256) {es : List LogEntry} (hes : ∀ x ∈ es, Fits x) {e : LogEntry}
    (he : Fits e) (k : Nat) : Harmless es e k ↔ k = 0 ∨ 4 ≤ k := by
  refine ⟨fun h => ?_, harmless_of_payload hes he⟩
  by_contra hcut
  obtain ⟨x, hx, hsmall⟩ := hshort
  exact not_harmless_of_prefixed hes (by omega) (by omega) hx hsmall h

end General

section Concrete
open scoped Concrete

theorem torn_log_harmless_payload :
    Harmless [⟨1, .removeNode 2⟩] ⟨1, .removeNode 3⟩ 10 := by
  refine (torn_log_harmless_iff ⟨⟨1, .removeNode 2⟩, by decide +kernel⟩ (fun x hx => ?_) ?_ 10).mpr
    (Or.inr (by decide))
  · rw [List.mem_singleton.mp hx]
    change (Bincode.serialize _).length ≤ maxEntrySize
    decide +kernel
  · change (Bincode.serialize _).length ≤ maxEntrySize
    decide +kernel

/-- One byte of a torn frame stays, and the entry appended behind it is lost. -/
theorem torn_log_loses_entry :
    (openFile ((openFile (torn [⟨1, .removeNode 2⟩] ⟨1, .removeNode 3⟩ 1)).1.appendAll
      [⟨2, .removeNode 4⟩]).file).2 = [⟨1, .removeNode 2⟩] := by
  decide +kernel

end Concrete
end KvRaft.RaftLogStore
