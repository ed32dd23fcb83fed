import KvRaft.Raft.LogMirror

/-! A node whose log file refuses some of the appends: the log in memory goes on, the file keeps what
was written of each frame. -/

namespace KvRaft
open Bytes RaftLogStore

namespace RaftLogStore
variable [Bincode]

/-- An `append` that fails after `k` bytes of the frame; no offset is recorded. -/
def appendStopping (s : RaftLogStore) (e : LogEntry) (k : Nat) : RaftLogStore :=
  ⟨s.file ++ (frame e).take k, s.offsets⟩

theorem readEntry_cut {e : LogEntry} {k : Nat} (hk : 4 ≤ k) (hlt : k < (frame e).length) :
    ∃ f, readEntry ((frame e).take k) = .error f := by
  have hwidth : (frameLen e).length = 4 := leBytes_length 4 _
  have htake : (frame e).take k = frameLen e ++ (Bincode.serialize e).take (k - 4) := by
    rw [frame, List.take_append, hwidth, List.take_of_length_le (hwidth.trans_le hk)]
  rw [frame_length] at hlt
  rw [htake, readEntry_frameLen]
  split_ifs with hbig
  · exact ⟨_, rfl⟩
  · by_cases hshort : ((Bincode.serialize e).take (k - 4)).length < (Bincode.serialize e).length % 2 ^ 32
    · rw [readExact_short hshort]
      exact ⟨_, rfl⟩
    · -- the length wrapped around, and what it leaves of the payload does not decode
      rw [List.length_take] at hshort
      have hpayload : ((Bincode.serialize e).take (k - 4)).take ((Bincode.serialize e).length % 2 ^ 32) =
          (Bincode.serialize e).take ((Bincode.serialize e).length % 2 ^ 32) := by
        rw [List.take_take, Nat.min_eq_left (by omega)]
      rw [readExact, if_pos (by rw [List.length_take]; omega), hpayload]
      dsimp only
      rw [Bincode.deserialize_take e _ (by omega)]
      exact ⟨_, rfl⟩

theorem readEntry_take {e : LogEntry} {k : Nat} (hlt : k < (frame e).length) (p : LogEntry × Bytes) :
    readEntry ((frame e).take k) ≠ .ok (some p) := by
  rcases Nat.lt_or_ge k 4 with hshort | hk
  · rw [readEntry, readExact_short (by rw [List.length_take]; omega)]
    exact fun h => by cases h
  · obtain ⟨f, hf⟩ := readEntry_cut hk hlt
    rw [hf]
    exact fun h => by cases h

theorem openFile_unread {es : List LogEntry} (hes : ∀ e ∈ es, Fits e) {tail : Bytes}
    (htail : ∀ p, readEntry tail ≠ .ok (some p)) : (openFile (frames es ++ tail)).2 = es := by
  obtain ⟨fuel, hfuel⟩ : ∃ fuel, (frames es ++ tail).length + 1 = es.length + (fuel + 1) :=
    ⟨(frames es ++ tail).length - es.length, by
      have := length_le_frames es
      rw [List.length_append]
      omega⟩
  have hloop : ∀ pos, (openLoop (fuel + 1) pos tail).1 = [] := by
    intro pos
    unfold openLoop
    split
    · next e rest h => exact absurd h (htail _)
    · rfl
    · rfl
  have hentries : (openLoop ((frames es ++ tail).length + 1) 0 (frames es ++ tail)).1 = es := by
    rw [hfuel, openLoop_append es hes]
    dsimp only
    rw [hloop, List.append_nil]
  rw [openFile]
  dsimp only
  split
  · exact hentries
  · exact hentries

theorem openFile_prefix_of_unread (es : List LogEntry) {tail : Bytes}
    (htail : ∀ p, readEntry tail ≠ .ok (some p)) : (openFile (frames es ++ tail)).2 <+: es := by
  rcases exists_oversize es with hall | ⟨es₁, e, es₂, rfl, h1, h2⟩
  · rw [openFile_unread hall htail]
  · rw [frames_append, frames_cons, List.append_assoc, List.append_assoc, openFile_unread h1 fun p => by
      obtain ⟨f, hf⟩ := readEntry_oversize h2 (frames es₂ ++ tail)
      rw [hf]
      exact fun h => by cases h]
    exact List.prefix_append _ _

end RaftLogStore

/-- A call of `push_log_entry`, and how many bytes the append leaves when it fails. -/
structure Push where
  entry : LogEntry
  stops : Option Nat

namespace Push
variable [Bincode]

def Strict (x : Push) : Prop := ∀ k, x.stops = some k → k < (frame x.entry).length

def written (x : Push) : Bytes :=
  match x.stops with
  | none => frame x.entry
  | some k => (frame x.entry).take k

def LeavesOnce : List Push → Prop
  | [] => True
  | x :: xs => x.stops ≠ none ∧ (x.stops = some 0 → LeavesOnce xs) ∧
    (x.stops ≠ some 0 → ∀ y ∈ xs, y.stops = some 0)

/-- No append succeeds behind a failed one, and at most one of the failed ones leaves bytes. -/
def Ordered : List Push → Prop
  | [] => True
  | x :: xs => (x.stops = none → Ordered xs) ∧ (x.stops ≠ none → LeavesOnce (x :: xs))

omit [Bincode] in
theorem written_nil {x : Push} [Bincode] (h : x.stops = some 0) : x.written = [] := by
  rw [written, h]
  rfl

theorem readEntry_written {x : Push} (hx : x.Strict) (hstops : x.stops ≠ none) (p : LogEntry × Bytes) :
    readEntry x.written ≠ .ok (some p) := by
  obtain ⟨k, hk⟩ := Option.ne_none_iff_exists'.mp hstops
  rw [written, hk]
  exact readEntry_take (hx k hk) p

theorem flatMap_written_nil {xs : List Push} (h : ∀ y ∈ xs, y.stops = some 0) : xs.flatMap written = [] :=
  List.flatMap_eq_nil_iff.mpr fun y hy => written_nil (h y hy)

theorem LeavesOnce.unread {xs : List Push} (hxs : LeavesOnce xs) (hstrict : ∀ x ∈ xs, x.Strict)
    (p : LogEntry × Bytes) : readEntry (xs.flatMap written) ≠ .ok (some p) := by
  induction xs with
  | nil => exact fun h => by cases h
  | cons x xs ih =>
    obtain ⟨hfail, hzero, hsome⟩ := hxs
    rw [List.flatMap_cons]
    by_cases h0 : x.stops = some 0
    · rw [written_nil h0, List.nil_append]
      exact ih (hzero h0) fun y hy => hstrict y (List.mem_cons_of_mem _ hy)
    · rw [flatMap_written_nil (hsome h0), List.append_nil]
      exact readEntry_written (hstrict x List.mem_cons_self) hfail p

/-- The file is a list of complete frames of the first entries, and behind it what failed appends left. -/
theorem Ordered.split {xs : List Push} (hxs : Ordered xs) (hstrict : ∀ x ∈ xs, x.Strict) :
    ∃ es tail, xs.flatMap written = frames es ++ tail ∧ es <+: xs.map entry ∧
      ∀ p, readEntry tail ≠ .ok (some p) := by
  induction xs with
  | nil => exact ⟨[], [], rfl, List.nil_prefix, fun p h => by cases h⟩
  | cons x xs ih =>
    by_cases hok : x.stops = none
    · obtain ⟨es, tail, hfile, hprefix, htail⟩ :=
        ih (hxs.1 hok) fun y hy => hstrict y (List.mem_cons_of_mem _ hy)
      refine ⟨x.entry :: es, tail, ?_, List.cons_prefix_cons.mpr ⟨rfl, hprefix⟩, htail⟩
      rw [List.flatMap_cons, hfile, frames_cons, List.append_assoc, written, hok]
    · exact ⟨[], _, rfl, List.nil_prefix, (hxs.2 hok).unread hstrict⟩

end Push

section General
variable {D : Type} [Storage D] [Bincode]

namespace RaftNode

/-- `push_log_entry` goes on after an append that failed. -/
def pushStopping (n : RaftNode D) (x : Push) : RaftNode D :=
  match x.stops with
  | none => n.pushLogEntry x.entry
  | some k => { n with log := n.log ++ [x.entry], logStore := n.logStore.appendStopping x.entry k }

def pushAllStopping (n : RaftNode D) (xs : List Push) : RaftNode D := xs.foldl pushStopping n

theorem pushStopping_log (n : RaftNode D) (x : Push) : (n.pushStopping x).log = n.log ++ [x.entry] := by
  unfold pushStopping
  split <;> rfl

theorem pushStopping_file (n : RaftNode D) (x : Push) :
    (n.pushStopping x).logStore.file = n.logStore.file ++ x.written := by
  unfold pushStopping Push.written
  cases x.stops <;> rfl

theorem pushAllStopping_spec (n : RaftNode D) (xs : List Push) :
    (n.pushAllStopping xs).log = n.log ++ xs.map Push.entry ∧
      (n.pushAllStopping xs).logStore.file = n.logStore.file ++ xs.flatMap Push.written := by
  induction xs generalizing n with
  | nil => exact ⟨(List.append_nil _).symm, (List.append_nil _).symm⟩
  | cons x xs ih =>
    obtain ⟨hlog, hfile⟩ := ih (n.pushStopping x)
    rw [pushStopping_log, List.append_assoc] at hlog
    rw [pushStopping_file, List.append_assoc] at hfile
    exact ⟨hlog, hfile⟩

def PersistsPrefix (n : RaftNode D) : Prop := n.persisted <+: n.log.drop 1

end RaftNode

variable [FloatText]

/-- The file keeps a prefix of the log as long as no append succeeds behind one that failed, and no
failed one leaves bytes behind those of another. -/
theorem failed_pushes_persist_prefix {id : NodeId} {ps : List NodeId} {config : Config} {now : Instant}
    {n : RaftNode D} (hn : RaftNode.newInDir Dir.empty id ps config now = some n) {xs : List Push}
    (hstrict : ∀ x ∈ xs, x.Strict) (hxs : Push.Ordered xs) : (n.pushAllStopping xs).PersistsPrefix := by
  have hfresh : n.log = [sentinel] ∧ n.logStore = ⟨[], []⟩ := by
    simp only [RaftNode.newInDir, Dir.empty, Storage.open_empty, Option.some.injEq] at hn
    subst hn
    exact ⟨rfl, rfl⟩
  obtain ⟨hlog, hfile⟩ := RaftNode.pushAllStopping_spec n xs
  obtain ⟨es, tail, hsplit, hprefix, htail⟩ := hxs.split hstrict
  rw [hfresh.2, List.nil_append, hsplit] at hfile
  rw [RaftNode.PersistsPrefix, RaftNode.persisted, hfile, hlog, hfresh.1]
  exact (openFile_prefix_of_unread es htail).trans hprefix

end General

section Concrete
open scoped Concrete

theorem failed_pushes_persist_first : ∃ n : RaftNode Database,
    RaftNode.newInDir Dir.empty 1 [] .default ⟨0, 0⟩ = some n ∧
    (n.pushAllStopping [⟨⟨1, .removeNode 2⟩, none⟩, ⟨⟨1, .removeNode 3⟩, some 2⟩]).PersistsPrefix := by
  have hn : (RaftNode.newInDir Dir.empty 1 [] .default ⟨0, 0⟩ : Option (RaftNode Database)).isSome = true := by
    decide +kernel
  obtain ⟨n, hn⟩ := Option.isSome_iff_exists.mp hn
  refine ⟨n, hn, failed_pushes_persist_prefix hn (fun x hx k hk => ?_) ?_⟩
  · rcases List.mem_cons.mp hx with rfl | hx
    · cases hk
    · obtain rfl := List.mem_singleton.mp hx
      cases hk
      decide +kernel
  · simp [Push.Ordered, Push.LeavesOnce]

/-- An append that failed without a trace leaves a hole: the next entry is read back in its place. -/
theorem failed_push_leaves_hole : ∃ n : RaftNode Database,
    RaftNode.newInDir Dir.empty 1 [] .default ⟨0, 0⟩ = some n ∧
    (n.pushAllStopping [⟨⟨1, .removeNode 2⟩, some 0⟩, ⟨⟨1, .removeNode 3⟩, none⟩]).persisted =
      [⟨1, .removeNode 3⟩] ∧
    ¬ (n.pushAllStopping [⟨⟨1, .removeNode 2⟩, some 0⟩, ⟨⟨1, .removeNode 3⟩, none⟩]).PersistsPrefix := by
  have hrun : ((RaftNode.newInDir Dir.empty 1 [] .default ⟨0, 0⟩ : Option (RaftNode Database)).map fun n =>
      ((n.pushAllStopping [⟨⟨1, .removeNode 2⟩, some 0⟩, ⟨⟨1, .removeNode 3⟩, none⟩]).log.drop 1,
        (n.pushAllStopping [⟨⟨1, .removeNode 2⟩, some 0⟩, ⟨⟨1, .removeNode 3⟩, none⟩]).persisted)) =
      some ([⟨1, .removeNode 2⟩, ⟨1, .removeNode 3⟩], [⟨1, .removeNode 3⟩]) := by
    decide +kernel
  obtain ⟨n, hn, hrun⟩ := Option.map_eq_some_iff.mp hrun
  obtain ⟨hlog, hfile⟩ := Prod.ext_iff.mp hrun
  dsimp only at hlog hfile
  refine ⟨n, hn, hfile, fun h => ?_⟩
  rw [RaftNode.PersistsPrefix, hlog, hfile] at h
  exact absurd h (by decide)

end Concrete
end KvRaft
