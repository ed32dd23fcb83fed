import KvRaft.Raft.BincodeFormat
import KvRaft.Raft.LogFile
import KvRaft.Raft.Node
import KvRaft.Lsm.NodeStorage

/-! The log in memory and the log file under pushes and truncations. In memory the sentinel has index
0, in the file the first entry has, so a truncation that drops something leaves one entry too many in
the file. -/

namespace KvRaft
open RaftLogStore

/-- The two ways in which a node changes its log. -/
inductive LogOp where
  | push (e : LogEntry)
  | truncate (start : Nat)
  deriving DecidableEq, Repr

namespace LogOp

def Valid : Nat → List LogOp → Prop
  | _, [] => True
  | len, .push _ :: ops => Valid (len + 1) ops
  | len, .truncate start :: ops => 1 ≤ start ∧ start ≤ len ∧ Valid start ops

def DropsNothing : Nat → List LogOp → Prop
  | _, [] => True
  | len, .push _ :: ops => DropsNothing (len + 1) ops
  | len, .truncate start :: ops => start = len ∧ DropsNothing len ops

instance decidableValid : ∀ len ops, Decidable (Valid len ops)
  | _, [] => .isTrue trivial
  | len, .push _ :: ops => decidableValid (len + 1) ops
  | _, .truncate start :: ops =>
    have := decidableValid start ops
    inferInstanceAs (Decidable (_ ∧ _ ∧ _))

def pushed : List LogOp → List LogEntry
  | [] => []
  | .push e :: ops => e :: pushed ops
  | .truncate _ :: ops => pushed ops

end LogOp

section General
variable {D : Type} [Storage D] [Bincode]

namespace RaftNode

def change (n : RaftNode D) : LogOp → RaftNode D
  | .push e => n.pushLogEntry e
  | .truncate start => n.truncateLog start

def changeAll (n : RaftNode D) (ops : List LogOp) : RaftNode D := ops.foldl change n

/-- What `RaftLogStore::open` would read back now. -/
def persisted (n : RaftNode D) : List LogEntry := (openFile n.logStore.file).2

end RaftNode

/-- The file holds `es`, which is the log without its sentinel, or more entries than that. -/
structure Tracks (n : RaftNode D) (es : List LogEntry) : Prop where
  holds : n.logStore.Holds es
  nonempty : 1 ≤ n.log.length
  mirror : es = n.log.drop 1 ∨ n.log.length ≤ es.length

section Steps
variable {n : RaftNode D} {es : List LogEntry}

omit [Bincode] in
theorem drop_one_append {l : List LogEntry} (h : 1 ≤ l.length) (e : LogEntry) :
    (l ++ [e]).drop 1 = l.drop 1 ++ [e] := List.drop_append_of_le_length h

theorem Tracks.push (h : Tracks n es) (e : LogEntry) : Tracks (n.pushLogEntry e) (es ++ [e]) := by
  have hlen : (n.pushLogEntry e).log.length = n.log.length + 1 := List.length_append ..
  refine ⟨h.holds.append e, by omega, ?_⟩
  rcases h.mirror with heq | hmore
  · left
    change _ = (n.log ++ [e]).drop 1
    rw [drop_one_append h.nonempty, heq]
  · right
    rw [hlen, List.length_append]
    exact Nat.succ_le_succ hmore

theorem Tracks.truncate (h : Tracks n es) {start : Nat} (hpos : 1 ≤ start) (hle : start ≤ n.log.length) :
    Tracks (n.truncateLog start) (es.take start) := by
  have hlen : (n.truncateLog start).log.length = start := List.length_take_of_le hle
  refine ⟨h.holds.truncateFrom start, hlen.symm ▸ hpos, ?_⟩
  rw [hlen, List.length_take]
  rcases h.mirror with rfl | hmore
  · rw [List.length_drop]
    by_cases hall : start = n.log.length
    · left
      change _ = (n.log.take start).drop 1
      rw [hall, List.take_length, List.take_of_length_le (by rw [List.length_drop]; omega)]
    · right
      omega
  · right
    omega

omit [Bincode] in
theorem drifts_of_drop (h : es = n.log.drop 1) {start : Nat} (hlt : start < n.log.length) :
    (n.truncateLog start).log.length ≤ (es.take start).length := by
  change (n.log.take start).length ≤ _
  rw [h, List.length_take, List.length_take, List.length_drop]
  omega

end Steps

section Runs
variable {n : RaftNode D} {es : List LogEntry} {ops : List LogOp}

theorem Tracks.drifted (h : Tracks n es) (hvalid : LogOp.Valid n.log.length ops)
    (hmore : n.log.length ≤ es.length) : ∃ es', Tracks (n.changeAll ops) es' ∧
      (∀ e ∈ es', e ∈ es ∨ e ∈ LogOp.pushed ops) ∧ (n.changeAll ops).log.length ≤ es'.length := by
  induction ops generalizing n es with
  | nil => exact ⟨es, h, fun e he => Or.inl he, hmore⟩
  | cons op ops ih =>
    cases op with
    | push e =>
      have hlen : (n.pushLogEntry e).log.length = n.log.length + 1 := List.length_append ..
      obtain ⟨es', ht, hmem, hlast⟩ := ih (h.push e) (by rw [hlen]; exact hvalid)
        (by rw [hlen, List.length_append]; exact Nat.succ_le_succ hmore)
      refine ⟨es', ht, fun x hx => ?_, hlast⟩
      rcases hmem x hx with hx | hx
      · rw [List.mem_append, List.mem_singleton] at hx
        rw [LogOp.pushed, List.mem_cons]
        tauto
      · exact Or.inr (List.mem_cons_of_mem _ hx)
    | truncate start =>
      obtain ⟨hpos, hle, hrest⟩ := hvalid
      have hlen : (n.truncateLog start).log.length = start := List.length_take_of_le hle
      obtain ⟨es', ht, hmem, hlast⟩ := ih (h.truncate hpos hle) (by rw [hlen]; exact hrest)
        (by rw [hlen, List.length_take]; omega)
      exact ⟨es', ht, fun x hx => (hmem x hx).imp_left List.mem_of_mem_take, hlast⟩

theorem Tracks.run (h : Tracks n es) (hvalid : LogOp.Valid n.log.length ops) (heq : es = n.log.drop 1) :
    ∃ es', Tracks (n.changeAll ops) es' ∧ (∀ e ∈ es', e ∈ es ∨ e ∈ LogOp.pushed ops) ∧
      (LogOp.DropsNothing n.log.length ops →
        es' = (n.changeAll ops).log.drop 1 ∧ es' = es ++ LogOp.pushed ops) ∧
      (¬ LogOp.DropsNothing n.log.length ops → (n.changeAll ops).log.length ≤ es'.length) := by
  induction ops generalizing n es with
  | nil =>
    exact ⟨es, h, fun e he => Or.inl he, fun _ => ⟨heq, (List.append_nil es).symm⟩,
      fun hno => absurd trivial hno⟩
  | cons op ops ih =>
    cases op with
    | push e =>
      have hlen : (n.pushLogEntry e).log.length = n.log.length + 1 := List.length_append ..
      have heq' : es ++ [e] = (n.pushLogEntry e).log.drop 1 := by
        rw [heq]
        exact (drop_one_append h.nonempty e).symm
      obtain ⟨es', ht, hmem, hclean, hdrift⟩ := ih (h.push e) (by rw [hlen]; exact hvalid) heq'
      rw [hlen] at hclean hdrift
      refine ⟨es', ht, fun x hx => ?_, fun hd => ?_, hdrift⟩
      · rcases hmem x hx with hx | hx
        · rw [List.mem_append, List.mem_singleton] at hx
          rw [LogOp.pushed, List.mem_cons]
          tauto
        · exact Or.inr (List.mem_cons_of_mem _ hx)
      · obtain ⟨hlast, hall⟩ := hclean hd
        exact ⟨hlast, by rw [hall, List.append_assoc]; rfl⟩
    | truncate start =>
      obtain ⟨hpos, hle, hrest⟩ := hvalid
      have hlen : (n.truncateLog start).log.length = start := List.length_take_of_le hle
      have ht := h.truncate hpos hle
      by_cases hall : start = n.log.length
      · have hfile : es.take start = es := List.take_of_length_le (by
          rw [heq, List.length_drop]
          omega)
        have heq' : es = (n.truncateLog start).log.drop 1 := by
          change _ = (n.log.take start).drop 1
          rw [hall, List.take_length, heq]
        rw [hfile] at ht
        obtain ⟨es', ht', hmem, hclean, hdrift⟩ := ih ht (by rw [hlen]; exact hrest) heq'
        rw [hlen] at hclean hdrift
        have hdrops : LogOp.DropsNothing n.log.length (.truncate start :: ops) ↔
            LogOp.DropsNothing start ops := by
          rw [LogOp.DropsNothing, ← hall]
          exact and_iff_right rfl
        exact ⟨es', ht', hmem, fun hd => hclean (hdrops.mp hd), fun hno => hdrift (mt hdrops.mpr hno)⟩
      · obtain ⟨es', ht', hmem, hlast⟩ := ht.drifted (by rw [hlen]; exact hrest)
          (drifts_of_drop heq (lt_of_le_of_ne hle hall))
        exact ⟨es', ht', fun x hx => (hmem x hx).imp_left List.mem_of_mem_take,
          fun hd => absurd hd.1 hall, fun _ => hlast⟩

end Runs

/-- What is read back of a file that was never torn is all of it just when every entry fits. -/
theorem openFile_eq_iff (es : List LogEntry) : (openFile (frames es)).2 = es ↔ ∀ e ∈ es, Fits e := by
  refine ⟨fun h => ?_, fun hes => ?_⟩
  · rcases exists_oversize es with hall | ⟨es₁, e, es₂, rfl, h1, h2⟩
    · exact hall
    · rw [frames_append, frames_cons, openFile_frames es₁ h1 (Or.inr (readEntry_oversize h2 _))] at h
      exact absurd h (by simp)
  · have hopen := openFile_frames es hes (Or.inl rfl)
    rw [List.append_nil] at hopen
    rw [hopen]

variable [FloatText]

/-- The log file mirrors the log of a node just when no truncation drops an entry, for entries within
the size limit; and when none drops an entry, just when all entries are within the limit. -/
theorem log_mirrored_iff (id : NodeId) (ps : List NodeId) (config : Config) (now : Instant) {n : RaftNode D}
    (hn : RaftNode.newInDir Dir.empty id ps config now = some n) {ops : List LogOp}
    (hvalid : LogOp.Valid 1 ops) :
    ((∀ e ∈ LogOp.pushed ops, Fits e) →
      ((n.changeAll ops).persisted = (n.changeAll ops).log.drop 1 ↔ LogOp.DropsNothing 1 ops)) ∧
    (LogOp.DropsNothing 1 ops →
      ((n.changeAll ops).persisted = (n.changeAll ops).log.drop 1 ↔ ∀ e ∈ LogOp.pushed ops, Fits e)) := by
  have hfresh : n.log = [sentinel] ∧ n.logStore = ⟨[], []⟩ := by
    simp only [RaftNode.newInDir, Dir.empty, Storage.open_empty, Option.some.injEq] at hn
    subst hn
    exact ⟨rfl, rfl⟩
  have hlen : n.log.length = 1 := by rw [hfresh.1, List.length_singleton]
  have hnil : ([] : List LogEntry) = n.log.drop 1 := by rw [hfresh.1]; rfl
  have hstart : Tracks n [] := ⟨hfresh.2.trans holds_nil, hlen.ge, Or.inl hnil⟩
  obtain ⟨es, ht, hmem, hclean, hdrift⟩ := hstart.run (by rw [hlen]; exact hvalid) hnil
  rw [hlen] at hclean hdrift
  have hread : (n.changeAll ops).persisted = (openFile (frames es)).2 := by
    rw [RaftNode.persisted, show (n.changeAll ops).logStore = ⟨frames es, starts 0 es⟩ from ht.holds]
  refine ⟨fun hfits => ⟨fun hmirror => ?_, fun hd => ?_⟩, fun hd => ?_⟩
  · by_contra hno
    have hes : (openFile (frames es)).2 = es := (openFile_eq_iff es).mpr fun e he =>
      hfits e ((hmem e he).resolve_left List.not_mem_nil)
    have hlast := hdrift hno
    have hpos := ht.nonempty
    rw [← hes, ← hread, hmirror, List.length_drop] at hlast
    omega
  · rw [hread, ← (hclean hd).1]
    exact (openFile_eq_iff es).mpr fun e he => hfits e ((hmem e he).resolve_left List.not_mem_nil)
  · obtain ⟨hlast, hall⟩ := hclean hd
    rw [List.nil_append] at hall
    rw [hread, ← hlast, openFile_eq_iff, hall]

end General

section Concrete
open scoped Concrete

theorem log_mirrored_two_entries : ∃ n : RaftNode Database,
    RaftNode.newInDir Dir.empty 1 [] .default ⟨0, 0⟩ = some n ∧
    (n.changeAll [.push ⟨1, .removeNode 2⟩, .push ⟨1, .removeNode 3⟩, .truncate 3]).persisted =
      (n.changeAll [.push ⟨1, .removeNode 2⟩, .push ⟨1, .removeNode 3⟩, .truncate 3]).log.drop 1 := by
  have hfits : ∀ e ∈ LogOp.pushed [.push ⟨1, .removeNode 2⟩, .push ⟨1, .removeNode 3⟩, .truncate 3],
      Fits e := by
    change ∀ e ∈ LogOp.pushed _, (Bincode.serialize e).length ≤ maxEntrySize
    decide +kernel
  have hn : (RaftNode.newInDir Dir.empty 1 [] .default ⟨0, 0⟩ : Option (RaftNode Database)).isSome = true := by
    decide +kernel
  obtain ⟨n, hn⟩ := Option.isSome_iff_exists.mp hn
  exact ⟨n, hn, ((log_mirrored_iff 1 [] .default ⟨0, 0⟩ hn (by decide)).1 hfits).mpr ⟨rfl, trivial⟩⟩

/-- A conflict at index 1 is replaced in memory; the file keeps the entry that was dropped. -/
theorem log_not_mirrored : ∃ n : RaftNode Database,
    RaftNode.newInDir Dir.empty 1 [] .default ⟨0, 0⟩ = some n ∧
    (n.changeAll [.push ⟨1, .removeNode 2⟩, .truncate 1, .push ⟨2, .removeNode 3⟩]).log.drop 1 =
      [⟨2, .removeNode 3⟩] ∧
    (n.changeAll [.push ⟨1, .removeNode 2⟩, .truncate 1, .push ⟨2, .removeNode 3⟩]).persisted =
      [⟨1, .removeNode 2⟩, ⟨2, .removeNode 3⟩] := by
  have hrun : ((RaftNode.newInDir Dir.empty 1 [] .default ⟨0, 0⟩ : Option (RaftNode Database)).map fun n =>
      ((n.changeAll [.push ⟨1, .removeNode 2⟩, .truncate 1, .push ⟨2, .removeNode 3⟩]).log.drop 1,
        (n.changeAll [.push ⟨1, .removeNode 2⟩, .truncate 1, .push ⟨2, .removeNode 3⟩]).persisted)) =
      some ([⟨2, .removeNode 3⟩], [⟨1, .removeNode 2⟩, ⟨2, .removeNode 3⟩]) := by
    decide +kernel
  obtain ⟨n, hn, hrun⟩ := Option.map_eq_some_iff.mp hrun
  obtain ⟨hlog, hfile⟩ := Prod.ext_iff.mp hrun
  exact ⟨n, hn, hlog, hfile⟩

end Concrete
end KvRaft
