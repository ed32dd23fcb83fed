import KvRaft.Raft.Clients
import KvRaft.Raft.Safety

/-! The answers to writes, over whole runs: which request an answer belongs to, and what a reported
success says about the logs. -/

namespace KvRaft
open ReplicatedLog RaftNode

def Action.writeTo (id : NodeId) : Action → Option (Responder × Command)
  | .process j input _ => if j = id then input.write else none
  | _ => none

/-- The writes handed to node `id`, in order; a request is named by its place in this list. -/
def writesTo (id : NodeId) (as : List Action) : List (Responder × Command) := as.filterMap (Action.writeTo id)

theorem writesTo_concat (id : NodeId) (as : List Action) (x : Action) :
    writesTo id (as ++ [x]) = writesTo id as ++ (x.writeTo id).toList := by
  rw [writesTo, List.filterMap_append, List.filterMap_cons, writesTo]
  cases x.writeTo id with
  | none => rfl
  | some w => rfl

section General
variable [FloatText] {D : Type} [Storage D]

def LogEntry.ofCommand (term : Nat) (c : Command) : LogEntry := ⟨term, .command (LogRecord.new 0 c)⟩

namespace Cluster

def answeredBy (c : Cluster D) (id : NodeId) : Multiset Answer :=
  match c.nodes id with
  | some n => n.answered
  | none => 0

def givenIn (id : NodeId) (c c' : Cluster D) : Action → Multiset Answer
  | .process j input _ => if j = id ∧ input.isRead = false then c'.answeredBy id - c.answeredBy id else 0
  | _ => 0

/-- The command `cmd` is at index `i` of the log of node `id` and applied there, and every node that has
applied index `i` has applied the same entry. -/
def Holds (c : Cluster D) (id : NodeId) (i : Nat) (cmd : Command) : Prop :=
  ∃ n t, c.nodes id = some n ∧ 0 < i ∧ i ≤ n.lastApplied ∧ n.log[i]? = some (.ofCommand t cmd) ∧
    ∀ j m, c.nodes j = some m → i ≤ m.lastApplied → m.log[i]? = some (.ofCommand t cmd)

/-- The answers to writes on node `id` in a run, step by step, each with its request: no request has two
answers, the request comes before the answer, and a success says where the command is, then and in every
later state. -/
structure Traced [Bincode] (config : Config) (id : NodeId) (c₀ : Cluster D) (as : List Action)
    (origin : List (Multiset (Answer × Nat))) : Prop where
  all : ∀ before x after c c', as = before ++ x :: after → exec config c₀ before = some c →
    step config c x = some c' →
    origin[before.length]?.map (Multiset.map Prod.fst) = some (givenIn id c c' x)
  nodup : (origin.sum.map Prod.snd).Nodup
  sound : ∀ before after c, as = before ++ after → exec config c₀ before = some c →
    ∀ p ∈ (origin.take before.length).sum, ∃ cmd, (writesTo id before)[p.2]? = some (p.1.responder, cmd) ∧
      (p.1.success = true → ∃ i, p.1.message = appliedAt i ∧ c.Holds id i cmd)

end Cluster

section Book
variable {M : Membership} {a a' : State NodeId LogEntry} {id : NodeId}

def CommittedAt (M : Membership) (a : State NodeId LogEntry) (i : Nat) (e : LogEntry) : Prop :=
  ∃ b ℓ, Committed M.setting a b ℓ i ∧ LogOk M.setting a ℓ ∧ ℓ[i]? = some e

/-- As leader of the term, node `id` has put the command at the index that the key says. -/
def Proposed (a : State NodeId LogEntry) (id : NodeId) (key : Nat × Nat) (cmd : Command) : Prop :=
  ∃ L, a.led key.2 = some (id, L) ∧ L[key.1]? = some (.ofCommand key.2 cmd)

theorem CommittedAt.mono {i : Nat} {e : LogEntry} (h : CommittedAt M a i e) (hx : Extends a a') :
    CommittedAt M a' i e := by
  obtain ⟨b, ℓ, hc, hok, he⟩ := h
  exact ⟨b, ℓ, hc.mono hx le_rfl List.prefix_rfl, hok.mono hx, he⟩

theorem Proposed.mono {key : Nat × Nat} {cmd : Command} (h : Proposed a id key cmd) (hx : Extends a a') :
    Proposed a' id key cmd := by
  obtain ⟨L, hl, he⟩ := h
  obtain ⟨L', hl', hp⟩ := hx.led _ _ _ hl
  exact ⟨L', hl', (prefix_getElem? hp (List.getElem?_eq_some_iff.mp he).1).trans he⟩

theorem CommittedAt.agree {config : Config} {i : Nat} {e : LogEntry} (h : CommittedAt M a i e)
    {n : RaftNode D} (hn : NodeOk M config a id n) (hi : i ≤ n.lastApplied) : n.log[i]? = some e := by
  obtain ⟨b, ℓ, hc, hok, he⟩ := h
  have htake := hc.agree hn.inv hn.sim.applied hok hn.logOk hi
  have heq : ℓ[i]? = n.log[i]? := by
    rw [← List.getElem?_take_of_lt (Nat.lt_succ_self i), ← List.getElem?_take_of_lt
      (l := n.log) (Nat.lt_succ_self i)]
    exact congrArg (·[i]?) htake
  exact heq ▸ he

/-- The answers given so far with their requests `B`, and the requests `p` that wait, `g` of each key:
every request is one of `W`, and none is there twice. -/
structure Book (M : Membership) (a : State NodeId LogEntry) (id : NodeId) (W : List (Responder × Command))
    (applied : Nat) (B : Multiset (Answer × Nat)) (p : Pending) (g : Nat × Nat → Nat) : Prop where
  nodup : (B.map Prod.snd).Nodup
  given : ∀ x ∈ B, ∃ cmd, W[x.2]? = some (x.1.responder, cmd) ∧ (x.1.success = true → ∃ i t,
    x.1.message = appliedAt i ∧ 0 < i ∧ i ≤ applied ∧ CommittedAt M a i (.ofCommand t cmd))
  waits : ∀ key r, p.lookup key = some r → ∃ cmd, W[g key]? = some (r, cmd) ∧ g key ∉ B.map Prod.snd ∧
    Proposed a id key cmd
  apart : ∀ key ∈ p, ∀ key' ∈ p, g key = g key' → key = key'

namespace Book
variable {W : List (Responder × Command)} {applied applied' : Nat} {B : Multiset (Answer × Nat)}
  {p p' : Pending} {g : Nat × Nat → Nat}

theorem mono (h : Book M a id W applied B p g) (hx : Extends a a') (hle : applied ≤ applied')
    (w : List (Responder × Command)) : Book M a' id (W ++ w) applied' B p g := by
  have hold : ∀ {q : Nat} {x : Responder × Command}, W[q]? = some x → (W ++ w)[q]? = some x := fun hq => by
    rw [List.getElem?_append_left (List.getElem?_eq_some_iff.mp hq).1, hq]
  refine ⟨h.nodup, fun x hx' => ?_, fun key r hkey => ?_, h.apart⟩
  · obtain ⟨cmd, hW, hok⟩ := h.given x hx'
    refine ⟨cmd, hold hW, fun hs => ?_⟩
    obtain ⟨i, t, hm, hpos, hi, hc⟩ := hok hs
    exact ⟨i, t, hm, hpos, hi.trans hle, hc.mono hx⟩
  · obtain ⟨cmd, hW, hnew, hl⟩ := h.waits key r hkey
    exact ⟨cmd, hold hW, hnew, hl.mono hx⟩

theorem proposed_log {key : Nat × Nat} {cmd : Command} (h : Proposed a id key cmd) {log : List LogEntry}
    (hok : LogOk M.setting a log) (hpos : 0 < key.1)
    (hterm : log[key.1]?.map LogEntry.term = some key.2) : log[key.1]? = some (.ofCommand key.2 cmd) := by
  obtain ⟨L, hl, he⟩ := h
  obtain ⟨e, hlog, ht⟩ := Option.map_eq_some_iff.mp hterm
  obtain ⟨c, L', hl', hp⟩ := hok.origin key.1 e hlog hpos
  have hled : a.led key.2 = some (c, L') := ht ▸ hl'
  obtain ⟨-, rfl⟩ := Prod.mk.inj (Option.some.inj (hl.symm.trans hled))
  have hlt := (List.getElem?_eq_some_iff.mp hlog).1
  rw [← he, prefix_getElem? hp (by rw [List.length_take]; omega), List.getElem?_take_of_lt (Nat.lt_succ_self _)]

theorem add (h : Book M a id W applied B p g) {x : Answer} {q : Nat} {cmd : Command}
    (hW : W[q]? = some (x.responder, cmd)) (hnew : q ∉ B.map Prod.snd) (hwait : ∀ key ∈ p, g key ≠ q)
    (hok : x.success = true → ∃ i t, x.message = appliedAt i ∧ 0 < i ∧ i ≤ applied ∧
      CommittedAt M a i (.ofCommand t cmd)) : Book M a id W applied (B + {(x, q)}) p g := by
  refine ⟨?_, fun y hy => ?_, fun key r hkey => ?_, h.apart⟩
  · rw [Multiset.map_add, Multiset.map_singleton, add_comm, Multiset.singleton_add]
    exact Multiset.nodup_cons.mpr ⟨hnew, h.nodup⟩
  · rcases Multiset.mem_add.mp hy with hy | hy
    · exact h.given y hy
    · rw [Multiset.mem_singleton.mp hy]
      exact ⟨cmd, hW, hok⟩
  · obtain ⟨cmd', hW', hnew', hl⟩ := h.waits key r hkey
    refine ⟨cmd', hW', fun hmem => ?_, hl⟩
    rw [Multiset.map_add, Multiset.map_singleton] at hmem
    rcases Multiset.mem_add.mp hmem with hmem | hmem
    · exact hnew' hmem
    · exact hwait key (AList.lookup_isSome.mp (Option.isSome_of_eq_some hkey)) (Multiset.mem_singleton.mp hmem)

theorem sub (h : Book M a id W applied B p g) (hsub : ∀ key r, p'.lookup key = some r → p.lookup key = some r) :
    Book M a id W applied B p' g := by
  have hmem : ∀ key ∈ p', key ∈ p := fun key hkey => by
    obtain ⟨r, hr⟩ := Option.isSome_iff_exists.mp (AList.lookup_isSome.mpr hkey)
    exact AList.lookup_isSome.mp (Option.isSome_of_eq_some (hsub key r hr))
  exact ⟨h.nodup, h.given, fun key r hkey => h.waits key r (hsub key r hkey),
    fun key hkey key' hkey' => h.apart key (hmem key hkey) key' (hmem key' hkey')⟩

theorem serves (h : Book M a id W applied B p g) {log : List LogEntry} (hok : LogOk M.setting a log) {b : Nat}
    (hc : Committed M.setting a b log applied) {given : Multiset Answer}
    (hs : Serves log applied p p' given) :
    ∃ C : Multiset (Answer × Nat), C.map Prod.fst = given ∧ Book M a id W applied (B + C) p' g := by
  induction hs with
  | refl => exact ⟨0, rfl, by rwa [add_zero]⟩
  | @answer p' given key r success message hs hkey hsucc ih =>
    obtain ⟨C, hC, hbook⟩ := ih
    obtain ⟨cmd, hW, hnew, hprop⟩ := hbook.waits key r hkey
    have hmem : key ∈ p' := AList.lookup_isSome.mp (Option.isSome_of_eq_some hkey)
    have hrest : Book M a id W applied (B + C) (p'.erase key) g := hbook.sub fun key' r' hkey' => by
      have hne : key' ≠ key := by
        rintro rfl
        rw [AList.lookup_erase] at hkey'
        cases hkey'
      rwa [AList.lookup_erase_ne hne] at hkey'
    refine ⟨C + {(⟨r, success, none, message⟩, g key)}, by rw [Multiset.map_add, hC]; rfl, ?_⟩
    rw [← add_assoc]
    refine hrest.add hW hnew (fun key' hkey' heq => ?_) fun hs => ?_
    · obtain ⟨hne, hkey'⟩ := AList.mem_erase.mp hkey'
      exact hne (hbook.apart key' hkey' key hmem heq)
    · obtain ⟨hle, hpos, hterm, hmessage⟩ := hsucc hs
      exact ⟨key.1, key.2, hmessage, hpos, hle, b, log, hc.of_le hle, hok, proposed_log hprop hok hpos hterm⟩

theorem lt_of_mem (h : Book M a id W applied B p g) {q : Nat} (hq : q ∈ B.map Prod.snd) : q < W.length := by
  obtain ⟨x, hx, rfl⟩ := Multiset.mem_map.mp hq
  obtain ⟨cmd, hW, -⟩ := h.given x hx
  exact (List.getElem?_eq_some_iff.mp hW).1

theorem lt_of_waits (h : Book M a id W applied B p g) {key : Nat × Nat} (hkey : key ∈ p) : g key < W.length := by
  obtain ⟨r, hr⟩ := Option.isSome_iff_exists.mp (AList.lookup_isSome.mpr hkey)
  obtain ⟨cmd, hW, -⟩ := h.waits key r hr
  exact (List.getElem?_eq_some_iff.mp hW).1

theorem reply (h : Book M a id W applied B p g) {x : Answer} {cmd : Command}
    (hok : x.success = true → ∃ i t, x.message = appliedAt i ∧ 0 < i ∧ i ≤ applied ∧
      CommittedAt M a i (.ofCommand t cmd)) :
    Book M a id (W ++ [(x.responder, cmd)]) applied (B + {(x, W.length)}) p g := by
  refine (h.mono (Extends.refl a) le_rfl [(x.responder, cmd)]).add ?_ (fun hq => ?_) (fun key hkey heq => ?_) hok
  · rw [List.getElem?_concat_length]
  · exact absurd (h.lt_of_mem hq) (lt_irrefl _)
  · exact absurd (h.lt_of_waits hkey) heq.not_lt

theorem wait (h : Book M a id W applied B p g) {key : Nat × Nat} {r : Responder} {cmd : Command}
    (hprop : Proposed a id key cmd) :
    Book M a id (W ++ [(r, cmd)]) applied B (p.insert key r) (Function.update g key W.length) := by
  have hW := h.mono (Extends.refl a) le_rfl [(r, cmd)]
  have hother : ∀ key' ∈ p.insert key r, key' ≠ key → key' ∈ p := fun key' hkey' hne =>
    ((AList.mem_insert p).mp hkey').resolve_left hne
  refine ⟨h.nodup, hW.given, fun key' r' hkey' => ?_, fun key₁ h₁ key₂ h₂ heq => ?_⟩
  · by_cases hne : key' = key
    · subst hne
      rw [AList.lookup_insert] at hkey'
      obtain rfl := Option.some.inj hkey'
      refine ⟨cmd, by rw [Function.update_self, List.getElem?_concat_length], fun hq => ?_, hprop⟩
      rw [Function.update_self] at hq
      exact absurd (h.lt_of_mem hq) (lt_irrefl _)
    · rw [AList.lookup_insert_ne hne] at hkey'
      rw [Function.update_of_ne hne]
      exact hW.waits key' r' hkey'
  · by_cases h1 : key₁ = key
    · by_cases h2 : key₂ = key
      · exact h1.trans h2.symm
      · rw [h1, Function.update_self, Function.update_of_ne h2] at heq
        exact absurd (h.lt_of_waits (hother key₂ h₂ h2)) heq.not_gt
    · by_cases h2 : key₂ = key
      · rw [h2, Function.update_self, Function.update_of_ne h1] at heq
        exact absurd (h.lt_of_waits (hother key₁ h₁ h1)) heq.not_lt
      · rw [Function.update_of_ne h1, Function.update_of_ne h2] at heq
        exact h.apart key₁ (hother key₁ h₁ h1) key₂ (hother key₂ h₂ h2) heq

end Book
end Book

section Process
variable {M : Membership} {config : Config} {a a' : State NodeId LogEntry} {id : NodeId} {n n' : RaftNode D}
  {W : List (Responder × Command)} {B : Multiset (Answer × Nat)} {g : Nat × Nat → Nat}

theorem NodeOk.committedAt (h : NodeOk M config a id n) {i : Nat} (hi : i ≤ n.lastApplied) {e : LogEntry}
    (he : n.log[i]? = some e) : CommittedAt M a i e :=
  ⟨n.currentTerm, n.log, h.sim.applied.of_le hi, h.logOk, he⟩

theorem NodeOk.proposed (h : NodeOk M config a id n) (hr : n.role = .leader) (hx : Extends a a')
    (h' : NodeOk M config a' id n') {c : Command} (hlog : n'.log = n.log ++ [.ofCommand n.currentTerm c]) :
    Proposed a' id (n.log.length, n.currentTerm) c := by
  obtain ⟨L, hl, -⟩ := hx.led _ _ _ (h.sim.leader hr).1
  have he : n'.log[n.log.length]? = some (.ofCommand n.currentTerm c) := by
    rw [hlog, List.getElem?_concat_length]
  obtain ⟨c', L', hl', hp⟩ := h'.logOk.origin _ _ he h.logOk.length_pos
  obtain ⟨-, rfl⟩ := Prod.mk.inj (Option.some.inj (hl.symm.trans hl'))
  have hlt := (List.getElem?_eq_some_iff.mp he).1
  refine ⟨L, hl, ?_⟩
  rw [prefix_getElem? hp (by rw [List.length_take]; omega), List.getElem?_take_of_lt (Nat.lt_succ_self _)]
  exact he

theorem Book.submit [Bincode] (hb : Book M a id W n.lastApplied B n.pendingRequests g) (h : NodeOk M config a id n)
    (hx : Extends a a') (h' : NodeOk M config a' id n') {c : Command} {r : Responder}
    (hs : n.submitStoreWrite c r = some n') :
    ∃ C g', C.map Prod.fst + n.answered = n'.answered ∧
      Book M a' id (W ++ [(r, c)]) n'.lastApplied (B + C) n'.pendingRequests g' := by
  rcases submitStoreWrite_serves hs with ⟨-, hp, happ, message, hans⟩ | ⟨p, given, hr, hle, hserves, hlog, hcase⟩
  · refine ⟨{(⟨r, false, none, message⟩, W.length)}, g, by rw [hans, add_comm]; rfl, ?_⟩
    have hb' := hb.mono hx le_rfl []
    rw [List.append_nil] at hb'
    rw [hp, happ]
    exact hb'.reply (x := ⟨r, false, none, message⟩) fun hs => absurd hs Bool.false_ne_true
  · have hb' := hb.mono hx hle []
    rw [List.append_nil] at hb'
    obtain ⟨C, hC, hb'⟩ := hb'.serves h'.logOk h'.sim.applied hserves
    rcases hcase with ⟨hi, hp, hans⟩ | ⟨hp, hans⟩
    · refine ⟨C + {(⟨r, true, none, appliedAt n.log.length⟩, W.length)}, g, ?_, ?_⟩
      · rw [hans, Multiset.map_add, hC, Multiset.map_singleton, add_comm, add_assoc]
      · rw [hp, ← add_assoc]
        have he : n'.log[n.log.length]? = some (.ofCommand n.currentTerm c) := by
          rw [hlog, List.getElem?_concat_length]
          rfl
        exact hb'.reply (x := ⟨r, true, none, appliedAt n.log.length⟩)
          fun _ => ⟨n.log.length, n.currentTerm, rfl, h.logOk.length_pos, hi, h'.committedAt hi he⟩
    · refine ⟨C, Function.update g (n.log.length, n.currentTerm) W.length, by rw [hans, hC, add_comm], ?_⟩
      rw [hp]
      exact hb'.wait (h.proposed hr hx h' hlog)

theorem Book.process [Bincode] (hb : Book M a id W n.lastApplied B n.pendingRequests g) (h : NodeOk M config a id n)
    (hx : Extends a a') (h' : NodeOk M config a' id n') {input : Input} {now : Instant}
    (hs : n.process input now = some n') :
    ∃ C g', (input.isRead = false → C.map Prod.fst + n.answered = n'.answered) ∧
      (input.isRead = true → C = 0) ∧
      Book M a' id (W ++ input.write.toList) n'.lastApplied (B + C) n'.pendingRequests g' := by
  cases hr : input.isRead with
  | true =>
    obtain ⟨hw, hp, happ, -⟩ := process_read hr hs
    refine ⟨0, g, fun h => absurd h.symm Bool.false_ne_true, fun _ => rfl, ?_⟩
    rw [add_zero, hp, happ]
    exact hb.mono hx le_rfl _
  | false =>
    cases hw : input.write with
    | none =>
      obtain ⟨hle, given, hgiven, hserves⟩ := process_servesTo hw hr hs
      obtain ⟨C, hC, hb'⟩ := (hb.mono hx hle []).serves h'.logOk h'.sim.applied hserves
      exact ⟨C, g, fun _ => by rw [hC, hgiven, add_comm], fun h => absurd h Bool.false_ne_true, hb'⟩
    | some w =>
      have hok : NodeOk M config a id { n with crashPoints := [] } := h.silent rfl fun e he => Or.inl he
      obtain ⟨C, g', hC, hb'⟩ := Book.submit (n := { n with crashPoints := [] }) hb hok hx h'
        (process_write hw hs)
      exact ⟨C, g', fun _ => hC, fun h => absurd h Bool.false_ne_true, hb'⟩

end Process

section Run
variable {M : Membership} {config : Config} {a a' : State NodeId LogEntry} {id : NodeId} {c c' : Cluster D}
  {W : List (Responder × Command)} {B : Multiset (Answer × Nat)}

def Kept (M : Membership) (id : NodeId) (c : Cluster D) (a : State NodeId LogEntry)
    (W : List (Responder × Command)) (B : Multiset (Answer × Nat)) : Prop :=
  (c.nodes id = none → B = 0) ∧
    ∀ n, c.nodes id = some n → ∃ g, Book M a id W n.lastApplied B n.pendingRequests g

theorem Kept.frame (h : Kept M id c a W B) (hx : Extends a a') (hn : c'.nodes id = c.nodes id) :
    Kept M id c' a' W B := by
  refine ⟨fun hnone => h.1 (hn ▸ hnone), fun n hsome => ?_⟩
  obtain ⟨g, hb⟩ := h.2 n (hn ▸ hsome)
  exact ⟨g, by simpa only [List.append_nil] using hb.mono hx le_rfl []⟩

theorem Kept.sub {n n' : RaftNode D} (h : Kept M id c a W B) (hx : Extends a a') (hn : c.nodes id = some n)
    (hn' : c'.nodes id = some n') (happ : n'.lastApplied = n.lastApplied)
    (hsub : ∀ key r, n'.pendingRequests.lookup key = some r → n.pendingRequests.lookup key = some r) :
    Kept M id c' a' W B := by
  refine ⟨fun hnone => (nomatch hnone.symm.trans hn'), fun m hm => ?_⟩
  obtain rfl := Option.some.inj (hn'.symm.trans hm)
  obtain ⟨g, hb⟩ := h.2 n hn
  refine ⟨g, happ ▸ Book.sub ?_ hsub⟩
  simpa only [List.append_nil] using hb.mono hx le_rfl []

theorem Kept.step [Bincode] (h : Kept M id c a W B) (hc : ClusterOk M config c a) (hx : Extends a a')
    (hc' : ClusterOk M config c' a') {x : Action} (hmem : x.inMemory = true)
    (hs : Cluster.step config c x = some c') :
    ∃ C, C.map Prod.fst = Cluster.givenIn id c c' x ∧
      Kept M id c' a' (W ++ (x.writeTo id).toList) (B + C) := by
  -- an action that is not a write to the node adds nothing to the book
  have hquiet : ∀ {y : Action}, y.writeTo id = none → Kept M id c' a' W B →
      Kept M id c' a' (W ++ (y.writeTo id).toList) (B + 0) := fun hw hk => by
    rwa [hw, add_zero, Option.toList_none, List.append_nil]
  cases x with
  | process j input now =>
    obtain ⟨n, hn, -, n', hn', rfl⟩ := Cluster.step_process.mp hs
    by_cases hj : j = id
    · subst hj
      obtain ⟨g, hb⟩ := h.2 n hn
      obtain ⟨C, g', hans, hread, hb'⟩ := hb.process (hc.nodes j n hn) hx
        (hc'.nodes j n' (Cluster.setNode_self ..)) hn'
      refine ⟨C, ?_, fun hnone => ?_, fun m hm => ?_⟩
      · simp only [Cluster.givenIn, Cluster.answeredBy, Cluster.setNode_self, hn, true_and]
        split_ifs with hr
        · rw [← hans hr, add_tsub_cancel_right]
        · rw [hread (by simpa using hr), Multiset.map_zero]
      · rw [Cluster.setNode_self] at hnone
        cases hnone
      · obtain rfl := Option.some.inj ((Cluster.setNode_self ..).symm.trans hm)
        refine ⟨g', ?_⟩
        rw [Action.writeTo, if_pos rfl]
        exact hb'
    · refine ⟨0, ?_, hquiet (if_neg hj) (h.frame hx (Cluster.setNode_of_ne c n' (Ne.symm hj)))⟩
      rw [Cluster.givenIn, if_neg fun h => hj h.1, Multiset.map_zero]
  | restart j now =>
    obtain ⟨n, hn, rfl⟩ := Cluster.step_restart.mp hs
    refine ⟨0, rfl, hquiet rfl ?_⟩
    by_cases hj : j = id
    · subst hj
      exact h.sub hx hn (Cluster.setNode_self ..) rfl fun key r hkey => nomatch hkey
    · exact h.frame hx (Cluster.setNode_of_ne c _ (Ne.symm hj))
  | flush j =>
    obtain ⟨n, hn, rfl⟩ := Cluster.step_flush.mp hs
    refine ⟨0, rfl, hquiet rfl ?_⟩
    by_cases hj : j = id
    · subst hj
      exact h.sub hx hn (Cluster.setNode_self ..) rfl fun key r hkey => hkey
    · exact h.frame hx (Cluster.setNode_of_ne c _ (Ne.symm hj))
  | crash => cases hmem
  | join => cases hmem

theorem Kept.holds (h : Kept M id c a W B) (hc : ClusterOk M config c a) {x : Answer × Nat} (hx : x ∈ B) :
    ∃ cmd, W[x.2]? = some (x.1.responder, cmd) ∧
      (x.1.success = true → ∃ i, x.1.message = appliedAt i ∧ c.Holds id i cmd) := by
  cases hn : c.nodes id with
  | none =>
    rw [h.1 hn] at hx
    exact absurd hx (Multiset.notMem_zero x)
  | some n =>
    obtain ⟨g, hb⟩ := h.2 n hn
    obtain ⟨cmd, hW, hok⟩ := hb.given x hx
    refine ⟨cmd, hW, fun hs => ?_⟩
    obtain ⟨i, t, hm, hpos, hi, hcom⟩ := hok hs
    exact ⟨i, hm, n, t, hn, hpos, hi, hcom.agree (hc.nodes id n hn) hi,
      fun j m hj hle => hcom.agree (hc.nodes j m hj) hle⟩

theorem Kept.nodup (h : Kept M id c a W B) : (B.map Prod.snd).Nodup := by
  cases hn : c.nodes id with
  | none =>
    rw [h.1 hn]
    exact Multiset.nodup_zero
  | some n =>
    obtain ⟨g, hb⟩ := h.2 n hn
    exact hb.nodup

theorem Kept.start [Bincode] (M : Membership) (config : Config) (now : Instant) (id : NodeId) :
    Kept M id (M.start config now : Cluster D) (State.init M.setting) [] 0 := by
  refine ⟨fun _ => rfl, fun n hn => ⟨fun _ => 0, ?_⟩⟩
  have hp : n.pendingRequests = ∅ := by
    change (if id ∈ M.members then _ else _) = _ at hn
    split_ifs at hn
    exact newInDir_pending hn
  rw [hp]
  exact ⟨Multiset.nodup_zero, fun x hx => absurd hx (Multiset.notMem_zero x), fun key r hkey => (nomatch hkey),
    fun key hkey => absurd hkey (AList.notMem_empty key)⟩

theorem Cluster.Traced.concat [Bincode] {c₀ : Cluster D} {as : List Action} {x : Action}
    {origin : List (Multiset (Answer × Nat))} {C : Multiset (Answer × Nat)}
    (h : Traced config id c₀ as origin) (hlen : origin.length = as.length)
    (hc : exec config c₀ as = some c) (hs : step config c x = some c')
    (hC : C.map Prod.fst = givenIn id c c' x)
    (hk : Kept M id c' a' (writesTo id (as ++ [x])) (origin ++ [C]).sum) (hc' : ClusterOk M config c' a') :
    Traced config id c₀ (as ++ [x]) (origin ++ [C]) := by
  refine ⟨fun before y after b b' heq hb hb' => ?_, hk.nodup, fun before after b heq hb => ?_⟩
  · rcases List.eq_nil_or_concat after with rfl | ⟨after, z, rfl⟩
    · obtain ⟨rfl, hxy⟩ := List.append_inj' heq rfl
      obtain rfl := List.singleton_inj.mp hxy
      obtain rfl := Option.some.inj (hc.symm.trans hb)
      obtain rfl := Option.some.inj (hs.symm.trans hb')
      rw [← hlen, List.getElem?_concat_length, Option.map_some, hC]
    · rw [List.concat_eq_append, ← List.cons_append, ← List.append_assoc] at heq
      obtain ⟨rfl, -⟩ := List.append_inj' heq rfl
      rw [List.getElem?_append_left (by rw [hlen, List.length_append, List.length_cons]; omega)]
      exact h.all before y after b b' rfl hb hb'
  · rcases List.eq_nil_or_concat after with rfl | ⟨after, z, rfl⟩
    · rw [List.append_nil] at heq
      subst heq
      obtain rfl : c' = b := Option.some.inj
        (((exec_concat config).mpr ⟨c, hc, hs⟩).symm.trans hb)
      rw [List.length_append, List.length_singleton, ← hlen, List.take_length_add_append]
      exact fun p hp => hk.holds hc' hp
    · rw [List.concat_eq_append, ← List.append_assoc] at heq
      obtain ⟨rfl, -⟩ := List.append_inj' heq rfl
      rw [List.take_append_of_le_length (by rw [hlen, List.length_append]; omega)]
      exact h.sound before after b rfl hb

end Run

section Acknowledgements

theorem exists_traced [Bincode] (M : Membership) (config : Config) (now : Instant) {as : List Action}
    (has : ∀ x ∈ as, x.inMemory = true) {c : Cluster D}
    (hc : Cluster.exec config (M.start config now) as = some c) (id : NodeId) :
    ∃ origin a, origin.length = as.length ∧ ClusterOk M config c a ∧
      Kept M id c a (writesTo id as) origin.sum ∧
      Cluster.Traced config id (M.start config now : Cluster D) as origin := by
  induction as using List.reverseRecOn generalizing c with
  | nil =>
    obtain rfl := Option.some.inj hc
    refine ⟨[], State.init M.setting, rfl, .start M config now, .start M config now id, ?_, Multiset.nodup_zero,
      ?_⟩
    · exact fun before x after _ _ h => absurd h.symm (List.append_ne_nil_of_right_ne_nil _ (List.cons_ne_nil _ _))
    · intro before after b h hb p hp
      rw [List.take_nil] at hp
      exact absurd hp (Multiset.notMem_zero p)
  | append_singleton as x ih =>
    obtain ⟨b, hb, hs⟩ := (Cluster.exec_concat config).mp hc
    obtain ⟨origin, a, hlen, hok, hk, htraced⟩ := ih (fun y hy => has y (List.mem_append_left _ hy)) hb
    have hx : x.inMemory = true := has x (List.mem_append_right _ (List.mem_singleton_self x))
    obtain ⟨a', hext, hok'⟩ := hok.step hx hs
    obtain ⟨C, hC, hk'⟩ := hk.step hok hext hok' hx hs
    have hsum : Kept M id c a' (writesTo id (as ++ [x])) (origin ++ [C]).sum := by
      rw [List.sum_append, List.sum_singleton, writesTo_concat]
      exact hk'
    refine ⟨origin ++ [C], a', ?_, hok', hsum, htraced.concat hlen hb hs hC hsum hok'⟩
    rw [List.length_append, List.length_append, hlen]
    rfl

/-- Client acknowledgements: a write that a node was asked for has at most one answer, and if that is a
success, the log of the node has the command at the reported index and has applied it, and every node
that applies the index applies this command. -/
theorem write_answers_sound [Bincode] (M : Membership) (config : Config) (now : Instant) {as : List Action}
    (has : ∀ x ∈ as, x.inMemory = true) {c : Cluster D}
    (hc : Cluster.exec config (M.start config now) as = some c) (id : NodeId) :
    ∃ origin, Cluster.Traced config id (M.start config now : Cluster D) as origin := by
  obtain ⟨origin, a, -, -, -, h⟩ := exists_traced M config now has hc id
  exact ⟨origin, h⟩

end Acknowledgements
end General

/-- The leader of term 1 is asked for a write, which node 2 stores. -/
def storedWrite [FloatText] (now : Instant) : List Action := firstElection now ++
  [.process 1 (.request ⟨.set "a" (.int 1), .oneshot 7⟩) now, .flush 1,
    .process 2 (.message (.appendEntries
      ⟨1, 1, 0, 0, [⟨1, .command (LogRecord.new 0 (.set "a" (.int 1)))⟩], 0⟩)) now, .flush 2]

def acknowledgedWrite [FloatText] (now : Instant) : List Action := storedWrite now ++
  [.process 1 (.message (.appendEntriesResponse ⟨1, 2, true, 1⟩)) now]

section Concrete
open scoped Concrete

theorem write_answers_sound_first_write : ∃ c : Cluster Database,
    Cluster.exec .default (Membership.three.start .default ⟨0, 0⟩) (acknowledgedWrite ⟨0, 0⟩) = some c ∧
    c.answeredBy 1 = {⟨.oneshot 7, true, none, "Write committed and applied at log index 1"⟩} ∧
    ∃ origin, Cluster.Traced .default 1 (Membership.three.start .default ⟨0, 0⟩ : Cluster Database)
      (acknowledgedWrite ⟨0, 0⟩) origin := by
  have hrun : (Cluster.exec .default (Membership.three.start .default ⟨0, 0⟩ : Cluster Database)
      (acknowledgedWrite ⟨0, 0⟩)).map (fun c => c.answeredBy 1) =
        some {⟨.oneshot 7, true, none, "Write committed and applied at log index 1"⟩} := by
    decide +kernel
  obtain ⟨c, hc, hanswer⟩ := Option.map_eq_some_iff.mp hrun
  exact ⟨c, hc, hanswer, write_answers_sound Membership.three .default ⟨0, 0⟩ (by decide) hc 1⟩

end Concrete
end KvRaft
