import KvRaft.Raft.Acknowledgements
import KvRaft.Raft.Applying
import KvRaft.Raft.Channels

/-! The order in which writes take effect: an acknowledged write has an index of its own, above the
indices of all writes that were acknowledged before it was submitted. -/

namespace KvRaft
open ReplicatedLog RaftNode

def RaftNode.Input.asker : Input → Option Responder
  | .request ⟨_, r⟩ => some r
  | .message (.clientRequest requestId clientId _) | .message (.clientQuery requestId clientId _)
  | .message (.statusQuery requestId clientId) => some (.raftClient clientId requestId)
  | _ => none

def Action.asker : Action → Option Responder
  | .process _ input _ => input.asker
  | _ => none

section General
variable {D : Type} [Storage D]

namespace RaftNode
variable [FloatText] [Bincode]

structure Appends (input : Input) (n n' : RaftNode D) (r : Responder) (c : Command) : Prop where
  write : input.write = some (r, c)
  leader : n.role = .leader
  log : n'.log = n.log ++ [.ofCommand n.currentTerm c]

/-- What becomes of the one who asks, once the others that were answered have left `p` to wait: told
something, or made to wait as well. -/
inductive Attends (input : Input) (n n' : RaftNode D) (p : Pending) (given : Multiset Answer) : Prop
  | others (hp : n'.pendingRequests = p) (ha : n'.answered = n.answered + given)
  | tells {x : Answer} (hx : input.asker = some x.responder) (hp : n'.pendingRequests = p)
      (ha : n'.answered = n.answered + given + {x}) (hok : input.isRead = false → x.success = true →
        ∃ c, Appends input n n' x.responder c ∧ n.log.length ≤ n'.lastApplied ∧
          x.message = appliedAt n.log.length)
  | waits {r : Responder} {c : Command} (h : Appends input n n' r c)
      (hp : n'.pendingRequests = p.insert (n.log.length, n.currentTerm) r)
      (ha : n'.answered = n.answered + given)

/-- Nothing happens for clients but that requests or answers are dropped. -/
structure Fades (n n' : RaftNode D) : Prop where
  pending : ∀ key r, n'.pendingRequests.lookup key = some r → n.pendingRequests.lookup key = some r
  answered : n'.answered ≤ n.answered
  applied : n'.lastApplied = n.lastApplied

end RaftNode

section Process
variable {n n' : RaftNode D} {input : Input} {now : Instant} {r : Responder} {c : Command}

theorem Input.write_asker (h : input.write = some (r, c)) : input.asker = some r := by
  cases input with
  | tick => cases h
  | request request =>
    obtain ⟨operation, r'⟩ := request
    cases operation <;> cases h <;> rfl
  | message m =>
    cases m <;> cases h
    rfl

theorem process_read_tells [FloatText] [Bincode] (hr : input.isRead = true) (hs : n.process input now = some n') :
    ∃ x : Answer, input.asker = some x.responder ∧ n'.answered = n.answered + {x} := by
  cases input with
  | tick => cases hr
  | request request =>
    obtain ⟨operation, r⟩ := request
    cases operation with
    | set => cases hr
    | delete => cases hr
    | get =>
      obtain rfl := Option.some.inj hs
      exact ⟨_, rfl, Responder.send_all ..⟩
    | status =>
      obtain rfl := Option.some.inj hs
      exact ⟨_, rfl, Responder.send_all ..⟩
  | message m =>
    cases m with
    | clientQuery requestId clientId key =>
      obtain rfl := Option.some.inj hs
      exact ⟨⟨.raftClient clientId requestId, _, _, _⟩, rfl, Responder.send_all ..⟩
    | statusQuery requestId clientId =>
      obtain rfl := Option.some.inj hs
      exact ⟨⟨.raftClient clientId requestId, _, _, _⟩, rfl, Responder.send_all ..⟩
    | _ => cases hr

theorem Serves.waiting {log : List LogEntry} {applied : Nat} {p p' : Pending} {given : Multiset Answer}
    (h : Serves log applied p p' given) : (∀ key r, p'.lookup key = some r → p.lookup key = some r) ∧
      ∀ x ∈ given, ∃ key, p.lookup key = some x.responder := by
  induction h with
  | refl => exact ⟨fun _ _ h => h, fun x hx => absurd hx (Multiset.notMem_zero x)⟩
  | @answer p' given key r success message hs hkey _ ih =>
    refine ⟨fun key' r' hkey' => ih.1 key' r' ?_, fun x hx => ?_⟩
    · have hne : key' ≠ key := by
        rintro rfl
        rw [AList.lookup_erase] at hkey'
        cases hkey'
      rwa [AList.lookup_erase_ne hne] at hkey'
    · rcases Multiset.mem_add.mp hx with hx | hx
      · exact ih.2 x hx
      · obtain rfl := Multiset.mem_singleton.mp hx
        exact ⟨key, ih.1 key _ hkey⟩

theorem process_attends [FloatText] [Bincode] (hs : n.process input now = some n') :
    n.lastApplied ≤ n'.lastApplied ∧ ∃ p given,
    Serves n'.log n'.lastApplied n.pendingRequests p given ∧ Attends input n n' p given := by
  cases hr : input.isRead with
  | true =>
    obtain ⟨-, hp, happ, -⟩ := process_read hr hs
    obtain ⟨x, hx, ha⟩ := process_read_tells hr hs
    refine ⟨happ.ge, n.pendingRequests, 0, .refl _, .tells hx hp (by rwa [add_zero]) fun h => ?_⟩
    exact absurd (hr.symm.trans h) (by decide)
  | false =>
    cases hw : input.write with
    | none =>
      obtain ⟨hle, given, ha, hserves⟩ := process_servesTo hw hr hs
      exact ⟨hle, _, given, hserves, .others rfl ha⟩
    | some w =>
      obtain ⟨r, c⟩ := w
      have hask := Input.write_asker hw
      rcases submitStoreWrite_serves (process_write hw hs) with
        ⟨-, hp, happ, message, ha⟩ | ⟨p, given, hrole, hle, hserves, hlog, hcase⟩
      · refine ⟨happ.ge, n.pendingRequests, 0, .refl _,
          .tells (x := ⟨r, false, none, message⟩) hask hp ?_ fun _ h => ?_⟩
        · rw [add_zero]
          exact ha
        · exact absurd h Bool.false_ne_true
      · have happend : Appends input n n' r c := ⟨hw, hrole, hlog⟩
        refine ⟨hle, p, given, hserves, ?_⟩
        rcases hcase with ⟨hi, hp, ha⟩ | ⟨hp, ha⟩
        · exact .tells (x := ⟨r, true, none, _⟩) hask hp ha fun _ _ => ⟨c, happend, hi, rfl⟩
        · exact .waits happend hp ha

end Process

section Step
variable {config : Config} {c c' : Cluster D} {x : Action} {id : NodeId} {n n' : RaftNode D}

theorem RaftNode.Fades.refl (n : RaftNode D) : Fades n n := ⟨fun _ _ h => h, le_rfl, rfl⟩

theorem Cluster.step_clients [FloatText] [Bincode] (hx : x.inMemory = true) (hs : step config c x = some c')
    (hn' : c'.nodes id = some n') : ∃ n, c.nodes id = some n ∧
      ((∃ input now, x = .process id input now ∧ n.process input now = some n') ∨ Fades n n') := by
  cases x with
  | process j input now =>
    obtain ⟨n, hn, -, m, hm, rfl⟩ := step_process.mp hs
    rcases nodes_setNode hn' with ⟨rfl, rfl⟩ | ⟨-, hold⟩
    · exact ⟨n, hn, .inl ⟨input, now, rfl, hm⟩⟩
    · exact ⟨n', hold, .inr (.refl n')⟩
  | restart j now =>
    obtain ⟨n, hn, rfl⟩ := step_restart.mp hs
    rcases nodes_setNode hn' with ⟨rfl, rfl⟩ | ⟨-, hold⟩
    · refine ⟨n, hn, .inr ⟨fun key r h => ?_, Answers.all_clear_le n.answers, rfl⟩⟩
      cases h
    · exact ⟨n', hold, .inr (.refl n')⟩
  | flush j =>
    obtain ⟨n, hn, rfl⟩ := step_flush.mp hs
    rcases nodes_setNode hn' with ⟨rfl, rfl⟩ | ⟨-, hold⟩
    · exact ⟨n, hn, .inr ⟨fun _ _ h => h, Answers.all_clear_le n.answers, rfl⟩⟩
    · exact ⟨n', hold, .inr (.refl n')⟩
  | crash => cases hx
  | join => cases hx

end Step
/-! The keys under which the entries of one responder's writes are proposed. -/

/-- The leader of the term has come further than the index. -/
def Passed (a : State NodeId LogEntry) (key : Nat × Nat) : Prop :=
  ∃ c L, a.led key.2 = some (c, L) ∧ key.1 < L.length

section Keys
variable {M : Membership} {a a' : State NodeId LogEntry} {key : Nat × Nat} {i t : Nat} {cmd : Command}

theorem Passed.mono (h : Passed a key) (hx : Extends a a') : Passed a' key := by
  obtain ⟨c, L, hl, hlt⟩ := h
  obtain ⟨L', hl', hp⟩ := hx.led _ _ _ hl
  exact ⟨c, L', hl', hlt.trans_le hp.length_le⟩

variable [FloatText]

theorem Proposed.passed {id : NodeId} (h : Proposed a id key cmd) : Passed a key := by
  obtain ⟨L, hl, he⟩ := h
  exact ⟨id, L, hl, (List.getElem?_eq_some_iff.mp he).1⟩

theorem CommittedAt.passed (h : CommittedAt M a i (.ofCommand t cmd)) (hi : 0 < i) : Passed a (i, t) := by
  obtain ⟨b, ℓ, -, hok, he⟩ := h
  obtain ⟨c, L, hl, hp⟩ := hok.origin i _ he hi
  have hlt := (List.getElem?_eq_some_iff.mp he).1
  have hle := hp.length_le
  rw [List.length_take] at hle
  exact ⟨c, L, hl, by dsimp only; omega⟩

theorem CommittedAt.unique {e e' : LogEntry} (hinv : Inv M.setting a) (h : CommittedAt M a i e)
    (h' : CommittedAt M a i e') : e = e' := by
  obtain ⟨b, ℓ, hc, hok, he⟩ := h
  obtain ⟨b', ℓ', hc', hok', he'⟩ := h'
  have htake := hc.agree hinv hc' hok hok' le_rfl
  rw [← List.getElem?_take_of_lt (Nat.lt_succ_self i), htake, List.getElem?_take_of_lt (Nat.lt_succ_self i),
    he'] at he
  exact (Option.some.inj he).symm

/-- What is committed now is below every entry that is proposed later, if that is ever committed. -/
theorem CommittedAt.lt_of_not_passed {e : LogEntry} {j : Nat} (h : CommittedAt M a j e) (hx : Extends a a')
    (hinv : Inv M.setting a') (h' : CommittedAt M a' i (.ofCommand t cmd)) (hi : 0 < i)
    (hnew : ¬ Passed a (i, t)) : j < i := by
  by_contra hle
  obtain ⟨b, ℓ, hc, hok, he⟩ := h
  have hlt := (List.getElem?_eq_some_iff.mp he).1
  have hget : ℓ[i]? = some ℓ[i] := List.getElem?_eq_getElem (by omega)
  have hold : CommittedAt M a i ℓ[i] := ⟨b, ℓ, hc.of_le (by omega), hok, hget⟩
  have heq := (hold.mono hx).unique hinv h'
  rw [heq] at hold
  exact hnew (hold.passed hi)

end Keys

/-- What node `id` does for `r`, who has asked for `cmd`: it has proposed an entry with a key in `Q`, or has
told `r` the index of such an entry once that was applied. -/
structure Serving [FloatText] (M : Membership) (a : State NodeId LogEntry) (id : NodeId) (r : Responder) (cmd : Command)
    (Q : Nat × Nat → Prop) (n : RaftNode D) : Prop where
  waits : ∀ key, n.pendingRequests.lookup key = some r → Proposed a id key cmd ∧ Q key
  told : ∀ x ∈ n.answered, x.responder = r → x.success = true → ∃ i t, x.message = appliedAt i ∧ 0 < i ∧
    i ≤ n.lastApplied ∧ CommittedAt M a i (.ofCommand t cmd) ∧ Q (i, t)

namespace Serving
variable [FloatText] {M : Membership} {config : Config} {a a' : State NodeId LogEntry} {id : NodeId} {r : Responder}
  {cmd : Command} {Q Q' : Nat × Nat → Prop} {n n' : RaftNode D}

theorem mono (h : Serving M a id r cmd Q n) (hx : Extends a a') : Serving M a' id r cmd Q n := by
  refine ⟨fun key hkey => ?_, fun x hx' hr hs => ?_⟩
  · obtain ⟨hprop, hQ⟩ := h.waits key hkey
    exact ⟨hprop.mono hx, hQ⟩
  · obtain ⟨i, t, hm, hi, hle, hc, hQ⟩ := h.told x hx' hr hs
    exact ⟨i, t, hm, hi, hle, hc.mono hx, hQ⟩

theorem fades (h : Serving M a id r cmd Q n) (hf : Fades n n') : Serving M a id r cmd Q n' := by
  refine ⟨fun key hkey => h.waits key (hf.pending key r hkey), fun x hx hr hs => ?_⟩
  rw [hf.applied]
  exact h.told x (Multiset.mem_of_le hf.answered hx) hr hs

theorem passed (h : Serving M a id r cmd Q n) : Serving M a id r cmd (Passed a) n := by
  refine ⟨fun key hkey => ?_, fun x hx hr hs => ?_⟩
  · obtain ⟨hprop, -⟩ := h.waits key hkey
    exact ⟨hprop, hprop.passed⟩
  · obtain ⟨i, t, hm, hi, hle, hc, -⟩ := h.told x hx hr hs
    exact ⟨i, t, hm, hi, hle, hc, hc.passed hi⟩

theorem serves (h : Serving M a id r cmd Q n) {log : List LogEntry} (hok : LogOk M.setting a log) {b applied : Nat}
    (hc : Committed M.setting a b log applied) {p : Pending} {given : Multiset Answer}
    (hs : Serves log applied n.pendingRequests p given) :
    (∀ key, p.lookup key = some r → Proposed a id key cmd ∧ Q key) ∧
      ∀ x ∈ given, x.responder = r → x.success = true → ∃ i t, x.message = appliedAt i ∧ 0 < i ∧ i ≤ applied ∧
        CommittedAt M a i (.ofCommand t cmd) ∧ Q (i, t) := by
  induction hs with
  | refl => exact ⟨h.waits, fun x hx => absurd hx (Multiset.notMem_zero x)⟩
  | @answer p' given key r' success message hs hkey hok' ih =>
    obtain ⟨hwaits, htold⟩ := ih
    refine ⟨fun key' hkey' => ?_, fun x hx hr hsucc => ?_⟩
    · have hne : key' ≠ key := by
        rintro rfl
        rw [AList.lookup_erase] at hkey'
        cases hkey'
      rw [AList.lookup_erase_ne hne] at hkey'
      exact hwaits key' hkey'
    · rcases Multiset.mem_add.mp hx with hx | hx
      · exact htold x hx hr hsucc
      · obtain rfl := Multiset.mem_singleton.mp hx
        obtain rfl : r' = r := hr
        obtain ⟨hle, hpos, hterm, hmessage⟩ := hok' hsucc
        obtain ⟨hprop, hQ⟩ := hwaits key hkey
        exact ⟨key.1, key.2, hmessage, hpos, hle,
          ⟨b, log, hc.of_le hle, hok, Book.proposed_log hprop hok hpos hterm⟩, hQ⟩

theorem process [Bincode] (h : Serving M a id r cmd Q n) (hok : NodeOk M config a id n) (hx : Extends a a')
    (hok' : NodeOk M config a' id n') {input : Input} {now : Instant} (hs : n.process input now = some n')
    (hask : input.asker = some r → input.write = some (r, cmd) ∧
      (n.role = .leader → Q (n.log.length, n.currentTerm))) : Serving M a' id r cmd Q n' := by
  obtain ⟨hle, p, given, hserves, hattends⟩ := process_attends hs
  obtain ⟨hwaits, htold⟩ := (h.mono hx).serves hok'.logOk hok'.sim.applied hserves
  -- the answers to those that waited before
  have hearlier : ∀ x ∈ n.answered + given, x.responder = r → x.success = true → ∃ i t,
      x.message = appliedAt i ∧ 0 < i ∧ i ≤ n'.lastApplied ∧ CommittedAt M a' i (.ofCommand t cmd) ∧ Q (i, t) := by
    intro x hx' hr hsucc
    rcases Multiset.mem_add.mp hx' with hold | hnew
    · obtain ⟨i, t, hm, hi, hile, hc, hQ⟩ := (h.mono hx).told x hold hr hsucc
      exact ⟨i, t, hm, hi, hile.trans hle, hc, hQ⟩
    · exact htold x hnew hr hsucc
  cases hattends with
  | others hp ha => exact ⟨hp ▸ hwaits, ha ▸ hearlier⟩
  | @tells x hxr hp ha hsucc =>
    refine ⟨hp ▸ hwaits, fun y hy hr hyok => ?_⟩
    rw [ha] at hy
    rcases Multiset.mem_add.mp hy with hy | hy
    · exact hearlier y hy hr hyok
    · obtain rfl := Multiset.mem_singleton.mp hy
      obtain ⟨hw, hQ⟩ := hask (hr ▸ hxr)
      have hread : input.isRead = false := by
        cases hread : input.isRead with
        | false => rfl
        | true => exact absurd (hw.symm.trans (process_read hread hs).1) nofun
      obtain ⟨c, happ, hi, hm⟩ := hsucc hread hyok
      have hget : n'.log[n.log.length]? = some (.ofCommand n.currentTerm c) := by
        rw [happ.log, List.getElem?_concat_length]
      obtain rfl : c = cmd := (Prod.mk.inj (Option.some.inj (happ.write.symm.trans hw))).2
      exact ⟨_, _, hm, hok.logOk.length_pos, hi, hok'.committedAt hi hget, hQ happ.leader⟩
  | @waits r' c happ hp ha =>
    refine ⟨fun key hkey => ?_, ha ▸ hearlier⟩
    rw [hp] at hkey
    by_cases hne : key = (n.log.length, n.currentTerm)
    · subst hne
      rw [AList.lookup_insert] at hkey
      obtain rfl := Option.some.inj hkey
      obtain ⟨hw, hQ⟩ := hask (Input.write_asker happ.write)
      obtain rfl : c = cmd := (Prod.mk.inj (Option.some.inj (happ.write.symm.trans hw))).2
      exact ⟨hok.proposed happ.leader hx hok' happ.log, hQ happ.leader⟩
    · rw [AList.lookup_insert_ne hne] at hkey
      exact hwaits key hkey

end Serving

theorem NodeOk.not_passed [FloatText] {M : Membership} {config : Config} {a : State NodeId LogEntry} {id : NodeId}
    {n : RaftNode D} (h : NodeOk M config a id n) (hr : n.role = .leader) :
    ¬ Passed a (n.log.length, n.currentTerm) := by
  rintro ⟨c, L, hl, hlt⟩
  obtain ⟨-, rfl⟩ := Prod.mk.inj (Option.some.inj ((h.sim.leader hr).1.symm.trans hl))
  exact lt_irrefl _ hlt

namespace Cluster

/-- The action with number `p` hands the write `cmd` of `r` to a node. -/
def Submits (as : List Action) (p : Nat) (r : Responder) (cmd : Command) : Prop :=
  ∃ id input now, as[p]? = some (.process id input now) ∧ input.write = some (r, cmd)

/-- In the action with number `q` node `id` tells `r` that its write is applied at index `i`. -/
def Confirms [FloatText] [Bincode] (config : Config) (c₀ : Cluster D) (as : List Action) (q : Nat) (id : NodeId)
    (r : Responder) (i : Nat) : Prop :=
  ∃ x c c', as[q]? = some x ∧ exec config c₀ (as.take q) = some c ∧ step config c x = some c' ∧
    ∃ y ∈ givenIn id c c' x, y.responder = r ∧ y.success = true ∧ y.message = appliedAt i

theorem Submits.asker {as : List Action} {p : Nat} {r : Responder} {cmd : Command} (h : Submits as p r cmd) :
    as[p]?.bind Action.asker = some r := by
  obtain ⟨id, input, now, hx, hw⟩ := h
  rw [hx]
  exact Input.write_asker hw

theorem step_isSome [FloatText] [Bincode] {config : Config} {c c' : Cluster D} {x : Action} (hx : x.inMemory = true)
    (hs : step config c x = some c') {id : NodeId} (hid : (c.nodes id).isSome = true) :
    (c'.nodes id).isSome = true := by
  have hset : ∀ j n, ((c.setNode j n).nodes id).isSome = true := by
    intro j n
    by_cases hj : id = j
    · subst hj
      rw [setNode_self]
      rfl
    · rwa [setNode_of_ne _ _ hj]
  cases x with
  | process j input now =>
    obtain ⟨n, -, -, n', -, rfl⟩ := step_process.mp hs
    exact hset j n'
  | restart j now =>
    obtain ⟨n, -, rfl⟩ := step_restart.mp hs
    exact hset j _
  | flush j =>
    obtain ⟨n, -, rfl⟩ := step_flush.mp hs
    exact hset j _
  | crash => cases hx
  | join => cases hx

end Cluster
open Cluster (Submits Confirms)

structure States [FloatText] [Bincode] (M : Membership) (config : Config) (c₀ : Cluster D) (as : List Action)
    (c : Nat → Cluster D) (a : Nat → State NodeId LogEntry) : Prop where
  exec : ∀ k ≤ as.length, Cluster.exec config c₀ (as.take k) = some (c k)
  ok : ∀ k ≤ as.length, ClusterOk M config (c k) (a k)
  grows : ∀ j k, j ≤ k → k ≤ as.length → Extends (a j) (a k)

section Run
variable [FloatText] [Bincode] {M : Membership} {config : Config} {c₀ : Cluster D} {as : List Action}
  {c : Nat → Cluster D}
  {a : Nat → State NodeId LogEntry} {r : Responder} {cmd : Command} {p q : Nat}

theorem States.first (h : States M config c₀ as c a) : c 0 = c₀ :=
  (Option.some.inj (h.exec 0 (Nat.zero_le _))).symm

theorem States.last (h : States M config c₀ as c a) {b : Cluster D} (hb : Cluster.exec config c₀ as = some b) :
    c as.length = b := by
  have hend := h.exec as.length le_rfl
  rw [List.take_length, hb] at hend
  exact (Option.some.inj hend).symm

theorem exists_states {b : Cluster D} {a₀ : State NodeId LogEntry} (h₀ : ClusterOk M config c₀ a₀)
    (has : ∀ x ∈ as, x.inMemory = true) (hb : Cluster.exec config c₀ as = some b) :
    ∃ c a, States M config c₀ as c a ∧ a 0 = a₀ := by
  induction as using List.reverseRecOn generalizing b with
  | nil =>
    refine ⟨fun _ => c₀, fun _ => a₀, ⟨fun k hk => ?_, fun _ _ => h₀, fun _ _ _ _ => .refl a₀⟩, rfl⟩
    rw [List.take_nil]
    rfl
  | append_singleton as x ih =>
    obtain ⟨b', hb', hs⟩ := (Cluster.exec_concat config).mp hb
    obtain ⟨c, a, hstates, hfirst⟩ := ih (fun y hy => has y (List.mem_append_left _ hy)) hb'
    have hlast : c as.length = b' := hstates.last hb'
    obtain ⟨a', hext, hok⟩ := (hstates.ok as.length le_rfl).step
      (has x (List.mem_append_right _ (List.mem_singleton_self x))) (hlast ▸ hs)
    have hlen : (as ++ [x]).length = as.length + 1 := List.length_append
    refine ⟨fun k => if k ≤ as.length then c k else b, fun k => if k ≤ as.length then a k else a',
      ⟨fun k hk => ?_, fun k hk => ?_, fun j k hjk hk => ?_⟩, (if_pos (Nat.zero_le _)).trans hfirst⟩
    · split_ifs with hle
      · rw [List.take_append_of_le_length hle]
        exact hstates.exec k hle
      · rwa [List.take_of_length_le (by omega)]
    · split_ifs with hle
      · exact hstates.ok k hle
      · exact hok
    · split_ifs with hj hk'
      · exact hstates.grows j k hjk hk'
      · exact (hstates.grows j as.length hj le_rfl).trans hext
      · omega
      · exact .refl a'

namespace States

theorem step (h : States M config c₀ as c a) {k : Nat} {x : Action} (hx : as[k]? = some x) :
    Cluster.step config (c k) x = some (c (k + 1)) := by
  obtain ⟨hlt, rfl⟩ := List.getElem?_eq_some_iff.mp hx
  have hnext := h.exec (k + 1) hlt
  rw [List.take_succ_eq_append_getElem hlt] at hnext
  obtain ⟨b, hb, hs⟩ := (Cluster.exec_concat config).mp hnext
  obtain rfl := Option.some.inj (hb.symm.trans (h.exec k hlt.le))
  exact hs

/-- What holds of every node at one moment and is kept by what the nodes do holds from then on. -/
theorem induct (h : States M config c₀ as c a) (has : ∀ x ∈ as, x.inMemory = true)
    {P : Nat → NodeId → RaftNode D → Prop} {k₀ : Nat} (hbase : ∀ id n, (c k₀).nodes id = some n → P k₀ id n)
    (hprocess : ∀ k id input now n n', k₀ ≤ k → as[k]? = some (.process id input now) →
      (c k).nodes id = some n → n.process input now = some n' → (c (k + 1)).nodes id = some n' → P k id n →
      P (k + 1) id n')
    (hfades : ∀ k id n n', k₀ ≤ k → k < as.length → Fades n n' → P k id n → P (k + 1) id n') {k : Nat}
    (hk₀ : k₀ ≤ k) (hk : k ≤ as.length) : ∀ id n, (c k).nodes id = some n → P k id n := by
  induction k, hk₀ using Nat.le_induction with
  | base => exact hbase
  | succ k hle ih =>
    intro id n' hn'
    have hx : as[k]? = some as[k] := List.getElem?_eq_getElem hk
    have hmem : as[k].inMemory = true := has _ (List.getElem_mem hk)
    obtain ⟨n, hn, ⟨input, now, heq, hprocess'⟩ | hf⟩ := Cluster.step_clients hmem (h.step hx) hn'
    · exact hprocess k id input now n n' hle (heq ▸ hx) hn hprocess' hn' (ih (by omega) id n hn)
    · exact hfades k id n n' hle hk hf (ih (by omega) id n hn)

theorem isSome (h : States M config c₀ as c a) (has : ∀ x ∈ as, x.inMemory = true) {id : NodeId} {k₀ k : Nat}
    (hid : ((c k₀).nodes id).isSome = true) (hk₀ : k₀ ≤ k) (hk : k ≤ as.length) :
    ((c k).nodes id).isSome = true := by
  induction k, hk₀ using Nat.le_induction with
  | base => exact hid
  | succ k hle ih =>
    have hx : as[k]? = some as[k] := List.getElem?_eq_getElem hk
    exact Cluster.step_isSome (has _ (List.getElem_mem hk)) (h.step hx) (ih (by omega))

theorem heard (h : States M config c₀ as c a) (has : ∀ x ∈ as, x.inMemory = true)
    (h₀ : ∀ id n, c₀.nodes id = some n → n.pendingRequests = ∅ ∧ n.answered = 0) {k : Nat} (hk : k ≤ as.length) :
    ∀ id n, (c k).nodes id = some n →
      (∀ key r, n.pendingRequests.lookup key = some r → ∃ p < k, ∃ cmd, Submits as p r cmd) ∧
      ∀ x ∈ n.answered, ∃ p < k, as[p]?.bind Action.asker = some x.responder := by
  refine h.induct has (P := fun k _ n =>
    (∀ key r, n.pendingRequests.lookup key = some r → ∃ p < k, ∃ cmd, Submits as p r cmd) ∧
      ∀ x ∈ n.answered, ∃ p < k, as[p]?.bind Action.asker = some x.responder) ?_ ?_ ?_ (Nat.zero_le k) hk
  · intro id n hn
    obtain ⟨hp, ha⟩ := h₀ id n (h.first ▸ hn)
    rw [hp, ha]
    exact ⟨fun key r hkey => (nomatch hkey), fun x hx => absurd hx (Multiset.notMem_zero x)⟩
  · rintro k id input now n n' - hx - hs - ⟨hwaits, hasked⟩
    obtain ⟨-, p, given, hserves, hattends⟩ := process_attends hs
    obtain ⟨hsub, hgiven⟩ := hserves.waiting
    have hold : ∀ key r, p.lookup key = some r → ∃ p < k + 1, ∃ cmd, Submits as p r cmd := fun key r hkey => by
      obtain ⟨q, hq, hsubmits⟩ := hwaits key r (hsub key r hkey)
      exact ⟨q, Nat.lt_succ_of_lt hq, hsubmits⟩
    have hearlier : ∀ x ∈ n.answered + given, ∃ p < k + 1, as[p]?.bind Action.asker = some x.responder := by
      intro x hx'
      rcases Multiset.mem_add.mp hx' with hx' | hx'
      · obtain ⟨q, hq, hask⟩ := hasked x hx'
        exact ⟨q, Nat.lt_succ_of_lt hq, hask⟩
      · obtain ⟨key, hkey⟩ := hgiven x hx'
        obtain ⟨q, hq, cmd, hsubmits⟩ := hwaits key _ hkey
        exact ⟨q, Nat.lt_succ_of_lt hq, hsubmits.asker⟩
    cases hattends with
    | others hp ha => exact ⟨hp ▸ hold, ha ▸ hearlier⟩
    | @tells x hxr hp ha =>
      refine ⟨hp ▸ hold, fun y hy => ?_⟩
      rw [ha] at hy
      rcases Multiset.mem_add.mp hy with hy | hy
      · exact hearlier y hy
      · obtain rfl := Multiset.mem_singleton.mp hy
        exact ⟨k, Nat.lt_succ_self k, by rw [hx]; exact hxr⟩
    | @waits r cmd happ hp ha =>
      refine ⟨fun key r' hkey => ?_, ha ▸ hearlier⟩
      rw [hp] at hkey
      by_cases hne : key = (n.log.length, n.currentTerm)
      · subst hne
        rw [AList.lookup_insert] at hkey
        obtain rfl := Option.some.inj hkey
        exact ⟨k, Nat.lt_succ_self k, cmd, id, input, now, hx, happ.write⟩
      · rw [AList.lookup_insert_ne hne] at hkey
        exact hold key r' hkey
  · rintro k id n n' - - hf ⟨hwaits, hasked⟩
    refine ⟨fun key r hkey => ?_, fun x hx => ?_⟩
    · obtain ⟨q, hq, hsubmits⟩ := hwaits key r (hf.pending key r hkey)
      exact ⟨q, Nat.lt_succ_of_lt hq, hsubmits⟩
    · obtain ⟨q, hq, hask⟩ := hasked x (Multiset.mem_of_le hf.answered hx)
      exact ⟨q, Nat.lt_succ_of_lt hq, hask⟩

theorem serving (h : States M config c₀ as c a) (has : ∀ x ∈ as, x.inMemory = true) {Q : Nat × Nat → Prop}
    {k₀ : Nat} (hbase : ∀ id n, (c k₀).nodes id = some n → Serving M (a k₀) id r cmd Q n)
    (hask : ∀ k id input now n, k₀ ≤ k → as[k]? = some (.process id input now) → (c k).nodes id = some n →
      input.asker = some r → input.write = some (r, cmd) ∧
        (n.role = .leader → Q (n.log.length, n.currentTerm))) {k : Nat} (hk₀ : k₀ ≤ k) (hk : k ≤ as.length) :
    ∀ id n, (c k).nodes id = some n → Serving M (a k) id r cmd Q n := by
  refine h.induct has (P := fun k id n => Serving M (a k) id r cmd Q n) hbase ?_ ?_ hk₀ hk
  · intro k id input now n n' hle hx hn hs hn' hserving
    have hlt : k < as.length := (List.getElem?_eq_some_iff.mp hx).1
    exact hserving.process ((h.ok k hlt.le).nodes id n hn) (h.grows k (k + 1) (Nat.le_succ k) hlt)
      ((h.ok (k + 1) hlt).nodes id n' hn') hs (hask k id input now n hle hx hn)
  · intro k id n n' _ hlt hf hserving
    exact (hserving.mono (h.grows k (k + 1) (Nat.le_succ k) hlt)).fades hf

end States
omit [FloatText] [Bincode] in
theorem asker_unique (hasks : (as.filterMap Action.asker).Nodup) (hp : as[p]?.bind Action.asker = some r)
    (hq : as[q]?.bind Action.asker = some r) : p = q := by
  obtain ⟨x, hx, hxr⟩ := Option.bind_eq_some_iff.mp hp
  obtain ⟨y, hy, hyr⟩ := Option.bind_eq_some_iff.mp hq
  obtain ⟨hplt, rfl⟩ := List.getElem?_eq_some_iff.mp hx
  obtain ⟨hqlt, rfl⟩ := List.getElem?_eq_some_iff.mp hy
  have hpair := List.pairwise_iff_getElem.mp (List.pairwise_filterMap.mp hasks)
  rcases lt_trichotomy p q with h | h | h
  · exact absurd rfl (hpair p q hplt hqlt h r hxr r hyr)
  · exact h
  · exact absurd rfl (hpair q p hqlt hplt h r hyr r hxr)

namespace States

/-- From its submission on, a write is served with an entry that nobody had passed then. -/
theorem serving_new (h : States M config c₀ as c a) (has : ∀ x ∈ as, x.inMemory = true)
    (h₀ : ∀ id n, c₀.nodes id = some n → n.pendingRequests = ∅ ∧ n.answered = 0)
    (hasks : (as.filterMap Action.asker).Nodup) (hsub : Submits as p r cmd) {k : Nat} (hp : p ≤ k)
    (hk : k ≤ as.length) : ∀ id n, (c k).nodes id = some n →
      Serving M (a k) id r cmd (fun key => ¬ Passed (a p) key) n := by
  have hsubmitted := hsub.asker
  refine h.serving has (fun id n hn => ?_) (fun j id input now n hj hx hn hask => ?_) hp hk
  · -- `r` has not asked for anything before
    obtain ⟨hwaits, hasked⟩ := h.heard has h₀ (hp.trans hk) id n hn
    refine ⟨fun key hkey => ?_, fun x hx hr _ => ?_⟩
    · obtain ⟨q, hq, cmd', hsub'⟩ := hwaits key r hkey
      exact absurd (asker_unique hasks hsub'.asker hsubmitted) hq.ne
    · obtain ⟨q, hq, hask⟩ := hasked x hx
      exact absurd (asker_unique hasks (hr ▸ hask) hsubmitted) hq.ne
  · obtain rfl : j = p := asker_unique hasks (by rw [hx]; exact hask) hsubmitted
    obtain ⟨id', input', now', hx', hw⟩ := hsub
    cases hx.symm.trans hx'
    exact ⟨hw, ((h.ok j (hp.trans hk)).nodes id n hn).not_passed⟩

/-- When another write is submitted, the entry of an earlier one has been proposed, if it ever is. -/
theorem serving_old (h : States M config c₀ as c a) (has : ∀ x ∈ as, x.inMemory = true)
    (h₀ : ∀ id n, c₀.nodes id = some n → n.pendingRequests = ∅ ∧ n.answered = 0)
    (hasks : (as.filterMap Action.asker).Nodup) (hsub : Submits as p r cmd) {p' k : Nat} (hp : p < p') (hp' : p' ≤ k)
    (hk : k ≤ as.length) : ∀ id n, (c k).nodes id = some n → Serving M (a k) id r cmd (Passed (a p')) n := by
  refine h.serving has (fun id n hn => ?_) (fun j id input now n hj hx _ hask => ?_) hp' hk
  · exact (h.serving_new has h₀ hasks hsub hp.le (hp'.trans hk) id n hn).passed
  · have heq : j = p := asker_unique hasks (by rw [hx]; exact hask) hsub.asker
    omega

end States

theorem Cluster.Confirms.submitted {id : NodeId} {i : Nat} (hconf : Confirms config c₀ as q id r i)
    (h : States M config c₀ as c a) (has : ∀ x ∈ as, x.inMemory = true)
    (h₀ : ∀ id n, c₀.nodes id = some n → n.pendingRequests = ∅ ∧ n.answered = 0) :
    q < as.length ∧ (∃ p cmd, p ≤ q ∧ Submits as p r cmd) ∧ ∃ n, (c (q + 1)).nodes id = some n ∧
      ∀ cmd Q, Serving M (a (q + 1)) id r cmd Q n → i ≤ n.lastApplied ∧ 0 < i ∧
        ∃ t, CommittedAt M (a (q + 1)) i (.ofCommand t cmd) ∧ Q (i, t) := by
  obtain ⟨x, b, b', hx, hb, hs, y, hy, hr, hok, hm⟩ := hconf
  have hlt : q < as.length := (List.getElem?_eq_some_iff.mp hx).1
  obtain rfl := Option.some.inj (hb.symm.trans (h.exec q hlt.le))
  obtain rfl := Option.some.inj (hs.symm.trans (h.step hx))
  refine ⟨hlt, ?_⟩
  cases x with
  | process j input now =>
    simp only [Cluster.givenIn] at hy
    split_ifs at hy with hj
    · obtain ⟨rfl, hread⟩ := hj
      obtain ⟨n, hn, -, n', hn', hset⟩ := Cluster.step_process.mp hs
      have hafter : (c (q + 1)).nodes j = some n' := by rw [← hset, Cluster.setNode_self]
      simp only [Cluster.answeredBy, hn, hafter] at hy
      refine ⟨?_, n', hafter, fun cmd Q hserving => ?_⟩
      · obtain ⟨-, p, given, hserves, hattends⟩ := process_attends hn'
        have hwaited : y ∈ given → ∃ p cmd, p ≤ q ∧ Submits as p r cmd := fun hmem => by
          obtain ⟨key, hkey⟩ := hserves.waiting.2 y hmem
          obtain ⟨p, hp, cmd, hsub⟩ := (h.heard has h₀ hlt.le j n hn).1 key _ hkey
          exact ⟨p, cmd, hp.le, hr ▸ hsub⟩
        cases hattends with
        | others hp ha =>
          rw [ha, add_tsub_cancel_left] at hy
          exact hwaited hy
        | @tells z hzr hp ha hsucc =>
          rw [ha, add_assoc, add_tsub_cancel_left] at hy
          rcases Multiset.mem_add.mp hy with hy | hy
          · exact hwaited hy
          · obtain rfl := Multiset.mem_singleton.mp hy
            obtain ⟨cmd, happ, -⟩ := hsucc hread hok
            exact ⟨q, cmd, le_rfl, j, input, now, hx, hr ▸ happ.write⟩
        | waits happ hp ha =>
          rw [ha, add_tsub_cancel_left] at hy
          exact hwaited hy
      · obtain ⟨i', t, hm', hi, hle, hcom, hQ⟩ :=
          hserving.told y (Multiset.mem_of_le (Multiset.sub_le_self ..) hy) hr hok
        obtain rfl : i = i' := appliedAt_injective (hm.symm.trans hm')
        exact ⟨hle, hi, t, hcom, hQ⟩
    · exact absurd hy (Multiset.notMem_zero y)
  | _ => exact absurd hy (Multiset.notMem_zero y)

theorem States.holds (h : States M config c₀ as c a) (has : ∀ x ∈ as, x.inMemory = true) {id : NodeId} {i t : Nat}
    {k₀ k : Nat} {n : RaftNode D} (hn : (c k₀).nodes id = some n) (hle : i ≤ n.lastApplied) (hi : 0 < i)
    (hcom : CommittedAt M (a k₀) i (.ofCommand t cmd)) (hk₀ : k₀ ≤ k) (hk : k ≤ as.length) :
    (c k).Holds id i cmd := by
  have happlied : ∀ j m, (c k).nodes j = some m → j = id → i ≤ m.lastApplied := by
    refine h.induct has (P := fun _ j m => j = id → i ≤ m.lastApplied) ?_ ?_ ?_ hk₀ hk
    · rintro j m hm rfl
      obtain rfl := Option.some.inj (hn.symm.trans hm)
      exact hle
    · intro _ j input now m m' _ _ _ hs _ hold hj
      exact (hold hj).trans (process_attends hs).1
    · intro _ j m m' _ _ hf hold hj
      rw [hf.applied]
      exact hold hj
  obtain ⟨m, hm⟩ := Option.isSome_iff_exists.mp (h.isSome has (Option.isSome_of_eq_some hn) hk₀ hk)
  have hcom' := hcom.mono (h.grows k₀ k hk₀ hk)
  have hagree : ∀ j m, (c k).nodes j = some m → i ≤ m.lastApplied → m.log[i]? = some (.ofCommand t cmd) :=
    fun j m hm => hcom'.agree ((h.ok k hk).nodes j m hm)
  exact ⟨m, t, hm, hi, happlied id m hm rfl, hagree id m hm (happlied id m hm rfl), hagree⟩

end Run

section Linearizable
variable [FloatText] [Bincode] {M : Membership} {config : Config} {now : Instant} {as : List Action}

theorem Membership.start_silent (M : Membership) (config : Config) (now : Instant) (id : NodeId) (n : RaftNode D)
    (hn : (M.start config now : Cluster D).nodes id = some n) : n.pendingRequests = ∅ ∧ n.answered = 0 := by
  change (if id ∈ M.members then _ else _) = _ at hn
  split_ifs at hn
  exact ⟨newInDir_pending hn, Cluster.newInDir_answered hn⟩

/-- Writes are linearizable. When each request comes from an asker of its own, a write that is confirmed has
been submitted before, and its command stays at the confirmed index of every node that gets so far; no other
write is confirmed at this index, and the writes that are submitted from then on are confirmed above it. -/
theorem writes_linearizable (M : Membership) (config : Config) (now : Instant) {as : List Action}
    (has : ∀ x ∈ as, x.inMemory = true) (hasks : (as.filterMap Action.asker).Nodup) {b : Cluster D}
    (hb : Cluster.exec config (M.start config now) as = some b) {q : Nat} {id : NodeId} {r : Responder} {i : Nat}
    (hconf : Confirms config (M.start config now : Cluster D) as q id r i) :
    (∃ p cmd, p ≤ q ∧ Submits as p r cmd ∧ ∀ k (c : Cluster D), q < k → k ≤ as.length →
      Cluster.exec config (M.start config now) (as.take k) = some c → c.Holds id i cmd) ∧
    ∀ q' id' r' i', Confirms config (M.start config now : Cluster D) as q' id' r' i' → r' ≠ r →
      i' ≠ i ∧ ∀ p' cmd', Submits as p' r' cmd' → q < p' → i < i' := by
  obtain ⟨c, a, hstates, -⟩ := exists_states (ClusterOk.start M config now) has hb
  have h₀ := Membership.start_silent (D := D) M config now
  obtain ⟨hq, ⟨p, cmd, hp, hsub⟩, n, hn, hserved⟩ := hconf.submitted hstates has h₀
  have hnew := hstates.serving_new has h₀ hasks hsub (hp.trans (Nat.le_succ q)) hq id n hn
  obtain ⟨hle, hi, t, hcom, hfresh⟩ := hserved cmd _ hnew
  refine ⟨⟨p, cmd, hp, hsub, fun k b' hk hklen hb' => ?_⟩, fun q' id' r' i' hconf' hne => ?_⟩
  · obtain rfl := Option.some.inj (hb'.symm.trans (hstates.exec k hklen))
    exact hstates.holds has hn hle hi hcom hk hklen
  obtain ⟨hq', ⟨p', cmd', hp', hsub'⟩, n', hn', hserved'⟩ := hconf'.submitted hstates has h₀
  have hnew' := hstates.serving_new has h₀ hasks hsub' (hp'.trans (Nat.le_succ q')) hq' id' n' hn'
  obtain ⟨hle', hi', t', hcom', hfresh'⟩ := hserved' cmd' _ hnew'
  -- a write that is submitted when the other is applied comes after it
  have hlater : q < p' → i < i' := fun hqp =>
    (hcom.mono (hstates.grows _ _ hqp (by omega))).lt_of_not_passed (hstates.grows _ _ (by omega) hq')
      (hstates.ok _ hq').inv hcom' hi' hfresh'
  have hearlier : q' < p → i' < i := fun hqp =>
    (hcom'.mono (hstates.grows _ _ hqp (by omega))).lt_of_not_passed (hstates.grows _ _ (by omega) hq)
      (hstates.ok _ hq).inv hcom hi hfresh
  refine ⟨?_, fun p'' cmd'' hsub'' hqp => hlater ?_⟩
  · rintro rfl
    -- both entries are committed at the same index, so they have the same key
    have hterms : t = t' := congrArg LogEntry.term <|
      (hcom.mono (hstates.grows _ _ hq le_rfl)).unique (hstates.ok _ le_rfl).inv
        (hcom'.mono (hstates.grows _ _ hq' le_rfl))
    subst hterms
    rcases lt_trichotomy p p' with hpp | rfl | hpp
    · rcases Nat.lt_or_ge q p' with hqp | hqp
      · exact lt_irrefl _ (hlater hqp)
      · have hold := hstates.serving_old has h₀ hasks hsub hpp (by omega : p' ≤ q + 1) hq id n hn
        obtain ⟨-, -, t'', hcom'', hpassed⟩ := hserved cmd _ hold
        obtain rfl : t'' = t := congrArg LogEntry.term (hcom''.unique (hstates.ok _ hq).inv hcom)
        exact hfresh' hpassed
    · exact hne (Option.some.inj (hsub'.asker.symm.trans hsub.asker))
    · rcases Nat.lt_or_ge q' p with hqp | hqp
      · exact lt_irrefl _ (hearlier hqp)
      · have hold := hstates.serving_old has h₀ hasks hsub' hpp (by omega : p ≤ q' + 1) hq' id' n' hn'
        obtain ⟨-, -, t'', hcom'', hpassed⟩ := hserved' cmd' _ hold
        obtain rfl : t'' = t := congrArg LogEntry.term (hcom''.unique (hstates.ok _ hq').inv hcom')
        exact hfresh hpassed
  · rwa [asker_unique hasks hsub'.asker hsub''.asker]

end Linearizable
end General

/-- After a first write is acknowledged, the leader of term 1 commits a second one. -/
def secondWrite [FloatText] (now : Instant) : List Action := acknowledgedWrite now ++
  [.process 1 (.request ⟨.set "a" (.int 2), .oneshot 8⟩) now, .flush 1,
    .process 2 (.message (.appendEntries
      ⟨1, 1, 1, 1, [⟨1, .command (LogRecord.new 0 (.set "a" (.int 2)))⟩], 1⟩)) now, .flush 2,
    .process 1 (.message (.appendEntriesResponse ⟨1, 2, true, 2⟩)) now]

section Concrete
open scoped Concrete
open Cluster (Confirms)

theorem confirms_of_run {q i : Nat} {x : Action} {r : Responder} (hx : (secondWrite ⟨0, 0⟩)[q]? = some x)
    (hrun : ((Cluster.exec .default (Membership.three.start .default ⟨0, 0⟩ : Cluster Database)
      ((secondWrite ⟨0, 0⟩).take q)).bind fun c => (Cluster.step .default c x).map fun c' =>
        decide (⟨r, true, none, appliedAt i⟩ ∈ Cluster.givenIn 1 c c' x)) = some true) :
    Confirms .default (Membership.three.start .default ⟨0, 0⟩ : Cluster Database) (secondWrite ⟨0, 0⟩) q 1 r i := by
  obtain ⟨c, hc, hrun⟩ := Option.bind_eq_some_iff.mp hrun
  obtain ⟨c', hc', hmem⟩ := Option.map_eq_some_iff.mp hrun
  exact ⟨x, c, c', hx, hc, hc', _, of_decide_eq_true hmem, rfl, rfl, rfl⟩

theorem writes_linearizable_second_write : ∃ i j,
    Confirms .default (Membership.three.start .default ⟨0, 0⟩ : Cluster Database) (secondWrite ⟨0, 0⟩) 9 1
      (.oneshot 7) i ∧
    Confirms .default (Membership.three.start .default ⟨0, 0⟩ : Cluster Database) (secondWrite ⟨0, 0⟩) 14 1
      (.oneshot 8) j ∧ j ≠ i ∧ i < j := by
  have hfirst : Confirms .default (Membership.three.start .default ⟨0, 0⟩ : Cluster Database)
      (secondWrite ⟨0, 0⟩) 9 1 (.oneshot 7) 1 := confirms_of_run rfl (by decide +kernel)
  have hsecond : Confirms .default (Membership.three.start .default ⟨0, 0⟩ : Cluster Database)
      (secondWrite ⟨0, 0⟩) 14 1 (.oneshot 8) 2 := confirms_of_run rfl (by decide +kernel)
  have hrun : (Cluster.exec .default (Membership.three.start .default ⟨0, 0⟩ : Cluster Database)
      (secondWrite ⟨0, 0⟩)).isSome = true := by decide +kernel
  obtain ⟨b, hb⟩ := Option.isSome_iff_exists.mp hrun
  obtain ⟨hne, hlater⟩ := (writes_linearizable Membership.three .default ⟨0, 0⟩ (by decide) (by decide) hb
    hfirst).2 14 1 (.oneshot 8) 2 hsecond (by decide)
  exact ⟨1, 2, hfirst, hsecond, hne, hlater 10 (.set "a" (.int 2)) ⟨1, _, _, rfl, rfl⟩ (by decide)⟩

end Concrete
end KvRaft
