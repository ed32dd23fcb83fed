import KvRaft.Raft.Clients
import KvRaft.Raft.Cluster

/-! The oneshot channels on which service requests are answered: what a cluster does on channels that
no request of the step carries. -/

namespace KvRaft

/-- The answers that turn a write down before anything is appended: the node is not the leader, or the
service could not hand the request on. -/
def declines (success : Bool) (message : String) : Bool :=
  !success && ["Not leader; ", "Node ", "Raft runtime unavailable", "Invalid JSON request: "].any
    fun text => text.toList.isPrefixOf message.toList

def Answer.declined (a : Answer) : Bool := declines a.success a.message

def ServiceResponse.declined (r : ServiceResponse) : Bool := declines r.success r.message

def RaftNode.Input.channel? : RaftNode.Input → Option Nat
  | .request ⟨_, .oneshot ch⟩ => some ch
  | _ => none

def Action.channel? : Action → Option Nat
  | .process _ input _ | .crash _ (some (input, _)) _ => input.channel?
  | _ => none

variable {D : Type} [Storage D]

namespace RaftNode

def WaitsOn (n : RaftNode D) (ch : Nat) : Prop := ∃ key, n.pendingRequests.lookup key = some (.oneshot ch)

/-- On the channels that are `mine`, nothing happens but that writes that wait are answered. -/
structure Quiet (mine : Nat → Prop) (n n' : RaftNode D) : Prop where
  waits : ∀ ch, mine ch → n'.WaitsOn ch → n.WaitsOn ch
  answers : ∀ ch, mine ch → ∀ a ∈ n'.answered, a.responder = .oneshot ch →
    a ∈ n.answered ∨ n.WaitsOn ch ∧ a.declined = false

end RaftNode
open RaftNode

/-- An outbox that is handed over takes its answers with it. -/
theorem Answers.all_clear_le (out : Answers) : Answers.all { out with outbox := [] } ≤ out.all := by
  rw [Answers.all, Answers.all, List.filterMap_nil, Multiset.coe_nil, add_zero]
  exact Multiset.le_add_right ..

theorem declines_success (message : String) : declines true message = false := rfl

theorem declines_uncertain (success : Bool) :
    declines success "Leadership changed before confirmation; write outcome may be uncertain" = false := by
  cases success <;> decide

theorem declines_applyFailed (success : Bool) (err : String) :
    declines success s!"Log entry committed, but database application failed: {err}" = false := by
  simp [declines, toString, List.isPrefixOf]

theorem declines_leaderKnown (leader : NodeId) :
    declines false s!"Not leader; current leader is Node {leader}" = true := by
  simp [declines, toString]

theorem declines_leaderUnknown (id : NodeId) :
    declines false s!"Node {id} is not leader and no leader is currently known" = true := by
  simp [declines, toString]

theorem mem_respond_answered {n : RaftNode D} {r : Responder} {success : Bool} {value : Option Value}
    {message : String} {leader : Option NodeId} {term : Nat} {a : Answer}
    (ha : a ∈ (n.respond r success value message leader term).answered) :
    a ∈ n.answered ∨ a = ⟨r, success, value, message⟩ := by
  have hgiven : (n.respond r success value message leader term).answered =
      n.answered + {⟨r, success, value, message⟩} := Responder.send_all ..
  simpa [hgiven] using ha

namespace RaftNode.Quiet
variable {mine : Nat → Prop} {n m n' : RaftNode D}

theorem refl (mine : Nat → Prop) (n : RaftNode D) : Quiet mine n n :=
  ⟨fun _ _ h => h, fun _ _ _ ha _ => Or.inl ha⟩

theorem trans (h : Quiet mine n m) (h' : Quiet mine m n') : Quiet mine n n' := by
  constructor
  · intro ch hch hwaits
    exact h.waits ch hch (h'.waits ch hch hwaits)
  · intro ch hch a ha hr
    rcases h'.answers ch hch a ha hr with hm | ⟨hwaits, hkind⟩
    · exact h.answers ch hch a hm hr
    · exact Or.inr ⟨h.waits ch hch hwaits, hkind⟩

theorem of_eq (hp : n'.pendingRequests = n.pendingRequests) (ha : n'.answered ≤ n.answered) :
    Quiet mine n n' := by
  constructor
  · intro ch _ hwaits
    rwa [WaitsOn, hp] at hwaits
  · intro ch _ a hmem _
    exact Or.inl (Multiset.mem_of_le ha hmem)

theorem of_calm (h : Calm n n') : Quiet mine n n' := .of_eq h.pending h.answered.le

theorem of_given {given : Multiset Answer} (hw : ∀ ch, mine ch → n'.WaitsOn ch → n.WaitsOn ch)
    (hg : n'.answered = n.answered + given) (h : ∀ ch, mine ch → ∀ a ∈ given, a.responder = .oneshot ch →
      n.WaitsOn ch ∧ a.declined = false) : Quiet mine n n' := by
  constructor
  · exact hw
  · intro ch hch a ha hresp
    rw [hg] at ha
    rcases Multiset.mem_add.mp ha with hold | hnew
    · exact Or.inl hold
    · exact Or.inr (h ch hch a hnew hresp)

theorem respond (n : RaftNode D) {r : Responder} (hr : ∀ ch, mine ch → r ≠ .oneshot ch) (success : Bool)
    (value : Option Value) (message : String) (leader : Option NodeId) (term : Nat) :
    Quiet mine n (n.respond r success value message leader term) := by
  constructor
  · exact fun _ _ h => h
  · intro ch hch a ha hresp
    rcases mem_respond_answered ha with hold | rfl
    · exact Or.inl hold
    · exact absurd hresp (hr ch hch)

theorem wait (n : RaftNode D) {r : Responder} (hr : ∀ ch, mine ch → r ≠ .oneshot ch) (key : Nat × Nat) :
    Quiet mine n { n with pendingRequests := n.pendingRequests.insert key r } := by
  constructor
  · rintro ch hch ⟨key', hkey'⟩
    by_cases hk : key' = key
    · subst hk
      rw [AList.lookup_insert] at hkey'
      exact absurd (Option.some.inj hkey') (hr ch hch)
    · rw [AList.lookup_insert_ne hk] at hkey'
      exact ⟨key', hkey'⟩
  · exact fun _ _ _ ha _ => Or.inl ha

end RaftNode.Quiet

section Handlers
variable {mine : Nat → Prop} {n n' : RaftNode D} {now : Instant}

theorem quiet_stepDown (n : RaftNode D) (t : Nat) (now : Instant) : Quiet mine n (n.stepDown t now) := by
  have hgiven : (n.stepDown t now).answered = n.answered + (n.pendingRequests.entries.map fun q =>
      (⟨q.2, false, none, "Leadership changed before confirmation; write outcome may be uncertain"⟩ : Answer)
      : List Answer) := Answers.all_foldl_send ..
  apply Quiet.of_given ?_ hgiven
  · intro ch _ a ha hresp
    -- the answer goes to one of those that waited
    obtain ⟨⟨key, r⟩, hmem, rfl⟩ := List.mem_map.mp (Multiset.mem_coe.mp ha)
    have hlookup : n.pendingRequests.lookup key = some r := AList.mem_lookup_iff.mpr hmem
    exact ⟨⟨key, hlookup.trans (congrArg some hresp)⟩, declines_uncertain false⟩
  · rintro ch - ⟨key, hkey⟩
    cases hkey

theorem quiet_resolvePending (n : RaftNode D) (index term : Nat) (result : Except Fault Unit) :
    Quiet mine n (n.resolvePending index term result) := by
  unfold RaftNode.resolvePending
  cases hkey : n.pendingRequests.lookup (index, term) with
  | none => exact .refl mine n
  | some r =>
    refine Quiet.of_given ?_ (Responder.send_all ..) ?_
    · rintro ch - ⟨key, hkey'⟩
      by_cases hk : key = (index, term)
      · subst hk
        rw [AList.lookup_erase] at hkey'
        cases hkey'
      · rw [AList.lookup_erase_ne hk] at hkey'
        exact ⟨key, hkey'⟩
    · intro ch _ a ha hresp
      obtain rfl := Multiset.mem_singleton.mp ha
      constructor
      · exact ⟨_, hkey.trans (congrArg some hresp)⟩
      · cases result with
        | ok => exact declines_success _
        | error err => exact declines_applyFailed false err.message

theorem quiet_applyNext (hs : n.applyNext = some n') : Quiet mine n n' := by
  obtain ⟨e, -, rfl⟩ := applyNext_eq_some hs
  have hpayload : Calm n (n.applyPayload e.payload).2 := (calm_applyPayload n e.payload).1
  have hcount : Quiet mine n { (n.applyPayload e.payload).2 with lastApplied := n.lastApplied + 1 } :=
    .of_eq hpayload.pending hpayload.answered.le
  exact hcount.trans (quiet_resolvePending ..)

theorem quiet_applyCommittedEntries (hs : n.applyCommittedEntries = some n') : Quiet mine n n' := by
  apply (applyCommittedEntries_induct (I := Quiet mine n) hs (.refl mine n) ?_).1
  intro b b' hquiet _ _ hb
  exact hquiet.trans (quiet_applyNext hb)

theorem quiet_composes [Bincode] (mine : Nat → Prop) (input : Input) : Composes (D := D) input (Quiet mine) where
  still h := .of_calm h.toCalm
  after_still h h' := (Quiet.of_calm h.toCalm).trans h'
  then_still h h' := h.trans (.of_calm h'.toCalm)
  stepDown h := (quiet_stepDown ..).trans h
  push e h := (Quiet.of_calm (calm_pushLogEntry _ e)).trans h
  appendLoop _ h := (Quiet.of_calm (calm_appendLoop ..)).trans h
  apply h := quiet_applyCommittedEntries h

theorem quiet_submitStoreWrite [FloatText] [Bincode] {c : Command} {r : Responder}
    (hr : ∀ ch, mine ch → r ≠ .oneshot ch) (hs : n.submitStoreWrite c r = some n') : Quiet mine n n' := by
  simp only [RaftNode.submitStoreWrite] at hs
  split_ifs at hs
  · obtain rfl := Option.some.inj hs
    exact .respond n hr ..
  · obtain ⟨⟨b, index⟩, hb, hs⟩ := Option.bind_eq_some_iff.mp hs
    obtain ⟨entry, -, hs⟩ := Option.bind_eq_some_iff.mp hs
    apply ((quiet_composes mine .tick).appendCommand hb).trans
    split_ifs at hs
    · obtain rfl := Option.some.inj hs
      exact .respond b hr ..
    · obtain rfl := Option.some.inj hs
      exact .wait b hr _

theorem quiet_read [FloatText] [Bincode] {input : Input} (hread : input.isRead = true)
    (hinput : ∀ ch, mine ch → input.channel? ≠ some ch) (hs : n.process input now = some n') :
    Quiet mine n n' := by
  have hclear : Quiet mine n { n with crashPoints := [] } := .of_eq rfl le_rfl
  apply hclear.trans
  cases input with
  | tick => cases hread
  | request request =>
    obtain ⟨operation, r⟩ := request
    have hr : ∀ ch, mine ch → r ≠ .oneshot ch := by
      -- a read that came in on the channel would carry it
      rintro ch hch rfl
      exact hinput ch hch rfl
    cases operation with
    | set => cases hread
    | delete => cases hread
    | get =>
      obtain rfl := Option.some.inj hs
      exact .respond _ hr ..
    | status =>
      obtain rfl := Option.some.inj hs
      exact .respond _ hr ..
  | message m =>
    cases m with
    | clientQuery =>
      obtain rfl := Option.some.inj hs
      exact Quiet.respond (r := .raftClient _ _) _ (fun _ _ h => nomatch h) ..
    | statusQuery =>
      obtain rfl := Option.some.inj hs
      exact Quiet.respond (r := .raftClient _ _) _ (fun _ _ h => nomatch h) ..
    | _ => cases hread

theorem Input.write_channel {input : Input} {r : Responder} {c : Command} (hw : input.write = some (r, c))
    {ch : Nat} (hr : r = .oneshot ch) : input.channel? = some ch := by
  subst hr
  cases input with
  | tick => cases hw
  | request request =>
    obtain ⟨operation, r⟩ := request
    cases operation with
    | set => cases hw; rfl
    | delete => cases hw; rfl
    | get => cases hw
    | status => cases hw
  | message m => cases m <;> cases hw

theorem quiet_process [FloatText] [Bincode] {input : Input} (hinput : ∀ ch, mine ch → input.channel? ≠ some ch)
    (hs : n.process input now = some n') : Quiet mine n n' := by
  cases hread : input.isRead with
  | true => exact quiet_read hread hinput hs
  | false =>
    cases hw : input.write with
    | none => exact (quiet_composes mine input).process hw hread hs
    | some p =>
      obtain ⟨r, c⟩ := p
      have hclear : Quiet mine n { n with crashPoints := [] } := .of_eq rfl le_rfl
      apply hclear.trans
      apply quiet_submitStoreWrite ?_ (process_write hw hs)
      intro ch hch hr
      exact hinput ch hch (Input.write_channel hw hr)

end Handlers

/-! A write that comes in on a channel of its own. -/

namespace RaftNode

/-- Nothing waits on the channel, and what was answered there turned the request down. -/
def TurnsDown (n : RaftNode D) (ch : Nat) : Prop :=
  ¬ n.WaitsOn ch ∧ ∀ a ∈ n.answered, a.responder = .oneshot ch → a.declined = true

def TakesUp (n : RaftNode D) (ch : Nat) : Prop :=
  ∀ a ∈ n.answered, a.responder = .oneshot ch → a.declined = false

variable {mine : Nat → Prop} {n n' : RaftNode D} {ch : Nat}

theorem TurnsDown.quiet (h : n.TurnsDown ch) (hq : Quiet mine n n') (hch : mine ch) : n'.TurnsDown ch := by
  constructor
  · exact fun hwaits => h.1 (hq.waits ch hch hwaits)
  · intro a ha hresp
    rcases hq.answers ch hch a ha hresp with hold | ⟨hwaits, -⟩
    · exact h.2 a hold hresp
    · exact absurd hwaits h.1

theorem TakesUp.quiet (h : n.TakesUp ch) (hq : Quiet mine n n') (hch : mine ch) : n'.TakesUp ch := by
  intro a ha hresp
  rcases hq.answers ch hch a ha hresp with hold | ⟨-, hkind⟩
  · exact h a hold hresp
  · exact hkind

theorem submitStoreWrite_turnsDown [FloatText] [Bincode] {c : Command} (hrole : n.role ≠ .leader) (h : n.TurnsDown ch)
    (hs : n.submitStoreWrite c (.oneshot ch) = some n') : n'.TurnsDown ch ∧ n'.log = n.log := by
  simp only [RaftNode.submitStoreWrite, if_pos hrole] at hs
  obtain rfl := Option.some.inj hs
  refine ⟨⟨h.1, ?_⟩, rfl⟩
  intro a ha hresp
  rcases mem_respond_answered ha with hold | rfl
  · exact h.2 a hold hresp
  · cases n.leaderId with
    | some leader => exact declines_leaderKnown leader
    | none => exact declines_leaderUnknown n.id

/-- A leader appends the command once, and never says that it has turned it down. -/
theorem submitStoreWrite_takesUp [FloatText] [Bincode] {c : Command} (hrole : n.role = .leader) (h : n.TakesUp ch)
    (hs : n.submitStoreWrite c (.oneshot ch) = some n') :
    n'.TakesUp ch ∧ n'.log = n.log ++ [⟨n.currentTerm, .command (LogRecord.new 0 c)⟩] := by
  simp only [RaftNode.submitStoreWrite, hrole, ne_eq, not_true_eq_false, if_false] at hs
  obtain ⟨⟨b, index⟩, hb, hs⟩ := Option.bind_eq_some_iff.mp hs
  obtain ⟨entry, -, hs⟩ := Option.bind_eq_some_iff.mp hs
  have hquiet : b.TakesUp ch := h.quiet ((quiet_composes (fun _ => True) .tick).appendCommand hb) trivial
  have hlog := (appendCommand_log hb).2
  split_ifs at hs
  · obtain rfl := Option.some.inj hs
    refine ⟨?_, hlog⟩
    intro a ha hresp
    rcases mem_respond_answered ha with hold | rfl
    · exact hquiet a hold hresp
    · exact declines_success _
  · obtain rfl := Option.some.inj hs
    exact ⟨hquiet, hlog⟩

end RaftNode

namespace Cluster
variable {config : Config} {c c' : Cluster D}

def Quiet (mine : Nat → Prop) (c c' : Cluster D) : Prop :=
  ∀ id n', c'.nodes id = some n' → (∃ n, c.nodes id = some n ∧ RaftNode.Quiet mine n n') ∨
    n'.pendingRequests = ∅ ∧ n'.answered = 0

theorem newInDir_answered [FloatText] [Bincode] {dir : Dir D} {id : NodeId} {peers : List NodeId} {now : Instant}
    {n : RaftNode D} (hn : RaftNode.newInDir dir id peers config now = some n) : n.answered = 0 := by
  simp only [RaftNode.newInDir] at hn
  split at hn
  · cases hn
  · obtain rfl := Option.some.inj hn
    rfl

theorem quiet_setNode (mine : Nat → Prop) {id : NodeId} {n n' : RaftNode D} (hn : c.nodes id = some n)
    (h : RaftNode.Quiet mine n n') : Quiet mine c (c.setNode id n') := by
  intro j m hm
  rcases nodes_setNode hm with ⟨rfl, rfl⟩ | ⟨-, hj⟩
  · exact Or.inl ⟨n, hn, h⟩
  · exact Or.inl ⟨m, hj, .refl mine m⟩

theorem quiet_started [FloatText] [Bincode] (mine : Nat → Prop) {id : NodeId} {dir : Dir D} {peers : List NodeId}
    {now : Instant} {n' : RaftNode D} (hn : RaftNode.newInDir dir id peers config now = some n') :
    Quiet mine c (c.setNode id n') := by
  intro j m hm
  rcases nodes_setNode hm with ⟨rfl, rfl⟩ | ⟨-, hj⟩
  · exact Or.inr ⟨newInDir_pending hn, newInDir_answered hn⟩
  · exact Or.inl ⟨m, hj, .refl mine m⟩

theorem quiet_step [FloatText] [Bincode] {mine : Nat → Prop} {a : Action} (ha : ∀ ch, mine ch → a.channel? ≠ some ch)
    (hs : step config c a = some c') : Quiet mine c c' := by
  cases a with
  | process id input now =>
    obtain ⟨n, hn, -, n', hn', rfl⟩ := step_process.mp hs
    exact quiet_setNode mine hn (quiet_process ha hn')
  | restart id now =>
    obtain ⟨n, hn, rfl⟩ := step_restart.mp hs
    apply quiet_setNode mine hn
    constructor
    · rintro ch - ⟨key, hkey⟩
      cases hkey
    · intro ch _ b hb _
      exact Or.inl (Multiset.mem_of_le (Answers.all_clear_le n.answers) hb)
  | flush id =>
    obtain ⟨n, hn, rfl⟩ := step_flush.mp hs
    exact quiet_setNode mine hn (.of_eq rfl (Answers.all_clear_le n.answers))
  | crash id inside now =>
    obtain ⟨n, dir, r, -, hr, rfl⟩ := step_crash hs
    exact quiet_started mine hr
  | join id peers now =>
    obtain ⟨-, r, hr, rfl⟩ := step_join.mp hs
    exact quiet_started mine hr

def TurnsDown (c : Cluster D) (ch : Nat) : Prop := ∀ id n, c.nodes id = some n → n.TurnsDown ch

def TakesUp (c : Cluster D) (ch : Nat) : Prop := ∀ id n, c.nodes id = some n → n.TakesUp ch

section Keep
variable {mine : Nat → Prop} {ch : Nat}

theorem turnsDown_started {n : RaftNode D} (hp : n.pendingRequests = ∅) (ha : n.answered = 0) : n.TurnsDown ch := by
  simp [RaftNode.TurnsDown, WaitsOn, hp, ha]

theorem takesUp_started {n : RaftNode D} (ha : n.answered = 0) : n.TakesUp ch := by
  simp [RaftNode.TakesUp, ha]

theorem TurnsDown.quiet (h : c.TurnsDown ch) (hq : Quiet mine c c') (hch : mine ch) : c'.TurnsDown ch := by
  intro id n' hn'
  rcases hq id n' hn' with ⟨n, hn, hquiet⟩ | ⟨hp, ha⟩
  · exact (h id n hn).quiet hquiet hch
  · exact turnsDown_started hp ha

theorem TakesUp.quiet (h : c.TakesUp ch) (hq : Quiet mine c c') (hch : mine ch) : c'.TakesUp ch := by
  intro id n' hn'
  rcases hq id n' hn' with ⟨n, hn, hquiet⟩ | ⟨-, ha⟩
  · exact (h id n hn).quiet hquiet hch
  · exact takesUp_started ha

theorem TurnsDown.setNode (h : c.TurnsDown ch) {id : NodeId} {n : RaftNode D} (hn : n.TurnsDown ch) :
    (c.setNode id n).TurnsDown ch := by
  intro j m hm
  rcases nodes_setNode hm with ⟨-, rfl⟩ | ⟨-, hj⟩
  · exact hn
  · exact h j m hj

theorem TakesUp.setNode (h : c.TakesUp ch) {id : NodeId} {n : RaftNode D} (hn : n.TakesUp ch) :
    (c.setNode id n).TakesUp ch := by
  intro j m hm
  rcases nodes_setNode hm with ⟨-, rfl⟩ | ⟨-, hj⟩
  · exact hn
  · exact h j m hj

end Keep
end Cluster

theorem process_own [FloatText] [Bincode] {n n' : RaftNode D} {input : Input} {now : Instant} {ch : Nat} {cmd : Command}
    (hw : input.write = some (.oneshot ch, cmd)) (hdown : n.TurnsDown ch) (hup : n.TakesUp ch)
    (hs : n.process input now = some n') :
    (n'.log = n.log ∧ n'.TurnsDown ch) ∨
      (n'.log = n.log ++ [⟨n.currentTerm, .command (LogRecord.new 0 cmd)⟩] ∧ n'.TakesUp ch) := by
  have hsubmit := process_write hw hs
  by_cases hrole : n.role = .leader
  · have h := submitStoreWrite_takesUp (n := { n with crashPoints := [] }) hrole hup hsubmit
    exact Or.inr ⟨h.2, h.1⟩
  · have h := submitStoreWrite_turnsDown (n := { n with crashPoints := [] }) hrole hdown hsubmit
    exact Or.inl ⟨h.2, h.1⟩

end KvRaft
