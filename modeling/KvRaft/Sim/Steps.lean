import KvRaft.Sim.Crashed
import Mathlib.Logic.Relation

/-! The small steps of the simulator. Whatever operation is called, whatever faults come due within it and
whatever the chaos test draws, the simulator does no more than these, one after another. What each of them
keeps therefore holds in every state of every run. -/

namespace KvRaft.Simulator
open Relation (ReflTransGen)

variable {D : Type} [Storage D]

/-- What the simulator asks of a node, apart from handing it an event and restarting it. -/
inductive Call where
  | startElection
  | tick
  | submit (command : Command)

def Call.run [FloatText] [Bincode] (call : Call) (node : RaftNode D) (now : Instant) : Option (RaftNode D) :=
  match call with
  | .startElection => node.startElection now
  | .tick => node.process .tick now
  | .submit command => node.process (.message (.clientCommand command)) now

/-- A simulator, and the event it has taken off the heap and not dealt with. -/
structure Moment (D : Type) [Storage D] where
  sim : Simulation D
  hand : Option Event

namespace Simulation
variable [FloatText] [Bincode] [Platform]

def turn (s : Simulation D) (id : NodeId) (call : RaftNode D → Instant → Option (RaftNode D)) :
    Option (Simulation D) :=
  (s.callNode id call).map (·.flushNodeOutbox id)

def deferEvent (s : Simulation D) (event : Event) : Simulation D :=
  let deferred := (s.pausedEvents.lookup event.dest).getD [] ++ [event]
  { s with pausedEvents := s.pausedEvents.insert event.dest deferred }

def Lost (s : Simulation D) (event : Event) : Prop :=
  event.sender ∈ s.disabledNodes ∨ event.dest ∈ s.disabledNodes ∨ (event.sender, event.dest) ∈ s.blockedLinks

end Simulation
open Simulation

inductive Step [FloatText] [Bincode] [Platform] : Moment D → Moment D → Prop
  | mark (s hand) (m : Mark D) : Step ⟨s, hand⟩ ⟨s.mark m, hand⟩
  | disable (s hand id) :
      Step ⟨s, hand⟩ ⟨({ s with disabledNodes := insert id s.disabledNodes } : Simulation D).clearOutbox id, hand⟩
  | enable (s hand id) : Step ⟨s, hand⟩ ⟨{ s with disabledNodes := s.disabledNodes.erase id }, hand⟩
  | pause (s hand id) : Step ⟨s, hand⟩ ⟨s.pauseNode id, hand⟩
  | resume (s hand id) : Step ⟨s, hand⟩ ⟨s.resumeNode id, hand⟩
  | restart {s s'} (hand id)
      (h : ({ s with pausedNodes := s.pausedNodes.erase id, pausedEvents := s.pausedEvents.erase id } :
        Simulation D).callNode id (fun node now => some (node.restart now)) = some s') : Step ⟨s, hand⟩ ⟨s', hand⟩
  | links (s hand blocked) : Step ⟨s, hand⟩ ⟨{ s with blockedLinks := blocked }, hand⟩
  | policy (s hand link policy) : Step ⟨s, hand⟩ ⟨s.setPolicy link policy, hand⟩
  | schedule (s hand triggerAt fault) : Step ⟨s, hand⟩ ⟨s.scheduleFault triggerAt fault, hand⟩
  | unschedule {s scheduled rest} (hand)
      (h : popFirst ScheduledFault.before s.scheduledFaults = some (scheduled, rest)) :
      Step ⟨s, hand⟩ ⟨{ s with scheduledFaults := rest }, hand⟩
  | elapse {s clock} (hand) (h : s.clock ≤ clock) : Step ⟨s, hand⟩ ⟨{ s with clock := clock }, hand⟩
  | overflow (s hand) (also : Bool) : Step ⟨s, hand⟩ ⟨{ s with overflowed := s.overflowed || also }, hand⟩
  | flush (s hand id) : Step ⟨s, hand⟩ ⟨s.flushNodeOutbox id, hand⟩
  | call {s s' id} (hand) (call : Call) (h : s.turn id call.run = some s') : Step ⟨s, hand⟩ ⟨s', hand⟩
  | take {s event rest} (h : popFirst Event.before s.events = some (event, rest)) :
      Step ⟨s, none⟩ ⟨{ s with events := rest, clock := max event.deliverAt s.clock }, some event⟩
  | lose {s event} (h : s.Lost event) : Step ⟨s, some event⟩ ⟨s, none⟩
  | defer {s event} (hlost : ¬s.Lost event) (h : event.dest ∈ s.pausedNodes) :
      Step ⟨s, some event⟩ ⟨s.deferEvent event, none⟩
  | receive {s s' event} (hlost : ¬s.Lost event) (hpaused : event.dest ∉ s.pausedNodes)
      (h : s.turn event.dest (RaftNode.process · (.message event.message)) = some s') :
      Step ⟨s, some event⟩ ⟨s', none⟩

def Steps [FloatText] [Bincode] [Platform] (hand : Option Event) (s s' : Simulation D) : Prop :=
  ReflTransGen Step ⟨s, hand⟩ ⟨s', hand⟩

namespace Steps
variable [FloatText] [Bincode] [Platform] {hand : Option Event} {s s' s'' : Simulation D}

theorem refl (s : Simulation D) : Steps hand s s := ReflTransGen.refl

theorem single (h : Step ⟨s, hand⟩ ⟨s', hand⟩) : Steps hand s s' := ReflTransGen.single h

theorem trans (h : Steps hand s s') (h' : Steps hand s' s'') : Steps hand s s'' := ReflTransGen.trans h h'

theorem foldl {α : Type} {f : Simulation D → α → Simulation D} (h : ∀ s x, Steps hand s (f s x)) (l : List α)
    (s : Simulation D) : Steps hand s (l.foldl f s) := by
  induction l generalizing s with
  | nil => exact refl s
  | cons x l ih => exact (h s x).trans (ih _)

theorem foldlM {α : Type} {f : Simulation D → α → Option (Simulation D)}
    (h : ∀ s x s', f s x = some s' → Steps hand s s') {l : List α} (hs : l.foldlM f s = some s') :
    Steps hand s s' :=
  Fold.foldlM_invariant (P := Steps hand s) hs (refl s) fun b x b' _ hb hx => hb.trans (h b x b' hx)

end Steps

namespace Simulation
variable [FloatText] [Bincode] [Platform] {hand : Option Event} {s s' : Simulation D} {id : NodeId}

/-! Faults. -/

theorem disableNode_steps (s : Simulation D) (id : NodeId) : Steps hand s (s.disableNode id) :=
  (Steps.single (.disable s hand id)).trans (.single (.mark ..))

theorem enableNode_steps (s : Simulation D) (id : NodeId) : Steps hand s (s.enableNode id) :=
  (Steps.single (.enable s hand id)).trans (.single (.mark ..))

theorem restartNode_steps (h : s.restartNode id = some s') : Steps hand s s' :=
  (enableNode_steps s id).trans (.single (.restart hand id h))

theorem blockLink_steps (s : Simulation D) (sender dest : NodeId) : Steps hand s (s.blockLink sender dest) :=
  .single (.links ..)

theorem unblockLink_steps (s : Simulation D) (sender dest : NodeId) : Steps hand s (s.unblockLink sender dest) :=
  .single (.links ..)

theorem partition_steps (s : Simulation D) (groupA groupB : List NodeId) :
    Steps hand s (s.partition groupA groupB) := by
  apply Steps.foldl
  intro s a
  apply Steps.foldl
  intro s b
  exact (blockLink_steps s a b).trans (blockLink_steps _ b a)

theorem isolateNode_steps (s : Simulation D) (id : NodeId) : Steps hand s (s.isolateNode id) := by
  apply Steps.foldl
  intro s peer
  exact (blockLink_steps s id peer).trans (blockLink_steps _ peer id)

theorem reconnectNode_steps (s : Simulation D) (id : NodeId) : Steps hand s (s.reconnectNode id) := by
  apply Steps.foldl
  intro s peer
  exact (unblockLink_steps s id peer).trans (unblockLink_steps _ peer id)

theorem updatePolicy_steps (s : Simulation D) (link : NodeId × NodeId) (f : LinkFaultPolicy → LinkFaultPolicy) :
    Steps hand s (s.updatePolicy link f) :=
  .single (.policy ..)

theorem dropPackets_steps (s : Simulation D) (sender dest : NodeId) (count : Nat) :
    Steps hand s (s.dropPackets sender dest count) :=
  (updatePolicy_steps s (sender, dest) _).trans (.single (.overflow ..))

theorem duplicatePackets_steps (s : Simulation D) (sender dest : NodeId) (count delay : Nat) :
    Steps hand s (s.duplicatePackets sender dest count delay) :=
  (updatePolicy_steps s (sender, dest) _).trans (.single (.overflow ..))

theorem clearLinkDelay_steps (s : Simulation D) (sender dest : NodeId) :
    Steps hand s (s.clearLinkDelay sender dest) := by
  unfold clearLinkDelay
  split
  · exact .refl s
  · exact .single (.policy ..)

theorem startElection_steps (h : s.startElection id = some s') : Steps hand s s' := by
  unfold startElection at h
  split_ifs at h
  · cases h
    exact .refl s
  · exact .single (.call hand .startElection h)

theorem submitCommand_steps {command : Command} (h : s.submitCommand id command = some s') : Steps hand s s' :=
  (Steps.single (.mark s hand _)).trans (.single (.call hand (.submit command) h))

theorem applyFault_steps {fault : Fault} (h : s.applyFault fault = some s') : Steps hand s s' := by
  cases fault with
  | crashNode id => cases h; exact disableNode_steps s id
  | restartNode id => exact restartNode_steps h
  | pauseNode id => cases h; exact .single (.pause ..)
  | resumeNode id => cases h; exact .single (.resume ..)
  | blockLink sender dest => cases h; exact blockLink_steps s sender dest
  | unblockLink sender dest => cases h; exact unblockLink_steps s sender dest
  | partition groupA groupB => cases h; exact partition_steps s groupA groupB
  | healAllPartitions => cases h; exact .single (.links ..)
  | isolateNode id => cases h; exact isolateNode_steps s id
  | reconnectNode id => cases h; exact reconnectNode_steps s id
  | dropPackets sender dest count => cases h; exact dropPackets_steps s sender dest count
  | delayLink => cases h; exact updatePolicy_steps ..
  | duplicatePackets sender dest count delay => cases h; exact duplicatePackets_steps s sender dest count delay
  | clearLinkDelay sender dest => cases h; exact clearLinkDelay_steps s sender dest
  | triggerElection id => exact startElection_steps h
  | submitCommand id command => exact submitCommand_steps h

theorem triggerLoop_steps {now rounds : Nat} (h : triggerLoop now rounds s = some s') : Steps hand s s' := by
  induction rounds generalizing s with
  | zero =>
    cases h
    exact .refl _
  | succ rounds ih =>
    unfold triggerLoop at h
    split at h
    · cases h
      exact .refl _
    · next scheduled rest hpop =>
      split_ifs at h
      · obtain ⟨s₁, hfault, hloop⟩ := Option.bind_eq_some_iff.mp h
        exact (Steps.single (.unschedule hand hpop)).trans ((applyFault_steps hfault).trans (ih hloop))
      · cases h
        exact .refl _

theorem triggerDueFaults_steps (h : s.triggerDueFaults = some s') : Steps hand s s' := triggerLoop_steps h

/-! Running. -/

theorem tickNode_steps (h : s.tickNode id = some s') : Steps hand s s' := by
  unfold tickNode at h
  split_ifs at h
  · cases h
    exact .refl s
  · exact .single (.call hand .tick h)

theorem advanceTime_steps {millis : Nat} (h : s.advanceTime millis = some s') : Steps hand s s' := by
  have hlater : s.clock ≤ s.clock + millis * 1000000 := Nat.le_add_right ..
  unfold advanceTime at h
  -- a literal of this size is not to be unfolded
  generalize s.clock + millis * 1000000 = clock at h hlater
  obtain ⟨s₁, htrigger, hticks⟩ := Option.bind_eq_some_iff.mp h
  apply ((Steps.single (.elapse hand hlater)).trans (.single (.overflow ..))).trans
  exact (triggerDueFaults_steps htrigger).trans (.foldlM (fun _ _ _ => tickNode_steps) hticks)

theorem deliver_step {event : Event} (h : s.deliver event = some s') : Step ⟨s, some event⟩ ⟨s', none⟩ := by
  unfold deliver at h
  split_ifs at h with hlost hpaused
  · cases h
    exact .lose hlost
  · cases h
    exact .defer hlost hpaused
  · exact .receive hlost hpaused h

theorem deliverNext_steps {more : Bool} (h : s.deliverNext = some (more, s')) : Steps none s s' := by
  obtain ⟨s₁, htrigger, h⟩ := Option.bind_eq_some_iff.mp h
  apply (triggerDueFaults_steps htrigger).trans
  split at h
  · next event rest hpop =>
    obtain ⟨s₂, htrigger₂, h⟩ := Option.bind_eq_some_iff.mp h
    obtain ⟨s₃, hdeliver, h⟩ := Option.bind_eq_some_iff.mp h
    cases h
    -- the faults that come due meanwhile find the event in the hand
    have hfaults : Steps (some event) _ s₂ := triggerDueFaults_steps htrigger₂
    exact ((ReflTransGen.single (.take hpop)).trans hfaults).tail (deliver_step hdeliver)
  · split at h
    · split_ifs at h
      · obtain ⟨s₂, hadvance, h⟩ := Option.bind_eq_some_iff.mp h
        cases h
        exact advanceTime_steps hadvance
      · cases h
        exact .refl _
    · cases h
      exact .refl _

theorem flushAllOutboxes_steps (s : Simulation D) : Steps hand s s.flushAllOutboxes :=
  .foldl (fun s id => .single (.flush s hand id)) _ s

theorem idleLoop_steps {rounds : Nat} (h : idleLoop rounds s = some s') : Steps none s s' := by
  induction rounds generalizing s with
  | zero => cases h
  | succ rounds ih =>
    obtain ⟨⟨more, s₁⟩, hdeliver, h⟩ := Option.bind_eq_some_iff.mp h
    apply (deliverNext_steps hdeliver).trans
    dsimp only at h
    split_ifs at h
    · exact ih h
    · cases h
      exact .refl _

theorem runUntilIdle_steps (h : s.runUntilIdle = some s') : Steps none s s' := by
  unfold runUntilIdle at h
  exact (flushAllOutboxes_steps s).trans (idleLoop_steps h)

theorem stepsLoop_steps {rounds executed : Nat} (h : stepsLoop rounds s = some (executed, s')) :
    Steps none s s' := by
  induction rounds generalizing s executed with
  | zero =>
    cases h
    exact .refl _
  | succ rounds ih =>
    obtain ⟨⟨more, s₁⟩, hdeliver, h⟩ := Option.bind_eq_some_iff.mp h
    apply (deliverNext_steps hdeliver).trans
    dsimp only at h
    split_ifs at h
    · obtain ⟨⟨executed', s₂⟩, hloop, h⟩ := Option.bind_eq_some_iff.mp h
      cases h
      exact ih hloop
    · cases h
      exact .refl _

/-! The chaos test. -/

theorem injectRandomFault_steps {rng rng' : DeterministicRng} {config : ChaosConfig} {fault : Option Fault}
    (h : s.injectRandomFault rng config = some (fault, rng', s')) : Steps none s s' := by
  unfold injectRandomFault at h
  split at h
  · obtain ⟨s₁, hfault, h⟩ := Option.map_eq_some_iff.mp h
    cases h
    exact applyFault_steps hfault
  · cases h
    exact .refl _

theorem chaosCommand_steps {rng rng' : DeterministicRng} {nodeIds : List NodeId} {step ops ops' : Nat}
    (h : s.chaosCommand rng nodeIds step ops = some (ops', rng', s')) : Steps none s s' := by
  unfold chaosCommand at h
  split_ifs at h
  · obtain ⟨⟨target, rng₁⟩, -, h⟩ := Option.bind_eq_some_iff.mp h
    dsimp only at h
    split_ifs at h
    · obtain ⟨s₁, hfault, h⟩ := Option.map_eq_some_iff.mp h
      cases h
      exact applyFault_steps hfault
    · cases h
      exact .refl _
  · cases h
    exact .refl _

theorem chaosMove_steps {rng rng' : DeterministicRng} (h : s.chaosMove rng = some (rng', s')) :
    Steps none s s' := by
  unfold chaosMove at h
  dsimp only at h
  split_ifs at h
  · obtain ⟨s₁, hadvance, heq⟩ := Option.map_eq_some_iff.mp h
    obtain rfl : s₁ = s' := (Prod.mk.inj heq).2
    exact advanceTime_steps hadvance
  · obtain ⟨⟨more, s₁⟩, hdeliver, heq⟩ := Option.map_eq_some_iff.mp h
    obtain rfl : s₁ = s' := (Prod.mk.inj heq).2
    exact deliverNext_steps hdeliver

theorem chaosStep_steps {rng rng' : DeterministicRng} {nodeIds : List NodeId} {config : ChaosConfig}
    {step ops ops' : Nat} (h : s.chaosStep rng nodeIds config step ops = some (ops', rng', s')) :
    Steps none s s' := by
  obtain ⟨⟨ops₁, rng₁, s₁⟩, hcommand, h⟩ := Option.bind_eq_some_iff.mp h
  obtain ⟨⟨fault, rng₂, s₂⟩, hinject, h⟩ := Option.bind_eq_some_iff.mp h
  obtain ⟨⟨rng₃, s₃⟩, hmove, h⟩ := Option.bind_eq_some_iff.mp h
  cases h
  exact ((chaosCommand_steps hcommand).trans (injectRandomFault_steps hinject)).trans (chaosMove_steps hmove)

theorem chaosLoop_steps {nodeIds : List NodeId} {config : ChaosConfig} {remaining step ops : Nat}
    {rng : DeterministicRng} {result : Except InvariantViolation Nat}
    (h : chaosLoop nodeIds config remaining step ops rng s = some (result, s')) : Steps none s s' := by
  induction remaining generalizing s step ops rng with
  | zero =>
    cases h
    exact .refl _
  | succ remaining ih =>
    obtain ⟨⟨ops₁, rng₁, s₁⟩, hstep, h⟩ := Option.bind_eq_some_iff.mp h
    apply (chaosStep_steps hstep).trans
    dsimp only at h
    split at h
    · cases h
      exact .refl _
    · exact ih h

theorem convergeNode_steps (h : s.convergeNode id = some s') : Steps none s s' := by
  obtain ⟨s₁, hrestart, rfl⟩ := Option.map_eq_some_iff.mp h
  have hfirst : Steps none s s₁ := by
    split_ifs at hrestart
    · exact restartNode_steps hrestart
    · cases hrestart
      exact .refl _
  apply hfirst.trans
  split_ifs
  · exact .single (.resume ..)
  · exact .refl _

/-- What the chaos test does after its last step: it heals the cluster and lets it run. -/
theorem converge_steps {nodeIds : List NodeId} {s₁ : Simulation D}
    (hconverge : nodeIds.foldlM convergeNode s.healAllPartitions = some s₁) (hidle : s₁.runUntilIdle = some s') :
    Steps none s s' :=
  (Steps.single (.links ..)).trans ((Steps.foldlM (fun _ _ _ => convergeNode_steps) hconverge).trans
    (runUntilIdle_steps hidle))

theorem runChaosTest_steps {seed : UInt64} {steps : Nat} {config : ChaosConfig}
    {result : Except InvariantViolation Nat} (h : s.runChaosTest seed steps config = some (result, s')) :
    Steps none s s' := by
  obtain ⟨⟨result₁, s₁⟩, hloop, h⟩ := Option.bind_eq_some_iff.mp h
  apply (chaosLoop_steps hloop).trans
  cases result₁ with
  | error v =>
    cases h
    exact .refl _
  | ok ops =>
    obtain ⟨s₂, hconverge, h⟩ := Option.bind_eq_some_iff.mp h
    obtain ⟨s₃, hidle, h⟩ := Option.bind_eq_some_iff.mp h
    have hsteps : Steps none s₁ s₃ := converge_steps hconverge hidle
    split at h
    · cases h
      exact hsteps
    · cases h
      exact hsteps

/-! Runs. -/

theorem perform_steps {op : Operation} (h : s.perform op = some s') : Steps none s s' := by
  cases op with
  | disableNode id | crashNode id => cases h; exact disableNode_steps s id
  | enableNode id => cases h; exact enableNode_steps s id
  | restartNode id => exact restartNode_steps h
  | pauseNode id => cases h; exact .single (.pause ..)
  | resumeNode id => cases h; exact .single (.resume ..)
  | blockLink sender dest => cases h; exact blockLink_steps s sender dest
  | unblockLink sender dest => cases h; exact unblockLink_steps s sender dest
  | partition groupA groupB => cases h; exact partition_steps s groupA groupB
  | healAllPartitions => cases h; exact .single (.links ..)
  | isolateNode id => cases h; exact isolateNode_steps s id
  | reconnectNode id => cases h; exact reconnectNode_steps s id
  | dropPackets sender dest count => cases h; exact dropPackets_steps s sender dest count
  | delayLink => cases h; exact updatePolicy_steps ..
  | duplicatePackets sender dest count delay => cases h; exact duplicatePackets_steps s sender dest count delay
  | clearLinkDelay sender dest => cases h; exact clearLinkDelay_steps s sender dest
  | scheduleFault => cases h; exact .single (.schedule ..)
  | scheduleFaultAfter => cases h; exact (Steps.single (.overflow ..)).trans (.single (.schedule ..))
  | applyFault fault => exact applyFault_steps h
  | startElection id => exact startElection_steps h
  | flushNodeOutbox id => cases h; exact .single (.flush ..)
  | flushAllOutboxes => cases h; exact flushAllOutboxes_steps s
  | runUntilIdle | routeMessages => exact runUntilIdle_steps h
  | advanceTime millis => exact advanceTime_steps h
  | deliverNext | step =>
    obtain ⟨⟨more, s₁⟩, hdeliver, rfl⟩ := Option.map_eq_some_iff.mp h
    exact deliverNext_steps hdeliver
  | runSteps maxSteps =>
    obtain ⟨⟨executed, s₁⟩, hloop, rfl⟩ := Option.map_eq_some_iff.mp h
    exact (flushAllOutboxes_steps s).trans (stepsLoop_steps hloop)
  | injectRandomFault rng config =>
    obtain ⟨⟨fault, rng', s₁⟩, hinject, rfl⟩ := Option.map_eq_some_iff.mp h
    exact injectRandomFault_steps hinject
  | runChaosTest seed steps config =>
    obtain ⟨⟨result, s₁⟩, hchaos, rfl⟩ := Option.map_eq_some_iff.mp h
    exact runChaosTest_steps hchaos

theorem operate_steps {op : Operation} (h : s.operate op = some s') : Steps none s s' :=
  perform_steps (operate_eq_some.mp h).1

theorem exec_steps {ops : List Operation} (h : s.exec ops = some s') : Steps none s s' :=
  .foldlM (fun _ _ _ => operate_steps) h

end Simulation

/-! What the steps can do to the nodes and to the network. -/

def Event.envelope (e : Event) : Envelope := (e.dest, e.message)

/-- All events there are: in the network, put off for paused nodes, and in the hand. -/
def Moment.inFlight (m : Moment D) : List Event := m.sim.events ++ m.sim.deferred ++ m.hand.toList

namespace Simulation
variable {s s' s'' : Simulation D} {id j : NodeId} {n n' : RaftNode D} {outbox : List Envelope}

theorem clearOutbox_frame_eq (s : Simulation D) (id : NodeId) :
    s.clearOutbox id = { s with nodes := (s.clearOutbox id).nodes } := by
  unfold clearOutbox
  split <;> rfl

theorem lookup_insert_cases {nodes : AList fun _ : NodeId => RaftNode D} (h : (nodes.insert id n).lookup j = some n') :
    (j = id ∧ n' = n) ∨ (j ≠ id ∧ nodes.lookup j = some n') := by
  by_cases hj : j = id
  · subst hj
    rw [AList.lookup_insert] at h
    exact .inl ⟨rfl, (Option.some.inj h).symm⟩
  · rw [AList.lookup_insert_ne hj] at h
    exact .inr ⟨hj, h⟩

theorem lookup_clearOutbox (h : (s.clearOutbox id).nodes.lookup j = some n') :
    ∃ n, s.nodes.lookup j = some n ∧ (j = id ∧ n' = { n with outbox := [] } ∨ j ≠ id ∧ n' = n) := by
  unfold clearOutbox at h
  split at h
  · next hnone =>
    refine ⟨n', h, .inr ⟨?_, rfl⟩⟩
    rintro rfl
    cases hnone.symm.trans h
  · next n hn =>
    rcases lookup_insert_cases h with ⟨rfl, rfl⟩ | ⟨hj, hlookup⟩
    · exact ⟨n, hn, .inl ⟨rfl, rfl⟩⟩
    · exact ⟨n', hlookup, .inr ⟨hj, rfl⟩⟩

structure Sends (id : NodeId) (outbox : List Envelope) (s s' : Simulation D) : Prop where
  frame : s' = { s with
    events := s'.events, sequenceCounter := s'.sequenceCounter, linkPolicies := s'.linkPolicies,
    overflowed := s'.overflowed }
  counter : s.sequenceCounter ≤ s'.sequenceCounter
  fits : s'.overflowed = false → s.overflowed = false
  events : ∃ sent, s'.events = sent ++ s.events ∧ sent.Pairwise (fun a b => b.sequence < a.sequence) ∧
    ∀ e ∈ sent, e.sender = id ∧ e.envelope ∈ outbox ∧ s.clock ≤ e.deliverAt ∧
      s.sequenceCounter ≤ e.sequence ∧ e.sequence < s'.sequenceCounter

namespace Sends

theorem refl (s : Simulation D) : Sends id outbox s s := ⟨rfl, le_rfl, fun h => h, [], rfl, .nil, by simp⟩

theorem trans (h : Sends id outbox s s') (h' : Sends id outbox s' s'') : Sends id outbox s s'' := by
  obtain ⟨sent, hsent, hsorted, hnew⟩ := h.events
  obtain ⟨sent', hsent', hsorted', hnew'⟩ := h'.events
  have hclock : s'.clock = s.clock := by rw [h.frame]
  refine ⟨?_, h.counter.trans h'.counter, fun hfits => h.fits (h'.fits hfits), sent' ++ sent, ?_, ?_, fun e he => ?_⟩
  · rw [h'.frame, h.frame]
  · rw [hsent', hsent, List.append_assoc]
  · refine List.pairwise_append.mpr ⟨hsorted', hsorted, fun a ha b hb => ?_⟩
    exact (hnew b hb).2.2.2.2.trans_le (hnew' a ha).2.2.2.1
  · rcases List.mem_append.mp he with he | he
    · obtain ⟨h1, h2, h3, h4, h5⟩ := hnew' e he
      exact ⟨h1, h2, hclock ▸ h3, h.counter.trans h4, h5⟩
    · obtain ⟨h1, h2, h3, h4, h5⟩ := hnew e he
      exact ⟨h1, h2, h3, h4, h5.trans_le h'.counter⟩

theorem setPolicy (s : Simulation D) (link : NodeId × NodeId) (policy : LinkFaultPolicy) :
    Sends id outbox s (s.setPolicy link policy) := ⟨rfl, le_rfl, fun h => h, [], rfl, .nil, by simp⟩

theorem checkInstant [Platform] (s : Simulation D) (instant : Nat) : Sends id outbox s (s.checkInstant instant) :=
  ⟨rfl, le_rfl, fun h => (Bool.or_eq_false_iff.mp h).1, [], rfl, .nil, by simp⟩

theorem pushEvent (s : Simulation D) {deliverAt : Nat} {e : Envelope} (he : e ∈ outbox)
    (hlate : s.clock ≤ deliverAt) : Sends id outbox s (s.pushEvent deliverAt id e) := by
  refine ⟨rfl, Nat.le_succ _, fun h => h, [⟨deliverAt, s.sequenceCounter, id, e.1, e.2⟩], rfl,
    List.pairwise_singleton .., ?_⟩
  intro x hx
  obtain rfl := List.mem_singleton.mp hx
  exact ⟨rfl, he, hlate, le_rfl, Nat.lt_succ_self _⟩

theorem routeMessage [Platform] (s : Simulation D) {e : Envelope} (he : e ∈ outbox) :
    Sends id outbox s (routeMessage id s e) := by
  unfold Simulation.routeMessage
  split_ifs
  · exact refl s
  · exact refl s
  · split
    · exact pushEvent s he le_rfl
    · split_ifs
      · exact setPolicy ..
      · refine (checkInstant ..).trans ((setPolicy ..).trans ((checkInstant ..).trans
          (trans (pushEvent _ he ?_) (pushEvent _ he ?_))))
        · exact Nat.le_add_right ..
        · exact (Nat.le_add_right ..).trans (Nat.le_add_right ..)
      · exact (checkInstant ..).trans (pushEvent _ he (Nat.le_add_right ..))

theorem all [Platform] (todo : List Envelope) (htodo : ∀ e ∈ todo, e ∈ outbox) (s : Simulation D) :
    Sends id outbox s (todo.foldl (Simulation.routeMessage id) s) := by
  induction todo generalizing s with
  | nil => exact refl s
  | cons e todo ih =>
    have hfirst : Sends id outbox s _ := routeMessage s (htodo e (List.mem_cons_self ..))
    exact hfirst.trans (ih (fun x hx => htodo x (List.mem_cons_of_mem e hx)) _)

end Sends

/-- A crashed node loses its outbox, one that is paused or not there does nothing, any other sends. -/
theorem flushNodeOutbox_cases [Platform] (s : Simulation D) (id : NodeId) :
    (id ∈ s.disabledNodes ∧ s.flushNodeOutbox id = s.clearOutbox id) ∨
    ((id ∈ s.pausedNodes ∨ s.nodes.lookup id = none) ∧ s.flushNodeOutbox id = s) ∨
    ∃ n, s.nodes.lookup id = some n ∧ id ∉ s.disabledNodes ∧ id ∉ s.pausedNodes ∧
      Sends id n.outbox (s.clearOutbox id) (s.flushNodeOutbox id) := by
  unfold flushNodeOutbox
  split_ifs with hdisabled hpaused
  · exact .inl ⟨hdisabled, rfl⟩
  · exact .inr (.inl ⟨.inl hpaused, rfl⟩)
  · split
    · next hnone => exact .inr (.inl ⟨.inr hnone, rfl⟩)
    · next n hn => exact .inr (.inr ⟨n, hn, hdisabled, hpaused, Sends.all _ (fun _ he => he) _⟩)

/-- A node that is not there is not called; else the node and the draws change, and nothing else unless a sum
overflows. -/
theorem callNode_cases [Platform] {call : RaftNode D → Instant → Option (RaftNode D)}
    (h : s.callNode id call = some s') :
    (s.nodes.lookup id = none ∧ s' = s) ∨ ∃ n n', s.nodes.lookup id = some n ∧ call n s.now = some n' ∧
      s' = ({ s with nodes := s.nodes.insert id n', draws := fun k => s.draws (k + 1) } : Simulation D).checkInstant
        (max n'.electionDeadline n'.heartbeatDeadline) := by
  unfold callNode at h
  split at h
  · next hnone => exact .inl ⟨hnone, (Option.some.inj h).symm⟩
  · next n hn =>
    obtain ⟨n', hcall, rfl⟩ := Option.map_eq_some_iff.mp h
    exact .inr ⟨n, n', hn, hcall, rfl⟩

end Simulation

/-! Where the events are. -/

section InFlight
variable {s : Simulation D} {hand : Option Event} {event : Event} {rest : List Event}

theorem inFlight_take (h : popFirst Event.before s.events = some (event, rest)) (clock : Nat) :
    (Moment.mk { s with events := rest, clock := clock } (some event)).inFlight.Perm
      (Moment.mk s none).inFlight := by
  have hpop := (popFirst_perm h).append_right s.deferred
  simp only [Moment.inFlight, Option.toList_none, Option.toList_some, List.append_nil]
  exact (List.perm_append_singleton event _).trans hpop.symm

theorem inFlight_lose (s : Simulation D) (event : Event) :
    (Moment.mk s none).inFlight.Sublist (Moment.mk s (some event)).inFlight := by
  simp [Moment.inFlight]

theorem inFlight_defer (s : Simulation D) (event : Event) :
    (Moment.mk (s.deferEvent event) none).inFlight.Perm (Moment.mk s (some event)).inFlight := by
  have hdefer := (insert_deferred_perm s.pausedEvents event).append_left s.events
  simp only [Moment.inFlight, Option.toList_none, Option.toList_some, List.append_nil]
  exact (hdefer.trans List.perm_middle).trans (List.perm_append_singleton event _).symm

theorem inFlight_forget (s : Simulation D) (hand : Option Event) (id : NodeId) (paused : Finset NodeId) :
    (Moment.mk { s with pausedNodes := paused, pausedEvents := s.pausedEvents.erase id } hand).inFlight.Sublist
      (Moment.mk s hand).inFlight := by
  have hdeferred : ((s.pausedEvents.erase id).entries.flatMap fun p => p.2).Sublist s.deferred :=
    (List.kerase_sublist id _).flatMap _
  exact (hdeferred.append_left s.events).append_right hand.toList

def Simulation.requeue (s : Simulation D) (id : NodeId) : Simulation D :=
  { s with
    pausedNodes := s.pausedNodes.erase id
    events := ((s.pausedEvents.lookup id).getD []).map (fun e => { e with deliverAt := s.clock }) ++ s.events
    pausedEvents := s.pausedEvents.erase id }

theorem Simulation.resumeNode_eq [Platform] (s : Simulation D) (id : NodeId) :
    s.resumeNode id = (s.requeue id).flushNodeOutbox id := rfl

theorem inFlight_requeue (s : Simulation D) (hand : Option Event) (id : NodeId) :
    ((Moment.mk (s.requeue id) hand).inFlight.map Event.parcel).Perm
      ((Moment.mk s hand).inFlight.map Event.parcel) := by
  have hsplit := (flatMap_erase_perm s.pausedEvents id).map Event.parcel
  have hparcels : (((s.pausedEvents.lookup id).getD []).map fun e => { e with deliverAt := s.clock }).map
      Event.parcel = ((s.pausedEvents.lookup id).getD []).map Event.parcel := by
    rw [List.map_map]
    rfl
  simp only [Moment.inFlight, Simulation.requeue, Simulation.deferred, List.map_append, hparcels] at hsplit ⊢
  refine List.Perm.append_right _ ?_
  rw [List.append_assoc]
  exact (List.perm_append_comm_assoc ..).trans (hsplit.symm.append_left _)

theorem envelope_of_parcel {e e' : Event} (h : e.parcel = e'.parcel) : e.envelope = e'.envelope := by
  simp only [Event.parcel, Prod.mk.injEq] at h
  rw [Event.envelope, Event.envelope, h.2.2.1, h.2.2.2]

end InFlight
end KvRaft.Simulator
