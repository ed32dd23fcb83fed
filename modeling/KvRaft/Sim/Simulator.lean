import KvRaft.Raft.Handle
import KvRaft.Sim.Fault
import Mathlib.Data.Multiset.Filter
import Mathlib.Data.List.Sort

/-! The deterministic simulator of a cluster (`runtime/simulator.rs`). A function in which a node can panic
returns an `Option`. Where the source panics because a sum does not fit, the simulation is marked as overflowed. -/

namespace KvRaft.Simulator

/-- The largest `Instant` and `usize`, and whether the build checks sums of integers. -/
class Platform where
  lastInstant : Nat
  maxCount : Nat
  overflowChecks : Bool

/-- Linux on a 64-bit machine, which counts seconds in an `i64`, and a test build. -/
@[reducible] def Platform.linuxTest : Platform := ⟨2 ^ 63 * 10 ^ 9 - 1, 2 ^ 64 - 1, true⟩

structure Event where
  deliverAt : Nat
  sequence : Nat
  sender : NodeId
  dest : NodeId
  message : Message
  deriving DecidableEq, Repr

def Event.before (a b : Event) : Bool :=
  a.deliverAt < b.deliverAt || (a.deliverAt = b.deliverAt && a.sequence < b.sequence)

def popFirst {α : Type} (before : α → α → Bool) : List α → Option (α × List α)
  | [] => none
  | a :: heap => match popFirst before heap with
    | none => some (a, [])
    | some (b, rest) => if before b a then some (b, a :: rest) else some (a, b :: rest)

theorem popFirst_perm {α : Type} {before : α → α → Bool} {heap rest : List α} {a : α}
    (h : popFirst before heap = some (a, rest)) : heap.Perm (a :: rest) := by
  induction heap generalizing a rest with
  | nil => cases h
  | cons b heap ih =>
    unfold popFirst at h
    split at h
    · next hnone =>
      have hnil : heap = [] := by
        cases heap with
        | nil => rfl
        | cons c heap =>
          unfold popFirst at hnone
          split at hnone
          · cases hnone
          · split_ifs at hnone
      cases h
      rw [hnil]
    · next c rest' hrest =>
      have hperm := ih hrest
      split_ifs at h
      · cases h
        exact (hperm.cons b).trans (.swap ..)
      · cases h
        exact hperm.cons b

/-- What an event is apart from the time of its delivery, which a pause can put off. -/
def Event.parcel (e : Event) : NodeId × Nat × NodeId × Message := (e.sender, e.sequence, e.dest, e.message)

/-- The part of a node that a crash is to freeze. -/
structure Vitals (D : Type) where
  role : Role
  currentTerm : Nat
  votedFor : Option NodeId
  log : List LogEntry
  commitIndex : Nat
  lastApplied : Nat
  db : D

structure Snapshot (D : Type) where
  vitals : Option (Vitals D)
  sent : Multiset (NodeId × Nat × NodeId × Message)

/-- What is kept on record of a run: when a node was crashed and how it stood then, when it was enabled or
restarted, and what a node was like when a command was submitted to it. -/
inductive Mark (D : Type) where
  | crashed (id : NodeId) (was : Snapshot D)
  | revived (id : NodeId)
  | submitted (id : NodeId) (disabled : Bool) (role : Option Role)

structure Simulation (D : Type) [Storage D] where
  clock : Nat
  events : List Event
  sequenceCounter : Nat
  nodes : AList (fun _ : NodeId => RaftNode D)
  disabledNodes : Finset NodeId
  pausedNodes : Finset NodeId
  pausedEvents : AList (fun _ : NodeId => List Event)
  blockedLinks : Finset (NodeId × NodeId)
  linkPolicies : AList (fun _ : NodeId × NodeId => LinkFaultPolicy)
  scheduledFaults : List ScheduledFault
  faultSequenceCounter : Nat
  /-- The draws of `random_range` that the nodes will make, one for each call of a node. -/
  draws : Nat → Nat
  /-- Whether a sum did not fit. The source has panicked then, and what comes after does not happen. -/
  overflowed : Bool
  /-- The record of the run, which no operation reads. -/
  marks : List (Mark D)

namespace Simulation
variable {D : Type} [Storage D]

def nodeIds (s : Simulation D) : List NodeId := s.nodes.keys.insertionSort (· ≤ ·)

def now (s : Simulation D) : Instant := ⟨s.clock, s.draws 0⟩

/-- The events that wait for a paused node. -/
def deferred (s : Simulation D) : List Event := s.pausedEvents.entries.flatMap fun p => p.2

def sentBy (s : Simulation D) (id : NodeId) : Multiset (NodeId × Nat × NodeId × Message) :=
  (((s.events ++ s.deferred).map Event.parcel : List _) : Multiset _).filter (·.1 = id)

def vitals (s : Simulation D) (id : NodeId) : Option (Vitals D) :=
  (s.nodes.lookup id).map fun n =>
    ⟨n.role, n.currentTerm, n.votedFor, n.log, n.commitIndex, n.lastApplied, n.db⟩

def snapshot (s : Simulation D) (id : NodeId) : Snapshot D := ⟨s.vitals id, s.sentBy id⟩

def mark (s : Simulation D) (m : Mark D) : Simulation D := { s with marks := s.marks ++ [m] }

section Overflow
variable [Platform]

/-- An `Instant` is the sum of another one and a duration. -/
def checkInstant (s : Simulation D) (instant : Nat) : Simulation D :=
  { s with overflowed := s.overflowed || Platform.lastInstant < instant }

/-- A `usize` is the sum of two others. -/
def checkCount (s : Simulation D) (count : Nat) : Simulation D :=
  { s with overflowed := s.overflowed || (Platform.overflowChecks && Platform.maxCount < count) }

end Overflow

variable [Platform]

/-- A call of a node, if there is one with this id. Each deadline it sets is the sum of the clock and a timeout. -/
def callNode (s : Simulation D) (id : NodeId) (call : RaftNode D → Instant → Option (RaftNode D)) :
    Option (Simulation D) :=
  match s.nodes.lookup id with
  | none => some s
  | some node => (call node s.now).map fun node =>
      { s with nodes := s.nodes.insert id node, draws := fun k => s.draws (k + 1) }.checkInstant
        (max node.electionDeadline node.heartbeatDeadline)

def clearOutbox (s : Simulation D) (id : NodeId) : Simulation D :=
  match s.nodes.lookup id with
  | none => s
  | some node => { s with nodes := s.nodes.insert id { node with outbox := [] } }

/-! Sending. -/

def pushEvent (s : Simulation D) (deliverAt : Nat) (sender : NodeId) (e : Envelope) : Simulation D :=
  { s with
    events := ⟨deliverAt, s.sequenceCounter, sender, e.1, e.2⟩ :: s.events
    sequenceCounter := s.sequenceCounter + 1 }

def setPolicy (s : Simulation D) (link : NodeId × NodeId) (policy : LinkFaultPolicy) : Simulation D :=
  { s with linkPolicies := s.linkPolicies.insert link policy }

/-- One round of the loop over the messages of an outbox. -/
def routeMessage (sender : NodeId) (s : Simulation D) (e : Envelope) : Simulation D :=
  if e.2 = .timeout then s
  else if (sender, e.1) ∈ s.blockedLinks ∨ e.1 ∈ s.disabledNodes then s
  else match s.linkPolicies.lookup (sender, e.1) with
    | none => s.pushEvent s.clock sender e
    | some policy =>
      if 0 < policy.dropRemaining then
        s.setPolicy (sender, e.1) { policy with dropRemaining := policy.dropRemaining - 1 }
      else
        let deliverAt := s.clock + policy.delay.getD 0
        let s := s.checkInstant deliverAt
        if 0 < policy.duplicateRemaining then
          let duplicateAt := deliverAt + policy.duplicateDelay
          let s := s.setPolicy (sender, e.1) { policy with duplicateRemaining := policy.duplicateRemaining - 1 }
          ((s.checkInstant duplicateAt).pushEvent deliverAt sender e).pushEvent duplicateAt sender e
        else s.pushEvent deliverAt sender e

def flushNodeOutbox (s : Simulation D) (id : NodeId) : Simulation D :=
  if id ∈ s.disabledNodes then s.clearOutbox id
  else if id ∈ s.pausedNodes then s
  else match s.nodes.lookup id with
    | none => s
    | some node => node.outbox.foldl (routeMessage id) (s.clearOutbox id)

def flushAllOutboxes (s : Simulation D) : Simulation D := s.nodeIds.foldl flushNodeOutbox s

/-! Nodes. -/

def disableNode (s : Simulation D) (id : NodeId) : Simulation D :=
  let s := { s with disabledNodes := insert id s.disabledNodes }.clearOutbox id
  s.mark (.crashed id (s.snapshot id))

def enableNode (s : Simulation D) (id : NodeId) : Simulation D :=
  { s with disabledNodes := s.disabledNodes.erase id }.mark (.revived id)

def crashNode (s : Simulation D) (id : NodeId) : Simulation D := s.disableNode id

def restartNode (s : Simulation D) (id : NodeId) : Option (Simulation D) :=
  let s := { s with
    disabledNodes := s.disabledNodes.erase id
    pausedNodes := s.pausedNodes.erase id
    pausedEvents := s.pausedEvents.erase id }.mark (.revived id)
  s.callNode id fun node now => some (node.restart now)

def pauseNode (s : Simulation D) (id : NodeId) : Simulation D :=
  { s with pausedNodes := insert id s.pausedNodes }

/-- The deferred events go back to the network, all to be delivered now. -/
def resumeNode (s : Simulation D) (id : NodeId) : Simulation D :=
  let deferred := ((s.pausedEvents.lookup id).getD []).map fun e => { e with deliverAt := s.clock }
  { s with
    pausedNodes := s.pausedNodes.erase id
    events := deferred ++ s.events
    pausedEvents := s.pausedEvents.erase id }.flushNodeOutbox id

/-! Links. -/

def blockLink (s : Simulation D) (sender dest : NodeId) : Simulation D :=
  { s with blockedLinks := insert (sender, dest) s.blockedLinks }

def unblockLink (s : Simulation D) (sender dest : NodeId) : Simulation D :=
  { s with blockedLinks := s.blockedLinks.erase (sender, dest) }

def partition (s : Simulation D) (groupA groupB : List NodeId) : Simulation D :=
  groupA.foldl (fun s a => groupB.foldl (fun s b => (s.blockLink a b).blockLink b a) s) s

def healAllPartitions (s : Simulation D) : Simulation D := { s with blockedLinks := ∅ }

def isolateNode (s : Simulation D) (id : NodeId) : Simulation D :=
  (s.nodeIds.filter (· ≠ id)).foldl (fun s peer => (s.blockLink id peer).blockLink peer id) s

def reconnectNode (s : Simulation D) (id : NodeId) : Simulation D :=
  (s.nodeIds.filter (· ≠ id)).foldl (fun s peer => (s.unblockLink id peer).unblockLink peer id) s

/-- `link_policies.entry(key).or_default()`. -/
def policyOf (s : Simulation D) (link : NodeId × NodeId) : LinkFaultPolicy :=
  (s.linkPolicies.lookup link).getD .default

def updatePolicy (s : Simulation D) (link : NodeId × NodeId) (f : LinkFaultPolicy → LinkFaultPolicy) :
    Simulation D :=
  s.setPolicy link (f (s.policyOf link))

def dropPackets (s : Simulation D) (sender dest : NodeId) (count : Nat) : Simulation D :=
  let sum := (s.policyOf (sender, dest)).dropRemaining + count
  (s.updatePolicy (sender, dest) fun policy =>
    { policy with dropRemaining := sum % (Platform.maxCount + 1) }).checkCount sum

def delayLink (s : Simulation D) (sender dest : NodeId) (delay : Nat) : Simulation D :=
  s.updatePolicy (sender, dest) fun policy => { policy with delay := some delay }

/-- Unlike the others this makes no policy where there is none. -/
def clearLinkDelay (s : Simulation D) (sender dest : NodeId) : Simulation D :=
  match s.linkPolicies.lookup (sender, dest) with
  | none => s
  | some policy => s.setPolicy (sender, dest) { policy with delay := none }

def duplicatePackets (s : Simulation D) (sender dest : NodeId) (count delay : Nat) : Simulation D :=
  let sum := (s.policyOf (sender, dest)).duplicateRemaining + count
  (s.updatePolicy (sender, dest) fun policy =>
    { policy with duplicateRemaining := sum % (Platform.maxCount + 1), duplicateDelay := delay }).checkCount sum

/-! Faults. -/

def scheduleFault (s : Simulation D) (triggerAt : Nat) (fault : Fault) : Simulation D :=
  { s with
    faultSequenceCounter := s.faultSequenceCounter + 1
    scheduledFaults := ⟨triggerAt, fault, s.faultSequenceCounter + 1⟩ :: s.scheduledFaults }

def scheduleFaultAfter (s : Simulation D) (delay : Nat) (fault : Fault) : Simulation D :=
  (s.checkInstant (s.clock + delay)).scheduleFault (s.clock + delay) fault

variable [FloatText] [Bincode]

def startElection (s : Simulation D) (id : NodeId) : Option (Simulation D) :=
  if id ∈ s.disabledNodes ∨ id ∈ s.pausedNodes then some s
  else (s.callNode id RaftNode.startElection).map (·.flushNodeOutbox id)

/-- The arm of `apply_fault` for a client command. It does not look at whether the node is running. -/
def submitCommand (s : Simulation D) (id : NodeId) (command : Command) : Option (Simulation D) :=
  let s := s.mark (.submitted id (id ∈ s.disabledNodes) ((s.nodes.lookup id).map RaftNode.role))
  (s.callNode id (RaftNode.process · (.message (.clientCommand command)))).map (·.flushNodeOutbox id)

def applyFault (s : Simulation D) : Fault → Option (Simulation D)
  | .crashNode id => some (s.disableNode id)
  | .restartNode id => s.restartNode id
  | .pauseNode id => some (s.pauseNode id)
  | .resumeNode id => some (s.resumeNode id)
  | .blockLink sender dest => some (s.blockLink sender dest)
  | .unblockLink sender dest => some (s.unblockLink sender dest)
  | .partition groupA groupB => some (s.partition groupA groupB)
  | .healAllPartitions => some s.healAllPartitions
  | .isolateNode id => some (s.isolateNode id)
  | .reconnectNode id => some (s.reconnectNode id)
  | .dropPackets sender dest count => some (s.dropPackets sender dest count)
  | .delayLink sender dest delay => some (s.delayLink sender dest delay)
  | .clearLinkDelay sender dest => some (s.clearLinkDelay sender dest)
  | .duplicatePackets sender dest count delay => some (s.duplicatePackets sender dest count delay)
  | .triggerElection id => s.startElection id
  | .submitCommand id command => s.submitCommand id command

/-- The loop of `trigger_due_faults`. No fault schedules another, so it has at most as many rounds as there
are faults. -/
def triggerLoop (now : Nat) : Nat → Simulation D → Option (Simulation D)
  | 0, s => some s
  | rounds + 1, s => match popFirst ScheduledFault.before s.scheduledFaults with
    | none => some s
    | some (scheduled, rest) =>
      if scheduled.triggerAt ≤ now then
        ({ s with scheduledFaults := rest }.applyFault scheduled.fault).bind (triggerLoop now rounds)
      else some s

def triggerDueFaults (s : Simulation D) : Option (Simulation D) :=
  s.triggerLoop s.clock s.scheduledFaults.length

/-! Running. -/

/-- One round of the loop over the nodes in `advance_time`. -/
def tickNode (s : Simulation D) (id : NodeId) : Option (Simulation D) :=
  if id ∈ s.disabledNodes ∨ id ∈ s.pausedNodes then some s
  else (s.callNode id (RaftNode.process · .tick)).map (·.flushNodeOutbox id)

def advanceTime (s : Simulation D) (millis : Nat) : Option (Simulation D) := do
  let clock := s.clock + millis * 1000000
  let s ← ({ s with clock := clock }.checkInstant clock).triggerDueFaults
  s.nodeIds.foldlM tickNode s

/-- What becomes of an event that is taken off the heap. -/
def deliver (s : Simulation D) (event : Event) : Option (Simulation D) :=
  if event.sender ∈ s.disabledNodes ∨ event.dest ∈ s.disabledNodes ∨
      (event.sender, event.dest) ∈ s.blockedLinks then some s
  else if event.dest ∈ s.pausedNodes then
    let deferred := (s.pausedEvents.lookup event.dest).getD [] ++ [event]
    some { s with pausedEvents := s.pausedEvents.insert event.dest deferred }
  else (s.callNode event.dest (RaftNode.process · (.message event.message))).map (·.flushNodeOutbox event.dest)

/-- `deliver_next`, which says whether it did anything. -/
def deliverNext (s : Simulation D) : Option (Bool × Simulation D) := do
  let s ← s.triggerDueFaults
  match popFirst Event.before s.events with
  | some (event, rest) =>
    let s ← { s with events := rest, clock := max event.deliverAt s.clock }.triggerDueFaults
    let s ← s.deliver event
    return (true, s)
  | none => match popFirst ScheduledFault.before s.scheduledFaults with
    -- nothing is in flight, so time goes on to the next fault
    | some (next, _) =>
      if s.clock < next.triggerAt then
        let s ← s.advanceTime (max ((next.triggerAt - s.clock) / 1000000) 1 % 2 ^ 64)
        return (true, s)
      else return (false, s)
    | none => return (false, s)

/-- `while self.deliver_next()`, with the panic after so many rounds. -/
def idleLoop : Nat → Simulation D → Option (Simulation D)
  | 0, _ => none
  | rounds + 1, s => do
    let (more, s) ← s.deliverNext
    if more then idleLoop rounds s else some s

def runUntilIdle (s : Simulation D) : Option (Simulation D) := idleLoop 10001 s.flushAllOutboxes

def routeMessages (s : Simulation D) : Option (Simulation D) := s.runUntilIdle

/-- The loop of `run_steps`, with how many rounds it has made. -/
def stepsLoop : Nat → Simulation D → Option (Nat × Simulation D)
  | 0, s => some (0, s)
  | rounds + 1, s => do
    let (more, s) ← s.deliverNext
    if more then
      let (executed, s) ← stepsLoop rounds s
      return (executed + 1, s)
    else some (0, s)

def runSteps (s : Simulation D) (maxSteps : Nat) : Option (Nat × Simulation D) :=
  stepsLoop maxSteps s.flushAllOutboxes

end Simulation
end KvRaft.Simulator

namespace KvRaft.Concrete

scoped instance platform : Simulator.Platform := .linuxTest

end KvRaft.Concrete
