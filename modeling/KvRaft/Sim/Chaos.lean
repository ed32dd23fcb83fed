import KvRaft.Sim.Simulator

/-! The invariants that the simulator checks, its random faults and the chaos test
(`runtime/simulator.rs`), and all of its operations together. -/

namespace KvRaft

/-! `PartialEq` as it is derived, on top of that of `f64`: a NaN is not equal to itself, and there are two zeros
that are equal. -/

def F64.isNan (x : F64) : Bool := isNanBits x.bits

def F64.isZero (x : F64) : Bool := x.bits &&& 0x7FFFFFFFFFFFFFFF == 0

def F64.partialEq (x y : F64) : Bool := !x.isNan && !y.isNan && (x.bits == y.bits || (x.isZero && y.isZero))

def Value.partialEq : Value → Value → Bool
  | .float x, .float y => x.partialEq y
  | v, w => v == w

def Command.partialEq : Command → Command → Bool
  | .set k v, .set l w => k == l && v.partialEq w
  | c, d => c == d

def LogRecord.partialEq (r t : LogRecord) : Bool :=
  r.id == t.id && r.command.partialEq t.command && r.checksum == t.checksum

def EntryPayload.partialEq : EntryPayload → EntryPayload → Bool
  | .command r, .command t => r.partialEq t
  | p, q => p == q

def EntryPayload.setsNan : EntryPayload → Bool
  | .command ⟨_, .set _ (.float x), _⟩ => x.isNan
  | _ => false

theorem EntryPayload.partialEq_self (p : EntryPayload) : p.partialEq p = !p.setsNan := by
  unfold EntryPayload.setsNan
  split
  · simp [EntryPayload.partialEq, LogRecord.partialEq, Command.partialEq, Value.partialEq, F64.partialEq]
  · next hno =>
    cases p with
    | addNode | removeNode => simp [EntryPayload.partialEq]
    | command r =>
      obtain ⟨id, command, checksum⟩ := r
      cases command with
      | delete => simp [EntryPayload.partialEq, LogRecord.partialEq, Command.partialEq]
      | set k v =>
        cases v with
        | float x => exact absurd rfl (hno id k x checksum)
        | int | string => simp [EntryPayload.partialEq, LogRecord.partialEq, Command.partialEq, Value.partialEq]

end KvRaft

namespace KvRaft.Simulator

def pairs {α : Type} : List α → List (α × α)
  | [] => []
  | a :: l => l.map (a, ·) ++ pairs l

namespace Simulation
variable {D : Type} [Storage D]

def nodeList (s : Simulation D) : List (NodeId × RaftNode D) :=
  s.nodeIds.filterMap fun id => (s.nodes.lookup id).map (id, ·)

/-- Of the running leaders the first of the highest term. -/
def getLeader (s : Simulation D) : Option NodeId :=
  (s.nodeList.foldl (fun best (id, node) =>
      if id ∈ s.disabledNodes ∨ id ∈ s.pausedNodes ∨ node.role ≠ .leader then best
      else match best with
        | some (bestTerm, _) => if bestTerm < node.currentTerm then some (node.currentTerm, id) else best
        | none => some (node.currentTerm, id))
    (none : Option (Nat × NodeId))).map Prod.snd

/-- Two leaders of one term; the terms are gone through in ascending order. -/
def electionViolation (s : Simulation D) : Option InvariantViolation :=
  let leaders := s.nodeList.filter fun p => p.2.role = .leader
  let terms := (leaders.map fun p => p.2.currentTerm).dedup.insertionSort (· ≤ ·)
  terms.findSome? fun term =>
    let ids := (leaders.filter fun p => p.2.currentTerm = term).map Prod.fst
    if 1 < ids.length then some (.electionSafety term ids) else none

/-- Two logs that have the same term at an index and differ before it. -/
def logViolation (a b : NodeId × RaftNode D) : Option InvariantViolation :=
  let termAt (log : List LogEntry) (i : Nat) : Nat := ((log[i]?).map LogEntry.term).getD 0
  let minLen := min a.2.log.length b.2.log.length
  (List.range' 1 (minLen - 1)).findSome? fun idx =>
    if termAt a.2.log idx = termAt b.2.log idx then
      (List.range' 1 idx).findSome? fun k =>
        if termAt a.2.log k ≠ termAt b.2.log k then
          some (.logMatching a.1 b.1 k (termAt a.2.log k) (termAt b.2.log k))
        else none
    else none

/-- Two nodes with different payloads at an index that both have committed. -/
def stateViolation (a b : NodeId × RaftNode D) : Option InvariantViolation :=
  let commonCommit := min a.2.commitIndex b.2.commitIndex
  (List.range' 1 commonCommit).findSome? fun idx =>
    match a.2.log[idx]?, b.2.log[idx]? with
    | some entryA, some entryB =>
      if !entryA.payload.partialEq entryB.payload then
        some (.stateSafety idx a.1 b.1 entryA.payload entryB.payload)
      else none
    | _, _ => none

def checkInvariants (s : Simulation D) : Except InvariantViolation Unit :=
  let violation := s.electionViolation
    |>.or ((pairs s.nodeList).findSome? fun p => logViolation p.1 p.2)
    |>.or ((pairs s.nodeList).findSome? fun p => stateViolation p.1 p.2)
  match violation with
  | some v => .error v
  | none => .ok ()

variable [FloatText] [Bincode] [Platform]

/-- A random fault is drawn: what it is, if any. Nothing is changed yet. -/
def drawFault (s : Simulation D) (rng : DeterministicRng) (config : ChaosConfig) :
    Option Fault × DeterministicRng :=
  let nodeIds := s.nodeIds
  if nodeIds.length < 2 then (none, rng)
  else
    let (roll, rng) := rng.nextF64
    let crash := 0.0 + config.crashProb
    let restart := crash + config.restartProb
    let partition := restart + config.partitionProb
    let heal := partition + config.healProb
    let drop := heal + config.packetDropProb
    let delay := drop + config.packetDelayProb
    let active := nodeIds.filter (· ∉ s.disabledNodes)
    let crashed := s.disabledNodes.sort (· ≤ ·)
    -- each kind is passed over when it does not apply, and the roll then falls to the next one
    if roll < crash ∧ 1 < active.length then
      let (target, rng) := rng.choose active
      (target.map .crashNode, rng)
    else if roll < restart ∧ crashed ≠ [] then
      let (target, rng) := rng.choose crashed
      (target.map .restartNode, rng)
    else if roll < partition then
      let (shuffled, rng) := rng.shuffle nodeIds
      let splitIdx := max 1 (shuffled.length / 2)
      (some (.partition (shuffled.take splitIdx) (shuffled.drop splitIdx)), rng)
    else if roll < heal ∧ s.blockedLinks ≠ ∅ then (some .healAllPartitions, rng)
    else
      let (dropped, rng) := if roll < drop then
          let (sender, rng) := rng.choose nodeIds
          let (dest, rng) := rng.choose nodeIds
          if sender ≠ dest then
            let (count, rng) := rng.genRange 1 3
            (sender.bind fun sender => dest.map fun dest => Fault.dropPackets sender dest count.toNat, rng)
          else (none, rng)
        else (none, rng)
      match dropped with
      | some fault => (some fault, rng)
      | none =>
        if roll < delay then
          let (sender, rng) := rng.choose nodeIds
          let (dest, rng) := rng.choose nodeIds
          if sender ≠ dest then
            let (millis, rng) := rng.genRange 5 (UInt64.ofNat (max (config.maxPacketDelay / 1000000) 6))
            (sender.bind fun sender => dest.map fun dest =>
              Fault.delayLink sender dest (millis.toNat * 1000000), rng)
          else (none, rng)
        else (none, rng)

def injectRandomFault (s : Simulation D) (rng : DeterministicRng) (config : ChaosConfig) :
    Option (Option Fault × DeterministicRng × Simulation D) :=
  match s.drawFault rng config with
  | (some fault, rng) => (s.applyFault fault).map fun s => (some fault, rng, s)
  | (none, rng) => some (none, rng, s)

/-- The leader, or a random node if there is none. The panic is the `unwrap` of a choice from no nodes. -/
def chaosTarget (s : Simulation D) (rng : DeterministicRng) (nodeIds : List NodeId) :
    Option (NodeId × DeterministicRng) :=
  match s.getLeader with
  | some leader => some (leader, rng)
  | none => match rng.choose nodeIds with
    | (some target, rng) => some (target, rng)
    | (none, _) => none

/-- Every eighth step of the chaos test submits a command, if the node it is for is running. -/
def chaosCommand (s : Simulation D) (rng : DeterministicRng) (nodeIds : List NodeId) (step opsApplied : Nat) :
    Option (Nat × DeterministicRng × Simulation D) :=
  if step % 8 = 0 then (s.chaosTarget rng nodeIds).bind fun (target, rng) =>
    if target ∉ s.disabledNodes ∧ target ∉ s.pausedNodes then
      let command := .set s!"chaos_key_{opsApplied}" (.int (Int64.ofNat opsApplied))
      (s.applyFault (.submitCommand target command)).map fun s => (opsApplied + 1, rng, s)
    else some (opsApplied, rng, s)
  else some (opsApplied, rng, s)

def chaosMove (s : Simulation D) (rng : DeterministicRng) : Option (DeterministicRng × Simulation D) :=
  let roll := rng.nextF64
  if roll.1 < 0.35 then
    let advanceMs := roll.2.genRange 10 50
    (s.advanceTime advanceMs.1.toNat).map fun s => (advanceMs.2, s)
  else s.deliverNext.map fun r => (roll.2, r.2)

/-- One step of the chaos test up to its check. -/
def chaosStep (s : Simulation D) (rng : DeterministicRng) (nodeIds : List NodeId) (config : ChaosConfig)
    (step opsApplied : Nat) : Option (Nat × DeterministicRng × Simulation D) := do
  let (opsApplied, rng, s) ← s.chaosCommand rng nodeIds step opsApplied
  let (_, rng, s) ← s.injectRandomFault rng config
  let (rng, s) ← s.chaosMove rng
  return (opsApplied, rng, s)

def chaosLoop (nodeIds : List NodeId) (config : ChaosConfig) :
    Nat → Nat → Nat → DeterministicRng → Simulation D → Option (Except InvariantViolation Nat × Simulation D)
  | 0, _, opsApplied, _, s => some (.ok opsApplied, s)
  | remaining + 1, step, opsApplied, rng, s => do
    let (opsApplied, rng, s) ← s.chaosStep rng nodeIds config step opsApplied
    match s.checkInvariants with
    | .error v => some (.error v, s)
    | .ok () => chaosLoop nodeIds config remaining (step + 1) opsApplied rng s

def convergeNode (s : Simulation D) (id : NodeId) : Option (Simulation D) :=
  (if id ∈ s.disabledNodes then s.restartNode id else some s).map fun s =>
    if id ∈ s.pausedNodes then s.resumeNode id else s

def runChaosTest (s : Simulation D) (seed : UInt64) (steps : Nat) (config : ChaosConfig) :
    Option (Except InvariantViolation Nat × Simulation D) := do
  let nodeIds := s.nodeIds
  let (result, s) ← chaosLoop nodeIds config steps 0 0 ⟨seed⟩ s
  match result with
  | .error v => return (.error v, s)
  | .ok opsApplied =>
    let s ← nodeIds.foldlM convergeNode s.healAllPartitions
    let s ← s.runUntilIdle
    match s.checkInvariants with
    | .error v => return (.error v, s)
    | .ok () => return (.ok opsApplied, s)

end Simulation

inductive Operation where
  | disableNode (id : NodeId)
  | enableNode (id : NodeId)
  | crashNode (id : NodeId)
  | restartNode (id : NodeId)
  | pauseNode (id : NodeId)
  | resumeNode (id : NodeId)
  | blockLink (sender dest : NodeId)
  | unblockLink (sender dest : NodeId)
  | partition (groupA groupB : List NodeId)
  | healAllPartitions
  | isolateNode (id : NodeId)
  | reconnectNode (id : NodeId)
  | dropPackets (sender dest : NodeId) (count : Nat)
  | delayLink (sender dest : NodeId) (delay : Nat)
  | clearLinkDelay (sender dest : NodeId)
  | duplicatePackets (sender dest : NodeId) (count delay : Nat)
  | scheduleFault (triggerAt : Nat) (fault : Fault)
  | scheduleFaultAfter (delay : Nat) (fault : Fault)
  | applyFault (fault : Fault)
  | startElection (id : NodeId)
  | deliverNext
  | flushNodeOutbox (id : NodeId)
  | flushAllOutboxes
  | runUntilIdle
  | routeMessages
  | step
  | runSteps (maxSteps : Nat)
  | advanceTime (millis : Nat)
  | injectRandomFault (rng : DeterministicRng) (config : ChaosConfig)
  | runChaosTest (seed : UInt64) (steps : Nat) (config : ChaosConfig)

namespace Simulation
variable {D : Type} [Storage D]

/-- What an operation does as long as all sums fit. -/
def perform [FloatText] [Bincode] [Platform] (s : Simulation D) : Operation → Option (Simulation D)
  | .disableNode id => some (s.disableNode id)
  | .enableNode id => some (s.enableNode id)
  | .crashNode id => some (s.crashNode id)
  | .restartNode id => s.restartNode id
  | .pauseNode id => some (s.pauseNode id)
  | .resumeNode id => some (s.resumeNode id)
  | .blockLink sender dest => some (s.blockLink sender dest)
  | .unblockLink sender dest => some (s.unblockLink sender dest)
  | .partition groupA groupB => some (s.partition groupA groupB)
  | .healAllPartitions => some s.healAllPartitions
  | .isolateNode id => some (s.isolateNode id)
  | .reconnectNode id => some (s.reconnectNode id)
  | .dropPackets sender dest count => some (s.dropPackets sender dest count)
  | .delayLink sender dest delay => some (s.delayLink sender dest delay)
  | .clearLinkDelay sender dest => some (s.clearLinkDelay sender dest)
  | .duplicatePackets sender dest count delay => some (s.duplicatePackets sender dest count delay)
  | .scheduleFault triggerAt fault => some (s.scheduleFault triggerAt fault)
  | .scheduleFaultAfter delay fault => some (s.scheduleFaultAfter delay fault)
  | .applyFault fault => s.applyFault fault
  | .startElection id => s.startElection id
  | .deliverNext => s.deliverNext.map Prod.snd
  | .flushNodeOutbox id => some (s.flushNodeOutbox id)
  | .flushAllOutboxes => some s.flushAllOutboxes
  | .runUntilIdle => s.runUntilIdle
  | .routeMessages => s.routeMessages
  | .step => s.deliverNext.map Prod.snd
  | .runSteps maxSteps => (s.runSteps maxSteps).map Prod.snd
  | .advanceTime millis => s.advanceTime millis
  | .injectRandomFault rng config => (s.injectRandomFault rng config).map fun r => r.2.2
  | .runChaosTest seed steps config => (s.runChaosTest seed steps config).map Prod.snd

def operate [FloatText] [Bincode] [Platform] (s : Simulation D) (op : Operation) : Option (Simulation D) :=
  (s.perform op).filter fun s => !s.overflowed

def exec [FloatText] [Bincode] [Platform] (s : Simulation D) (ops : List Operation) :
    Option (Simulation D) := ops.foldlM operate s

/-- `Simulation::new`. -/
def new (nodes : AList fun _ : NodeId => RaftNode D) (draws : Nat → Nat) : Simulation D :=
  ⟨0, [], 0, nodes, ∅, ∅, ∅, ∅, ∅, [], 0, draws, false, []⟩

/-- `RaftNode::set_election_timeout`. -/
def setElectionTimeout (n : RaftNode D) (timeout : Nat) (now : Instant) : RaftNode D :=
  { n with electionTimeout := some timeout }.resetElectionTimeout now

@[simp] theorem setElectionTimeout_id (n : RaftNode D) (timeout : Nat) (now : Instant) :
    (setElectionTimeout n timeout now).id = n.id := rfl

@[simp] theorem setElectionTimeout_currentTerm (n : RaftNode D) (timeout : Nat) (now : Instant) :
    (setElectionTimeout n timeout now).currentTerm = n.currentTerm := rfl

@[simp] theorem setElectionTimeout_log (n : RaftNode D) (timeout : Nat) (now : Instant) :
    (setElectionTimeout n timeout now).log = n.log := rfl

@[simp] theorem setElectionTimeout_outbox (n : RaftNode D) (timeout : Nat) (now : Instant) :
    (setElectionTimeout n timeout now).outbox = n.outbox := rfl

@[simp] theorem setElectionTimeout_pendingRequests (n : RaftNode D) (timeout : Nat) (now : Instant) :
    (setElectionTimeout n timeout now).pendingRequests = n.pendingRequests := rfl

def electionTimeoutOf (id : NodeId) : Nat := (150 + id * 50) % 2 ^ 64 * 1000000

def TimeoutFits [FloatText] [Bincode] [Platform] (id : NodeId) : Prop :=
  electionTimeoutOf id ≤ Platform.lastInstant ∧ (Platform.overflowChecks = true → 150 + id * 50 < 2 ^ 64)

instance [FloatText] [Bincode] [Platform] : DecidablePred TimeoutFits := fun _ => inferInstanceAs (Decidable (_ ∧ _))

def addFresh [FloatText] [Bincode] [Platform] (ids : List NodeId) (now : Instant)
    (nodes : AList fun _ : NodeId => RaftNode D) (id : NodeId) :
    Option (AList fun _ : NodeId => RaftNode D) := do
  let node ← RaftNode.newInDir Dir.empty id (ids.filter (· ≠ id)) .default now
  return nodes.insert id (setElectionTimeout node (electionTimeoutOf id) now)

/-- `Simulation::new_cluster`. -/
def newCluster [FloatText] [Bincode] [Platform] (ids : List NodeId) (draws : Nat → Nat) : Option (Simulation D) := do
  let nodes ← ids.foldlM (addFresh ids ⟨0, draws 0⟩) ∅
  if ∀ id ∈ ids, TimeoutFits id then return new nodes draws else none

end Simulation
end KvRaft.Simulator
