import KvRaft.Raft.Types

/-! The faults of the simulator, its link policies and its generator of random faults (`runtime/fault.rs`).
Instants and durations are in nanoseconds. -/

namespace KvRaft.Simulator

inductive Fault where
  | crashNode (id : NodeId)
  | restartNode (id : NodeId)
  | pauseNode (id : NodeId)
  | resumeNode (id : NodeId)
  | blockLink (sender dest : NodeId)
  | unblockLink (sender dest : NodeId)
  | partition (groupA groupB : List NodeId)
  | healAllPartitions
  | isolateNode (id : NodeId)
  | reconnectNode (id : NodeId)
  | dropPackets (sender dest : NodeId) (count : Nat)
  | delayLink (sender dest : NodeId) (delay : Nat)
  | clearLinkDelay (sender dest : NodeId)
  | duplicatePackets (sender dest : NodeId) (count delay : Nat)
  | triggerElection (id : NodeId)
  | submitCommand (id : NodeId) (command : Command)
  deriving DecidableEq, Repr

structure ScheduledFault where
  triggerAt : Nat
  fault : Fault
  sequence : Nat
  deriving DecidableEq, Repr

/-- The order of the heap: the earlier one comes first, and of two at the same time the one scheduled
first. -/
def ScheduledFault.before (a b : ScheduledFault) : Bool :=
  a.triggerAt < b.triggerAt || (a.triggerAt = b.triggerAt && a.sequence < b.sequence)

structure LinkFaultPolicy where
  dropRemaining : Nat
  delay : Option Nat
  duplicateRemaining : Nat
  duplicateDelay : Nat
  deriving DecidableEq, Repr

/-- `LinkFaultPolicy::default`. -/
def LinkFaultPolicy.default : LinkFaultPolicy := ⟨0, none, 0, 0⟩

structure ChaosConfig where
  crashProb : Float
  restartProb : Float
  partitionProb : Float
  healProb : Float
  packetDropProb : Float
  packetDelayProb : Float
  maxPacketDelay : Nat

/-- SplitMix64. -/
structure DeterministicRng where
  state : UInt64

namespace DeterministicRng

def nextU64 (rng : DeterministicRng) : UInt64 × DeterministicRng :=
  let state := rng.state + 0x9E3779B97F4A7C15
  let z := (state ^^^ (state >>> 30)) * 0xBF58476D1CE4E5B9
  let z := (z ^^^ (z >>> 27)) * 0x94D049BB133111EB
  (z ^^^ (z >>> 31), ⟨state⟩)

def nextF64 (rng : DeterministicRng) : Float × DeterministicRng :=
  let (z, rng) := rng.nextU64
  ((z >>> 11).toFloat / ((1 : UInt64) <<< 53).toFloat, rng)

def genRange (rng : DeterministicRng) (min max : UInt64) : UInt64 × DeterministicRng :=
  if max ≤ min then (min, rng)
  else
    let (z, rng) := rng.nextU64
    (min + z % (max - min + 1), rng)

/-- `None` of an empty slice, without a draw. -/
def choose {α : Type} (rng : DeterministicRng) (slice : List α) : Option α × DeterministicRng :=
  if slice.isEmpty then (none, rng)
  else
    let (z, rng) := rng.nextU64
    (slice[z.toNat % slice.length]?, rng)

def shuffle {α : Type} (rng : DeterministicRng) (l : List α) : List α × DeterministicRng :=
  (List.range' 1 (l.length - 1)).reverse.foldl (fun (l, rng) i =>
      let (z, rng) := rng.nextU64
      match l[i]?, l[z.toNat % (i + 1)]? with
      | some a, some b => ((l.set i b).set (z.toNat % (i + 1)) a, rng)
      | _, _ => (l, rng))
    (l, rng)

end DeterministicRng

/-- What `check_invariants` can report. Of the payloads the source keeps the `Debug` text. -/
inductive InvariantViolation where
  | electionSafety (term : Nat) (leaders : List NodeId)
  | logMatching (nodeA nodeB : NodeId) (index termA termB : Nat)
  | stateSafety (index : Nat) (nodeA nodeB : NodeId) (entryA entryB : EntryPayload)
  deriving DecidableEq, Repr

end KvRaft.Simulator
