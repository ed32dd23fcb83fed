import KvRaft.Lib.FramedPipe
import KvRaft.Raft.Runtime
import KvRaft.Raft.Wire

/-! The processes of a cluster and the TCP connections between them (`raft/network.rs`, `runtime/runtime.rs`).
A connection has two directions, each with a writer task at one end and a reader task at the other. The
tasks of all processes take their steps in any order, and a connection can break at any moment. -/

namespace KvRaft
open Bytes FramedPipe

section Frames
variable [Bincode] [WireFormat]

/-- A message beyond the limit is not read, and what its length has been cut to is no message either. -/
theorem Wire.readMessage_frame_or (m : Message) (rest : Bytes) :
    Wire.readMessage (Wire.frame m ++ rest) = some (m, rest) ∨ Wire.readMessage (Wire.frame m ++ rest) = none := by
  by_cases hle : (WireFormat.serialize m).length ≤ Wire.maxMessageSize
  · exact .inl ((Wire.accepted_iff m).mpr hle rest)
  · right
    have hmax : Wire.maxMessageSize = 16 * 1024 * 1024 := rfl
    rw [Wire.readMessage_frame]
    split_ifs with hmod
    · have hlt : (WireFormat.serialize m).length % 2 ^ 32 < (WireFormat.serialize m).length := by omega
      have hlen : (WireFormat.serialize m).length % 2 ^ 32 ≤ (WireFormat.serialize m ++ rest).length := by
        rw [List.length_append]
        omega
      rw [readExact, if_pos hlen, Option.bind_some, List.take_append_of_le_length hlt.le,
        WireFormat.deserialize_take m _ hlt, Option.map_none]
    · rfl

omit [Bincode] [WireFormat] in
theorem Wire.beBytes_length (w n : Nat) : (Wire.beBytes w n).length = w := by
  rw [Wire.beBytes, List.length_reverse, leBytes_length]

theorem Wire.readMessage_eq_some {n : Nat} {bs rest : Bytes} {m : Message}
    (h : Wire.readMessage (Wire.beBytes 4 n ++ bs) = some (m, rest)) :
    n % 2 ^ 32 ≤ bs.length ∧ WireFormat.deserialize (bs.take (n % 2 ^ 32)) = some m := by
  have hlen : Wire.beNat (Wire.beBytes 4 n) = n % 2 ^ 32 := by
    rw [Wire.beNat, Wire.beBytes, List.reverse_reverse]
    exact leNat_leBytes_mod 4 _
  rw [Wire.readMessage, readExact_append_of_length (Wire.beBytes_length 4 n)] at h
  simp only [bind, Option.bind_some, hlen] at h
  obtain ⟨-, -, h⟩ := Option.bind_eq_some_iff.mp h
  obtain ⟨⟨msgBuf, left⟩, hread, h⟩ := Option.bind_eq_some_iff.mp h
  obtain ⟨m', hm, h⟩ := Option.bind_eq_some_iff.mp h
  obtain ⟨rfl, rfl⟩ := Prod.mk.inj (Option.some.inj h)
  obtain ⟨rfl, hmsg⟩ := readExact_eq_some hread
  refine ⟨by rw [List.length_append]; omega, ?_⟩
  rwa [List.take_left' hmsg]

theorem Wire.readMessage_take (m : Message) {k : Nat} (hk : k < (Wire.frame m).length) :
    Wire.readMessage ((Wire.frame m).take k) = none := by
  rw [Wire.frame, List.length_append, Wire.beBytes_length] at hk
  by_contra hsome
  obtain ⟨⟨m', rest⟩, hread⟩ := Option.ne_none_iff_exists'.mp hsome
  rcases Nat.lt_or_ge k 4 with hshort | hlong
  · -- not even the length is whole
    have hlen : ((Wire.frame m).take k).length < 4 := by
      rw [List.length_take]
      omega
    rw [Wire.readMessage, readExact_short hlen] at hread
    cases hread
  · rw [Wire.frame, List.take_append, Wire.beBytes_length,
      List.take_of_length_le (by rw [Wire.beBytes_length]; exact hlong)] at hread
    obtain ⟨hlen, hmsg⟩ := Wire.readMessage_eq_some hread
    rw [List.length_take] at hlen
    rw [List.take_take, Nat.min_eq_left (by omega), WireFormat.deserialize_take m _ (by omega)] at hmsg
    cases hmsg

def Wire.framing : Framing Message where
  frame := Wire.frame
  read := Wire.readMessage
  read_nil := rfl
  read_frame := Wire.readMessage_frame_or
  read_take _ _ := Wire.readMessage_take _

end Frames

inductive Party where
  | node (id : NodeId)
  | client (k : Nat)
  deriving DecidableEq, Repr

/-- One direction of a connection, from a writer task to a reader task. -/
structure Link where
  source : Party
  dest : Party
  /-- The eight bytes of the handshake in front of the frames, until the listener has read them. -/
  greeting : Option Bytes
  /-- The id under which the reading side has registered the connection. -/
  peer : Option NodeId
  pipe : Pipe Message
  reading : Bool

/-- A process. -/
structure Host (D : Type) [Storage D] where
  node : RaftNode D
  /-- What the readers have passed on and the runtime has not taken. -/
  inbox : List Message
  /-- `active_senders`: the link that takes the messages for a peer. -/
  activeSenders : AList (fun _ : NodeId => Nat)
  /-- The answers that the runtime gives itself. -/
  acknowledged : List (Nat × ServiceResponse)

structure Deployment (D : Type) [Storage D] where
  hosts : NodeId → Option (Host D)
  /-- The peers on the command line of each process. -/
  boot : NodeId → List NodeId
  /-- All links there have ever been. -/
  links : List Link

/-- What the runtime takes up next. -/
inductive Work where
  | message
  | request (request : ServiceRequest)
  | tick
  deriving DecidableEq, Repr

inductive Happening where
  /-- The runtime of a node goes once through its loop. -/
  | work (id : NodeId) (work : Work) (now : Instant)
  /-- A process connects to one with a smaller id. -/
  | dial (caller callee : NodeId)
  /-- A client connects under an id of its choice. -/
  | call (client : Nat) (id : NodeId) (callee : NodeId)
  /-- The listener reads the handshake. -/
  | accept (link : Nat)
  /-- A client sends a message. -/
  | submit (link : Nat) (message : Message)
  /-- A writer task writes a message. -/
  | write (link : Nat)
  /-- A writer task fails after some bytes of a message. -/
  | tear (link : Nat) (bytes : Nat)
  /-- A reader task passes a message on. -/
  | read (link : Nat)
  /-- A reader task gives up. -/
  | hangUp (link : Nat)
  /-- A removed peer is taken off the register. -/
  | unregister (id peer : NodeId)
  /-- A process dies and is started again on its directory: between two rounds of the loop, or inside one
  after some number of its file operations. -/
  | crash (id : NodeId) (inside : Option (Work × Nat)) (now : Instant)
  /-- A new process starts on an empty directory. -/
  | join (id : NodeId) (peers : List NodeId) (now : Instant)
  deriving DecidableEq, Repr

namespace ServiceRequest

/-- What the node is given for a request. -/
def input (request : ServiceRequest) : RaftNode.Input :=
  match request.operation with
  | .addNode id addr => .message (.addNode id addr)
  | .removeNode id => .message (.removeNode id)
  | .set key value => .request ⟨.set key value, .oneshot request.responseTx⟩
  | .delete key => .request ⟨.delete key, .oneshot request.responseTx⟩
  | .get key => .request ⟨.get key, .oneshot request.responseTx⟩
  | .status => .request ⟨.status, .oneshot request.responseTx⟩

/-- A membership change is answered by the runtime. -/
def acknowledgement (request : ServiceRequest) : List (Nat × ServiceResponse) :=
  match request.operation with
  | .addNode .. => [(request.responseTx, ⟨true, none, "Add-node request submitted to Raft", none, 0⟩)]
  | .removeNode _ => [(request.responseTx, ⟨true, none, "Remove-node request submitted to Raft", none, 0⟩)]
  | _ => []

end ServiceRequest

namespace Host
variable {D : Type} [Storage D]

def input (h : Host D) : Work → Option RaftNode.Input
  | .message => h.inbox.head?.map .message
  | .request request => some request.input
  | .tick => some .tick

def done (h : Host D) (work : Work) (n : RaftNode D) : Host D :=
  { h with
    node := { n with outbox := [] }
    inbox := if work = .message then h.inbox.tail else h.inbox
    acknowledged := match work with
      | .request request => h.acknowledged ++ request.acknowledgement
      | _ => h.acknowledged }

end Host

/-- `NetworkTransport::send`, for what `flush_outbox` sends: without a connection the message is lost. -/
def sendOn (senders : AList (fun _ : NodeId => Nat)) (links : List Link) (e : Envelope) : List Link :=
  if e.2 = .timeout then links
  else match senders.lookup e.1 with
    | none => links
    | some i => links.modify i fun link => { link with pipe := link.pipe.push e.2 }

def Link.cut (id : NodeId) (link : Link) : Link :=
  let link := if link.source = .node id then { link with pipe := link.pipe.shut } else link
  if link.dest = .node id then { link with greeting := none, reading := false } else link

namespace Deployment
variable {D : Type} [Storage D] [Bincode] [FloatText] [WireFormat] (config : Config)

def setHost (d : Deployment D) (id : NodeId) (h : Host D) : Deployment D :=
  { d with hosts := Function.update d.hosts id (some h) }

/-- The two links of a new connection. The side that calls can write at once. -/
def connect (d : Deployment D) (caller : Party) (id callee : NodeId) : Deployment D :=
  { d with links := d.links ++ [
    ⟨caller, .node callee, some (Wire.beBytes 8 id), none, .fresh true, false⟩,
    ⟨.node callee, caller, none, some callee, .fresh false, true⟩] }

def boots (d : Deployment D) (id : NodeId) (dir : Dir D) (now : Instant) : Option (Deployment D) :=
  (RaftNode.newInDir dir id (d.boot id) config now).map fun n =>
    { d with links := d.links.map (Link.cut id) }.setHost id ⟨n, [], ∅, []⟩

def step (d : Deployment D) : Happening → Option (Deployment D)
  | .work id work now => do
    let h ← d.hosts id
    let input ← h.input work
    let n ← h.node.process input now
    return { d with links := n.outbox.foldl (sendOn h.activeSenders) d.links }.setHost id (h.done work n)
  | .dial caller callee => do
    guard (callee < caller)
    let h ← d.hosts caller
    -- that there was no connection to the peer has been looked up before, and another task may have made one
    return (d.connect (.node caller) caller callee).setHost caller
      { h with activeSenders := h.activeSenders.insert callee d.links.length }
  | .call client id callee => some (d.connect (.client client) id callee)
  | .accept i => do
    let link ← d.links[i]?
    let greeting ← link.greeting
    let .node id := link.dest | none
    let h ← d.hosts id
    let (idBuf, _) ← readExact 8 (greeting ++ link.pipe.bytes)
    let peer := Wire.beNat idBuf
    let links := d.links.modify i fun link => { link with greeting := none, peer := some peer, reading := true }
    return { d with links := links.modify (i + 1) fun back => { back with pipe := .fresh true } }.setHost id
      { h with activeSenders := h.activeSenders.insert peer (i + 1) }
  | .submit i message => do
    let link ← d.links[i]?
    let .client _ := link.source | none
    guard message.external
    return { d with links := d.links.modify i fun link => { link with pipe := link.pipe.push message } }
  | .write i => do
    let link ← d.links[i]?
    let pipe ← link.pipe.write Wire.framing
    return { d with links := d.links.set i { link with pipe := pipe } }
  | .tear i bytes => do
    let link ← d.links[i]?
    let pipe ← link.pipe.tear Wire.framing bytes
    return { d with links := d.links.set i { link with pipe := pipe } }
  | .read i => do
    let link ← d.links[i]?
    guard link.reading
    let (message, pipe) ← link.pipe.read Wire.framing
    let d := { d with links := d.links.set i { link with pipe := pipe } }
    match link.dest with
    | .client _ => return d
    | .node id => do
      let h ← d.hosts id
      return d.setHost id { h with inbox := h.inbox ++ [message] }
  | .hangUp i => do
    let link ← d.links[i]?
    guard link.reading
    let d := { d with links := d.links.set i { link with reading := false } }
    match link.dest, link.peer with
    | .node id, some peer => do
      let h ← d.hosts id
      return d.setHost id { h with activeSenders := h.activeSenders.erase peer }
    | _, _ => return d
  | .unregister id peer => do
    let h ← d.hosts id
    return d.setHost id { h with activeSenders := h.activeSenders.erase peer }
  | .crash id none now => do
    let h ← d.hosts id
    d.boots config id h.node.dir now
  | .crash id (some (work, k)) now => do
    let h ← d.hosts id
    let input ← h.input work
    let n ← h.node.process input now
    let point ← n.crashPoints[k]?
    d.boots config id point.dir now
  | .join id peers now =>
    if (d.hosts id).isSome then none
    else ({ d with boot := Function.update d.boot id peers }).boots config id Dir.empty now

def exec (d : Deployment D) (run : List Happening) : Option (Deployment D) := run.foldlM (step config) d

/-- Every member freshly started on an empty directory, and no connections. -/
def start (M : Membership) (config : Config) (now : Instant) : Deployment D where
  hosts id := if id ∈ M.members then
      (RaftNode.newInDir Dir.empty id (M.peersOf id) config now).map fun n => ⟨n, [], ∅, []⟩
    else none
  boot := M.peersOf
  links := []

end Deployment
end KvRaft
