import KvRaft.Raft.NetworkSim

/-! What holds in every run of a deployment: its nodes run the cluster, a connection keeps the order of the
messages, and the processes agree on what they have applied. -/

namespace KvRaft
open FramedPipe

section Refinement
variable {D : Type} [Storage D] [Bincode]

omit [Bincode] in
theorem ServiceRequest.input_external {request : ServiceRequest} {m : Message} (h : request.input = .message m) :
    m.external = true := by
  obtain ⟨operation, tx⟩ := request
  cases operation <;> cases h <;> rfl

omit [Bincode] in
theorem Happening.within_external (x : Happening) : x.Within fun m => m.external = true := by
  cases x with
  | submit i m => exact fun h => h
  | work id w now => cases w with
    | request request => exact fun m hm => ServiceRequest.input_external hm
    | message | tick => trivial
  | crash id inside now => cases inside with
    | none => trivial
    | some p =>
      obtain ⟨w, k⟩ := p
      cases w with
      | request request => exact fun m hm => ServiceRequest.input_external hm
      | message | tick => trivial
  | _ => trivial

variable [FloatText] [WireFormat]

/-- A deployment is a cluster: in every run of its processes, tasks and connections, whatever breaks and
whichever processes die, the nodes do what they can do in a cluster whose network keeps all messages. -/
theorem deployment_refines (M : Membership) (hM : ∀ id ∈ M.members, id < 2 ^ 64) (config : Config) (now : Instant)
    {run : List Happening} (hwords : ∀ x ∈ run, x.words = true) {d : Deployment D}
    (hd : (Deployment.start M config now).exec config run = some d) :
    ∃ c, Cluster.exec config (M.start config now) ((Deployment.start M config now : Deployment D).trace config run) =
      some c ∧ ∀ id, c.nodes id = (d.hosts id).map Host.node := by
  obtain ⟨c, hc, hok⟩ := (Agrees.start _ M hM config now).exec (fun _ h => h) hwords
    (fun x _ => x.within_external) hd
  exact ⟨c, hc, hok.nodes⟩

end Refinement

section Concrete
open scoped Concrete

/-- Node 2 calls node 1, which is elected with its vote and commits a write. -/
def overTcp : List Happening := [.dial 2 1, .accept 0,
  .work 1 .tick ⟨1000, 0⟩, .write 1, .read 1, .work 2 .message ⟨1000, 0⟩, .write 0, .read 0,
  .work 1 .message ⟨1000, 0⟩, .work 1 (.request ⟨.set "a" (.int 1), 7⟩) ⟨1000, 0⟩, .write 1, .write 1, .read 1, .read 1,
  .work 2 .message ⟨1000, 0⟩, .work 2 .message ⟨1000, 0⟩, .write 0, .write 0, .read 0, .read 0,
  .work 1 .message ⟨1000, 0⟩, .work 1 .message ⟨1000, 0⟩]

/-- The connection then breaks in the middle of a message, node 1 dies, and node 2 calls it again. -/
def brokenTcp : List Happening := overTcp ++ [.work 1 (.request ⟨.set "b" (.int 2), 8⟩) ⟨1000, 0⟩, .tear 1 20,
  .hangUp 1, .crash 1 none ⟨2000, 0⟩, .dial 2 1, .accept 2]

theorem deployment_refines_broken : ∃ d : Deployment Database,
    (Deployment.start Membership.three .default ⟨0, 0⟩).exec .default brokenTcp = some d ∧
    (d.hosts 1).map (fun h => (h.node.role, h.node.currentTerm, h.node.lastApplied)) = some (.follower, 1, 1) ∧
    ∃ c, Cluster.exec .default (Membership.three.start .default ⟨0, 0⟩)
      ((Deployment.start Membership.three .default ⟨0, 0⟩ : Deployment Database).trace .default brokenTcp) = some c ∧
      ∀ id, c.nodes id = (d.hosts id).map Host.node := by
  have hrun : ((Deployment.start Membership.three .default ⟨0, 0⟩ : Deployment Database).exec .default brokenTcp).map
      (fun d => (d.hosts 1).map fun h => (h.node.role, h.node.currentTerm, h.node.lastApplied)) =
        some (some (.follower, 1, 1)) := by
    decide +kernel
  obtain ⟨d, hd, hnode⟩ := Option.map_eq_some_iff.mp hrun
  exact ⟨d, hd, hnode, deployment_refines Membership.three (by decide) .default ⟨0, 0⟩ (by decide) hd⟩

end Concrete

section Order
variable {D : Type} [Storage D] [Bincode] [FloatText] [WireFormat]

/-- A link delivers in the order of sending, nothing twice, nothing that was not sent; and while its writer
lives, whatever it was given is delivered, or in the stream, or waits to be written. -/
theorem link_in_order (M : Membership) (hM : ∀ id ∈ M.members, id < 2 ^ 64) (config : Config) (now : Instant)
    {run : List Happening} (hwords : ∀ x ∈ run, x.words = true) {d : Deployment D}
    (hd : (Deployment.start M config now).exec config run = some d) {i : Nat} {link : Link}
    (hi : d.links[i]? = some link) :
    link.pipe.received <+: link.pipe.sent ∧
    (link.pipe.writing = true → ∃ wired, link.pipe.bytes = wired.flatMap Wire.frame ∧
      link.pipe.received ++ wired ++ link.pipe.queue = link.pipe.sent) := by
  obtain ⟨c, -, hok⟩ := (Agrees.start _ M hM config now).exec (fun _ h => h) hwords
    (fun x _ => x.within_external) hd
  obtain ⟨⟨wired, torn, hsound⟩, -⟩ := hok.pipes i link hi
  refine ⟨?_, fun hwriting => ?_⟩
  · have hprefix := (List.prefix_append _ link.pipe.queue).trans hsound.order
    exact (List.prefix_append _ wired).trans hprefix
  · obtain ⟨rfl, hsent⟩ := hsound.whole hwriting
    refine ⟨wired, ?_, hsent⟩
    have hbytes := hsound.bytes
    rwa [List.append_nil] at hbytes

end Order

section Concrete
open scoped Concrete

/-- All that node 1 sent to node 2 before the connection broke has arrived, and the last message has not. -/
theorem link_in_order_broken : ∃ (d : Deployment Database) (link : Link),
    (Deployment.start Membership.three .default ⟨0, 0⟩).exec .default brokenTcp = some d ∧ d.links[1]? = some link ∧
    (link.pipe.sent.length, link.pipe.received.length) = (4, 3) ∧ link.pipe.received <+: link.pipe.sent := by
  have hrun : ((Deployment.start Membership.three .default ⟨0, 0⟩ : Deployment Database).exec .default brokenTcp).bind
      (fun d => d.links[1]?.map fun link => (link.pipe.sent.length, link.pipe.received.length)) = some (4, 3) := by
    decide +kernel
  obtain ⟨d, hd, hrun⟩ := Option.bind_eq_some_iff.mp hrun
  obtain ⟨link, hlink, hcount⟩ := Option.map_eq_some_iff.mp hrun
  refine ⟨d, link, hd, hlink, hcount, ?_⟩
  exact (link_in_order Membership.three (by decide) .default ⟨0, 0⟩ (by decide) hd hlink).1

end Concrete

/-! Safety. -/

/-- A message that a client of the store sends, or an operator who wants an election. -/
def Message.ofStore : Message → Bool
  | .addNode .. | .removeNode _ => false
  | m => m.external

def ServiceRequest.ofStore (request : ServiceRequest) : Bool :=
  match request.operation with
  | .addNode .. | .removeNode _ => false
  | _ => true

/-- No process dies and none is added, and nobody asks for a change of the membership. -/
def Happening.calm : Happening → Bool
  | .crash .. | .join .. => false
  | .work _ (.request request) _ => request.ofStore
  | .submit _ m => m.ofStore
  | x => x.words

def OfStore (m : Message) : Prop := m.ofStore = true

theorem OfStore.external {m : Message} (h : OfStore m) : m.external = true := by
  cases m with
  | addNode | removeNode => rfl
  | _ => exact h

theorem Happening.calm_words {x : Happening} (h : x.calm = true) : x.words = true := by
  cases x with
  | call client id callee => exact h
  | crash | join => cases h
  | _ => rfl

theorem Happening.calm_within {x : Happening} (h : x.calm = true) : x.Within OfStore := by
  cases x with
  | submit i m => exact fun _ => h
  | work id w now => cases w with
    | request request =>
      obtain ⟨operation, tx⟩ := request
      intro m hm
      cases operation with
      | addNode | removeNode => cases h
      | _ => cases hm
    | message | tick => trivial
  | crash | join => cases h
  | _ => trivial

section Safety
variable {D : Type} [Storage D] [Bincode] [FloatText] [WireFormat]
variable {M : Membership} {config : Config} {d d' : Deployment D} {c : Cluster D}
  {a : ReplicatedLog.State NodeId LogEntry} {x : Happening}

theorem Agrees.actions_inMemory (hd : Agrees OfStore d c) (hok : ClusterOk M config c a) (hx : x.calm = true) :
    ∀ y ∈ d.actions x, y.inMemory = true := by
  have hwithin := Happening.calm_within hx
  cases x with
  | work id w now =>
    rw [Deployment.actions]
    split
    · next input hin =>
      obtain ⟨h, hh, hin⟩ := Option.bind_eq_some_iff.mp hin
      have hmsg : ∀ m, input = .message m → OfStore m ∨ MsgOk M a (id, m) := by
        rintro m rfl
        have hgiven : Given OfStore c id m := by
          cases w with
          | message =>
            obtain ⟨m', hm', heq⟩ := Option.map_eq_some_iff.mp hin
            obtain rfl := RaftNode.Input.message.inj heq
            exact hd.inbox id h hh m' (List.mem_of_head? hm')
          | request request => exact .inl (hwithin m (Option.some.inj hin))
          | tick => cases hin
        exact hgiven.imp_right (hok.network _)
      intro y hy
      rcases List.mem_cons.mp hy with rfl | hy
      · cases input with
        | message m =>
          cases m with
          | addNode j addr =>
            rcases hmsg _ rfl with hstore | hnone
            · cases hstore
            · exact hnone.elim
          | removeNode j =>
            rcases hmsg _ rfl with hstore | hnone
            · cases hstore
            · exact hnone.elim
          | _ => rfl
        | tick => rfl
        | request request => rfl
      · rw [List.mem_singleton.mp hy]
        rfl
    · exact fun y hy => absurd hy List.not_mem_nil
  | crash | join => cases hx
  | _ => exact fun y hy => absurd hy List.not_mem_nil

theorem clusterOk_of_deployment (hM : ∀ id ∈ M.members, id < 2 ^ 64) (now : Instant) {run : List Happening}
    (hcalm : ∀ x ∈ run, x.calm = true) (hd : (Deployment.start M config now).exec config run = some d) :
    ∃ c a, Agrees OfStore d c ∧ ClusterOk M config c a := by
  refine Fold.foldlM_invariant (P := fun d : Deployment D => ∃ c a, Agrees OfStore d c ∧ ClusterOk M config c a)
    hd ⟨_, _, Agrees.start _ M hM config now, ClusterOk.start M config now⟩ ?_
  rintro d x d' hx ⟨c, a, hagrees, hok⟩ hs
  obtain ⟨c', hc', hagrees'⟩ := hagrees.step (fun _ h => OfStore.external h) (Happening.calm_words (hcalm x hx))
    (Happening.calm_within (hcalm x hx)) hs
  obtain ⟨a', -, hok'⟩ := hok.exec (hagrees.actions_inMemory hok (hcalm x hx)) hc'
  exact ⟨c', a', hagrees', hok'⟩

/-- Two processes of a deployment have applied the same entries, have the same database when they have
applied as many, and do not both lead in one term. -/
theorem deployment_safe (hM : ∀ id ∈ M.members, id < 2 ^ 64) (now : Instant) {run : List Happening}
    (hcalm : ∀ x ∈ run, x.calm = true) (hd : (Deployment.start M config now).exec config run = some d) {i j : NodeId}
    {h g : Host D} (hi : d.hosts i = some h) (hj : d.hosts j = some g) :
    (∀ k ≤ h.node.lastApplied, k ≤ g.node.lastApplied →
      ∃ e, h.node.log[k]? = some e ∧ g.node.log[k]? = some e) ∧
    (h.node.lastApplied = g.node.lastApplied → h.node.db = g.node.db) ∧
    (h.node.role = .leader → g.node.role = .leader → h.node.currentTerm = g.node.currentTerm → i = j) := by
  obtain ⟨c, a, hagrees, hok⟩ := clusterOk_of_deployment hM now hcalm hd
  have hI := hok.nodes i h.node (by rw [hagrees.nodes, hi, Option.map_some])
  have hJ := hok.nodes j g.node (by rw [hagrees.nodes, hj, Option.map_some])
  refine ⟨fun k hk hk' => ?_, fun heq => ?_, fun hlead hlead' hterm => ?_⟩
  · rcases Nat.le_total h.node.lastApplied g.node.lastApplied with hle | hle
    · exact hI.applied_agree hJ hle hk
    · obtain ⟨e, he, he'⟩ := hJ.applied_agree hI hle hk'
      exact ⟨e, he', he⟩
  · have htake := hI.sim.applied.agree hok.inv hJ.sim.applied hI.logOk hJ.logOk heq.le
    rw [hI.db_eq, hJ.db_eq, ← heq]
    exact congrArg _ (commandsUpTo_of_take htake)
  · have hledI : a.led h.node.currentTerm = some (i, h.node.log) := (hI.sim.leader hlead).1
    have hledJ : a.led g.node.currentTerm = some (j, g.node.log) := (hJ.sim.leader hlead').1
    rw [← hterm, hledI] at hledJ
    exact (Prod.mk.inj (Option.some.inj hledJ)).1

end Safety

section Concrete
open scoped Concrete

theorem deployment_safe_overTcp : ∃ (d : Deployment Database) (h g : Host Database),
    (Deployment.start Membership.three .default ⟨0, 0⟩).exec .default overTcp = some d ∧ d.hosts 1 = some h ∧
    d.hosts 2 = some g ∧ h.node.lastApplied = 1 ∧ g.node.lastApplied = 0 ∧
    ∀ k ≤ h.node.lastApplied, k ≤ g.node.lastApplied → ∃ e, h.node.log[k]? = some e ∧ g.node.log[k]? = some e := by
  have hrun : ((Deployment.start Membership.three .default ⟨0, 0⟩ : Deployment Database).exec .default overTcp).bind
      (fun d => (d.hosts 1).bind fun h => (d.hosts 2).map fun g => (h.node.lastApplied, g.node.lastApplied)) =
        some (1, 0) := by
    decide +kernel
  obtain ⟨d, hd, hrun⟩ := Option.bind_eq_some_iff.mp hrun
  obtain ⟨h, hh, hrun⟩ := Option.bind_eq_some_iff.mp hrun
  obtain ⟨g, hg, hrun⟩ := Option.map_eq_some_iff.mp hrun
  obtain ⟨hone, hzero⟩ := Prod.mk.inj hrun
  exact ⟨d, h, g, hd, hh, hg, hone, hzero, (deployment_safe (by decide) ⟨0, 0⟩ (by decide) hd hh hg).1⟩

end Concrete
end KvRaft
