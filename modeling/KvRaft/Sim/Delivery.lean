import KvRaft.Sim.Persistence

/-! Delivery while nothing disturbs the network. What a node sends is in flight afterwards, once and whole, and
the next event is one of those in flight and reaches its node. -/

namespace KvRaft.Simulator

variable {D : Type} [Storage D]

theorem popFirst_isSome {α : Type} (before : α → α → Bool) {heap : List α} (h : heap ≠ []) :
    ∃ a rest, popFirst before heap = some (a, rest) := by
  cases heap with
  | nil => exact absurd rfl h
  | cons a heap =>
    unfold popFirst
    split
    · exact ⟨a, [], rfl⟩
    · split_ifs
      · exact ⟨_, _, rfl⟩
      · exact ⟨_, _, rfl⟩

variable [Platform]

namespace Simulation

/-- Every node runs, no link is blocked or about to lose or to duplicate a message, and no fault is to come.
Links may be slow. -/
structure Healthy (s : Simulation D) : Prop where
  disabled : s.disabledNodes = ∅
  paused : s.pausedNodes = ∅
  blocked : s.blockedLinks = ∅
  policies : ∀ link policy, s.linkPolicies.lookup link = some policy →
    policy.dropRemaining = 0 ∧ policy.duplicateRemaining = 0
  faults : s.scheduledFaults = []

def mail (s : Simulation D) : Multiset Envelope := (s.events.map Event.envelope : List Envelope)

structure Turned (s s' : Simulation D) (id : NodeId) (n : RaftNode D) : Prop where
  healthy : s'.Healthy
  self : s'.nodes.lookup id = some { n with outbox := [] }
  others : ∀ j, j ≠ id → s'.nodes.lookup j = s.nodes.lookup j
  mail : s'.mail = (n.outbox : Multiset Envelope) + s.mail
  clock : s'.clock = s.clock

section Turn
variable {s s' : Simulation D} {id : NodeId} {n n' : RaftNode D}

omit [Platform] in
theorem Healthy.of_frame (h : s.Healthy) (hs' : s' = { s with
    nodes := s'.nodes, events := s'.events, sequenceCounter := s'.sequenceCounter, clock := s'.clock,
    draws := s'.draws, marks := s'.marks, pausedEvents := s'.pausedEvents, overflowed := s'.overflowed }) :
    s'.Healthy := by
  rw [hs']
  exact ⟨h.disabled, h.paused, h.blocked, h.policies, h.faults⟩

omit [Platform] in
theorem pushEvent_mail (s : Simulation D) (deliverAt : Nat) (sender : NodeId) (e : Envelope) :
    (s.pushEvent deliverAt sender e).mail = e ::ₘ s.mail := by
  simp [mail, pushEvent, Event.envelope]

/-- A message is put into the network once, with whatever delay. -/
theorem routeMessage_of_healthy (h : s.Healthy) (sender : NodeId) {e : Envelope} (he : e.2 ≠ .timeout) :
    ∃ deliverAt also, routeMessage sender s e =
      ({ s with overflowed := s.overflowed || also } : Simulation D).pushEvent deliverAt sender e := by
  have hopen : ¬((sender, e.1) ∈ s.blockedLinks ∨ e.1 ∈ s.disabledNodes) := by
    rw [h.blocked, h.disabled]
    simp
  unfold routeMessage
  rw [if_neg he, if_neg hopen]
  split
  · exact ⟨s.clock, false, by rw [Bool.or_false]⟩
  · next policy hpolicy =>
    obtain ⟨hdrop, hduplicate⟩ := h.policies _ policy hpolicy
    rw [hdrop, if_neg (lt_irrefl 0)]
    dsimp only
    rw [hduplicate, if_neg (lt_irrefl 0)]
    exact ⟨_, _, rfl⟩

theorem routeMessages_of_healthy (h : s.Healthy) (sender : NodeId) {outbox : List Envelope}
    (hout : ∀ e ∈ outbox, e.2 ≠ .timeout) :
    (outbox.foldl (routeMessage sender) s).Healthy ∧ (outbox.foldl (routeMessage sender) s).nodes = s.nodes ∧
      (outbox.foldl (routeMessage sender) s).mail = (outbox : Multiset Envelope) + s.mail ∧
      (outbox.foldl (routeMessage sender) s).clock = s.clock := by
  induction outbox generalizing s with
  | nil => exact ⟨h, rfl, (zero_add _).symm, rfl⟩
  | cons e outbox ih =>
    obtain ⟨deliverAt, also, hroute⟩ := routeMessage_of_healthy h sender (hout e (List.mem_cons_self ..))
    generalize hs₁ : ({ s with overflowed := s.overflowed || also } : Simulation D) = s₁ at hroute
    have hpush : (s₁.pushEvent deliverAt sender e).Healthy := hs₁ ▸ h.of_frame rfl
    obtain ⟨h1, h2, h3, h4⟩ := ih hpush fun x hx => hout x (List.mem_cons_of_mem e hx)
    rw [List.foldl_cons, hroute]
    refine ⟨h1, h2.trans (hs₁ ▸ rfl), ?_, h4.trans (hs₁ ▸ rfl)⟩
    rw [h3, pushEvent_mail, ← Multiset.cons_coe, Multiset.cons_add, Multiset.add_cons, ← hs₁]
    rfl

theorem flushNodeOutbox_of_healthy (h : s.Healthy) (hn : s.nodes.lookup id = some n)
    (hout : ∀ e ∈ n.outbox, e.2 ≠ .timeout) : Turned s (s.flushNodeOutbox id) id n := by
  have hclear : s.clearOutbox id = { s with nodes := s.nodes.insert id { n with outbox := [] } } := by
    unfold clearOutbox
    rw [hn]
  have hflush : s.flushNodeOutbox id = n.outbox.foldl (routeMessage id) (s.clearOutbox id) := by
    unfold flushNodeOutbox
    rw [h.disabled, h.paused, if_neg (Finset.notMem_empty id), if_neg (Finset.notMem_empty id), hn]
  have hcleared : (s.clearOutbox id).Healthy := by
    rw [hclear]
    exact h.of_frame rfl
  obtain ⟨h1, h2, h3, h4⟩ := routeMessages_of_healthy hcleared id hout
  rw [hflush]
  refine ⟨h1, ?_, fun j hj => ?_, ?_, ?_⟩
  · rw [h2, hclear, AList.lookup_insert]
  · rw [h2, hclear, AList.lookup_insert_ne hj]
  · rw [h3, hclear]
    rfl
  · rw [h4, hclear]

theorem turn_of_healthy (h : s.Healthy) (call : RaftNode D → Instant → Option (RaftNode D))
    (hn : s.nodes.lookup id = some n) (hn' : call n s.now = some n') (hout : ∀ e ∈ n'.outbox, e.2 ≠ .timeout) :
    ∃ s', s.turn id call = some s' ∧ Turned s s' id n' := by
  have hcall : s.callNode id call = some
      (({ s with nodes := s.nodes.insert id n', draws := fun k => s.draws (k + 1) } : Simulation D).checkInstant
        (max n'.electionDeadline n'.heartbeatDeadline)) := by
    unfold callNode
    rw [hn]
    dsimp only
    rw [hn']
    rfl
  generalize hs₁ : ({ s with nodes := s.nodes.insert id n', draws := fun k => s.draws (k + 1) } :
    Simulation D).checkInstant (max n'.electionDeadline n'.heartbeatDeadline) = s₁ at hcall
  have hcalled : s₁.Healthy := hs₁ ▸ h.of_frame rfl
  have hnodes : s₁.nodes = s.nodes.insert id n' := hs₁ ▸ rfl
  obtain ⟨h1, h2, h3, h4, h5⟩ := flushNodeOutbox_of_healthy hcalled (hnodes ▸ AList.lookup_insert _) hout
  refine ⟨_, by rw [turn, hcall, Option.map_some], h1, h2, fun j hj => ?_, h4.trans ?_, h5.trans ?_⟩
  · rw [h3 j hj, hnodes, AList.lookup_insert_ne hj]
  · rw [← hs₁]
    rfl
  · rw [← hs₁]
    rfl

end Turn

section Deliver
variable {s : Simulation D}

theorem triggerDueFaults_of_healthy [FloatText] [Bincode] (h : s.Healthy) : s.triggerDueFaults = some s := by
  unfold triggerDueFaults
  rw [h.faults]
  rfl

def taking (s : Simulation D) (event : Event) (rest : List Event) : Simulation D :=
  { s with events := rest, clock := max event.deliverAt s.clock }

theorem deliverNext_of_no_events [FloatText] [Bincode] (h : s.Healthy) (hevents : s.events = []) :
    s.deliverNext = some (false, s) := by
  unfold deliverNext
  rw [triggerDueFaults_of_healthy h]
  dsimp only [Option.bind_eq_bind, Option.bind_some]
  rw [hevents, h.faults]
  rfl

theorem deliverNext_of_healthy [FloatText] [Bincode] (h : s.Healthy) (hevents : s.events ≠ []) : ∃ event rest,
    s.events.Perm (event :: rest) ∧ (s.taking event rest).Healthy ∧
    s.deliverNext = ((s.taking event rest).turn event.dest (RaftNode.process · (.message event.message))).map
      (true, ·) := by
  obtain ⟨event, rest, hpop⟩ := popFirst_isSome Event.before hevents
  have htaken : (s.taking event rest).Healthy := h.of_frame rfl
  refine ⟨event, rest, popFirst_perm hpop, htaken, ?_⟩
  unfold deliverNext
  rw [triggerDueFaults_of_healthy h]
  dsimp only [Option.bind_eq_bind, Option.bind_some]
  rw [hpop]
  dsimp only
  change ((s.taking event rest).triggerDueFaults.bind fun s => (s.deliver event).bind fun s => some (true, s)) = _
  rw [triggerDueFaults_of_healthy htaken, Option.bind_some, deliver, htaken.disabled, htaken.blocked, htaken.paused,
    if_neg (by simp), if_neg (Finset.notMem_empty _)]
  exact (Option.map_eq_bind ..).symm

omit [Platform] in
theorem taking_mail {event : Event} {rest : List Event} (h : s.events.Perm (event :: rest)) :
    s.mail = event.envelope ::ₘ (s.taking event rest).mail := Multiset.coe_eq_coe.mpr (h.map Event.envelope)

end Deliver
end Simulation
end KvRaft.Simulator
