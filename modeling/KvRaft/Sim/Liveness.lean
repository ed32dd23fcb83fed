import KvRaft.Sim.Reign

/-! Elections and replication come to an end while nothing disturbs the network: the node that stands is elected, and
all nodes then follow it and have its log. -/

namespace KvRaft.Simulator
open ReplicatedLog
open Relation (ReflTransGen)
open RaftNode hiding id

section Runs
variable {D : Type} [Storage D] [FloatText] [Platform] {M : Membership} {config : Config} {o : Office}
  {s s' : Simulation D} {st : NodeId → Stage} {c : NodeId} {m : RaftNode D} {slack latest : Nat}

theorem Sane.steps [Bincode] (hs : Sane M config s) (hdb : Storage.NeverPanics D) (h : Steps none s s') :
    Sane M config s' :=
  ⟨(persists_orderly M config hdb).steps hs.orderly h, persists_clientless.steps hs.clientless h,
    (persists_present _).steps hs.present h⟩

omit [Platform] in
theorem Sane.lookup (hs : Sane M config s) {p : NodeId} (hp : p ∈ M.members) : ∃ n, s.nodes.lookup p = some n :=
  Option.isSome_iff_exists.mp ((hs.present p).mpr (Finset.mem_toList.mpr hp))

omit [FloatText] [Platform] in
theorem budget_succ (latest cost slack : Nat) : latest + (cost + 1) * slack = latest + slack + cost * slack := by
  rw [Nat.add_mul, Nat.one_mul, Nat.add_right_comm, Nat.add_assoc]

theorem InOffice.idleLoop [Bincode] (h : InOffice M o st s) (hdb : Storage.NeverPanics D) (hs : Sane M config s)
    {rounds cost : Nat}
    (hcost : ∑ p ∈ others M o, (st p).cost o p ≤ cost) (hrounds : cost < rounds) (hp : Punctual slack latest s)
    (hlast : latest + cost * slack ≤ Platform.lastInstant) :
    ∃ st' s', Simulation.idleLoop rounds s = some s' ∧ InOffice M o st' s' ∧ Sane M config s' ∧ s'.events = [] ∧
      Punctual slack (latest + cost * slack) s' := by
  induction rounds generalizing s st cost latest with
  | zero => exact absurd hrounds (Nat.not_lt_zero _)
  | succ rounds ih =>
    unfold Simulation.idleLoop
    by_cases hevents : s.events = []
    · rw [Simulation.deliverNext_of_no_events h.healthy hevents]
      exact ⟨st, s, rfl, h, hs, hevents, hp.mono (Nat.le_add_right ..)⟩
    · obtain ⟨st₁, s₁, hs₁, h₁, hless⟩ := h.deliverNext hdb hs hevents
      obtain ⟨cost, rfl⟩ : ∃ cost', cost = cost' + 1 := Nat.exists_eq_add_one.mpr (by omega)
      rw [budget_succ] at hlast ⊢
      have hp₁ := hp.deliverNext (by omega) h.healthy hs₁
      obtain ⟨st', s', hs', h', hrest⟩ := ih h₁ (hs.steps hdb (Simulation.deliverNext_steps hs₁)) (by omega) (by omega)
        hp₁ hlast
      exact ⟨st', s', by rw [hs₁]; exact hs', h', hrest⟩

omit [Platform] in
/-- With nothing in flight the chief leads, and everybody has consented. -/
theorem InOffice.settled (h : InOffice M o st s) (hs : Sane M config s) (hevents : s.events = []) :
    InOffice M o (fun _ => ⟨.counted, .done⟩) s ∧ ∃ m, s.nodes.lookup o.chief = some m ∧ m.role = .leader := by
  have hzero : ∑ p ∈ others M o, (st p).mail o p = 0 := by
    rw [← h.mail, Simulation.mail, hevents]
    rfl
  have hmails : ∀ p ∈ others M o, (st p).poll.mail o p = 0 ∧ (st p).feed.mail o p = 0 := fun p hp =>
    add_eq_zero.mp (Finset.sum_eq_zero_iff.mp hzero p hp)
  have hpolls : ∀ p ∈ others M o, (st p).poll = .counted := by
    intro p hp
    have hv := (hmails p hp).1
    cases hx : (st p).poll with
    | counted => rfl
    | asked | answered =>
      rw [hx] at hv
      exact absurd hv (Multiset.singleton_ne_zero _)
  obtain ⟨a, -, hnode⟩ := hs.node
  obtain ⟨m, hm, hchief⟩ := h.chief
  obtain ⟨hok, -⟩ := hnode _ m hm
  have hleads : Leading o (others M o) st m := by
    refine hchief.acts.resolve_left fun hstands => ?_
    -- otherwise all votes had been counted and were not enough
    have hsub : insert o.chief (others M o) ⊆ m.votesReceived := by
      refine Finset.insert_subset hstands.self fun p hp => hstands.counted p hp (hpolls p hp)
    have hcard := Finset.card_le_card hsub
    have hself : o.chief ∉ others M o := Finset.notMem_erase o.chief M.members
    rw [Finset.card_insert_of_notMem hself] at hcard
    have hmajority := majority_le_card hok
    have hfew := hstands.few
    omega
  have hfeeds : ∀ p ∈ others M o, (st p).feed = .done := by
    intro p hp
    have hv := (hmails p hp).2
    have hf := hleads.follows p hp
    cases hx : (st p).feed with
    | done => rfl
    | idle =>
      rw [hx] at hf
      exact hf.elim
    | sent | refused | accepted =>
      rw [hx] at hv
      exact absurd hv (Multiset.singleton_ne_zero _)
  have hst : ∀ p ∈ others M o, st p = ⟨.counted, .done⟩ := fun p hp => by
    rw [← hpolls p hp, ← hfeeds p hp]
  refine ⟨⟨h.healthy, ⟨m, hm, { hchief with acts := Or.inr ⟨hleads.role, hleads.leader, fun p hp => ?_, fun _ => ?_⟩ }⟩,
    fun p hp => hst p hp ▸ h.subjects p hp, h.mail.trans (Finset.sum_congr rfl fun p hp => by rw [hst p hp])⟩,
    m, hm, hleads.role⟩
  · exact hfeeds p hp ▸ hleads.follows p hp
  · exact hleads.applied hfeeds

/-! Outboxes. -/

def Sent (s : Simulation D) : Prop := ∀ id n, s.nodes.lookup id = some n → n.outbox = []

/-- Only the order of the nodes in the map may have changed. -/
structure Alike (s s' : Simulation D) : Prop where
  frame : s' = { s with nodes := s'.nodes }
  healthy : s'.Healthy
  nodes : ∀ id, s'.nodes.lookup id = s.nodes.lookup id
  mail : s'.mail = s.mail

omit [FloatText] in
theorem flushNodeOutbox_alike (hh : s.Healthy) (hq : Sent s) (id : NodeId) : Alike s (s.flushNodeOutbox id) := by
  cases hn : s.nodes.lookup id with
  | none =>
    have hsame : s.flushNodeOutbox id = s := by
      unfold Simulation.flushNodeOutbox
      rw [hh.disabled, hh.paused, if_neg (Finset.notMem_empty id), if_neg (Finset.notMem_empty id), hn]
    rw [hsame]
    exact ⟨rfl, hh, fun _ => rfl, rfl⟩
  | some n =>
    have hout := hq id n hn
    obtain ⟨hhealthy, hself, hothers, hmail, -⟩ := Simulation.flushNodeOutbox_of_healthy hh hn (by simp [hout])
    have hflush : s.flushNodeOutbox id = s.clearOutbox id := by
      unfold Simulation.flushNodeOutbox
      rw [hh.disabled, hh.paused, if_neg (Finset.notMem_empty id), if_neg (Finset.notMem_empty id), hn]
      dsimp only
      rw [hout, List.foldl_nil]
    refine ⟨?_, hhealthy, fun j => ?_, by rw [hmail, hout, Multiset.coe_nil, zero_add]⟩
    · rw [hflush]
      exact s.clearOutbox_frame_eq id
    by_cases hj : j = id
    · rw [hj, hself, hn, ← hout]
    · exact hothers j hj

omit [FloatText] in
theorem flushAllOutboxes_alike (hh : s.Healthy) (hq : Sent s) : Alike s s.flushAllOutboxes := by
  have key : ∀ (ids : List NodeId) (b : Simulation D), Alike s b →
      Alike s (ids.foldl Simulation.flushNodeOutbox b) := by
    intro ids
    induction ids with
    | nil => exact fun b hb => hb
    | cons id ids ih =>
      intro b hb
      have hone := flushNodeOutbox_alike hb.healthy (fun j n hn => hq j n (hb.nodes j ▸ hn)) id
      refine ih _ ⟨?_, hone.healthy, fun j => (hone.nodes j).trans (hb.nodes j), hone.mail.trans hb.mail⟩
      rw [hone.frame, hb.frame]
  exact key s.nodeIds s ⟨rfl, hh, fun _ => rfl, rfl⟩

omit [FloatText] in
theorem Punctual.alike (h : Punctual slack latest s) (ha : Alike s s') : Punctual slack latest s' := by
  rw [ha.frame]
  refine { h with timeouts := fun id n hn => ?_, deadlines := fun id n hn => ?_ }
  · exact h.timeouts id n ((ha.nodes id).symm.trans hn)
  · exact h.deadlines id n ((ha.nodes id).symm.trans hn)

omit [Platform] in
theorem InOffice.alike (h : InOffice M o st s) (ha : Alike s s') : InOffice M o st s' := by
  obtain ⟨m, hm, hchief⟩ := h.chief
  refine ⟨ha.healthy, ⟨m, (ha.nodes _).trans hm, hchief⟩, fun p hp => ?_, ha.mail.trans h.mail⟩
  rw [ha.nodes]
  exact h.subjects p hp

omit [Platform] in
theorem InOffice.all_sent (h : InOffice M o st s) (hs : Sane M config s) : Sent s := by
  intro id n hn
  by_cases hid : id = o.chief
  · obtain ⟨m, hm, hchief⟩ := h.chief
    rw [hid, hm] at hn
    exact Option.some.inj hn ▸ hchief.outbox
  · obtain ⟨a, -, hnode⟩ := hs.node
    obtain ⟨n', hn', hsub⟩ := h.subjects id (Finset.mem_erase.mpr ⟨hid, (hnode id n hn).1.mem⟩)
    rw [hn'] at hn
    exact Option.some.inj hn ▸ hsub.outbox

theorem InOffice.runUntilIdle [Bincode] (h : InOffice M o st s) (hdb : Storage.NeverPanics D) (hs : Sane M config s)
    {cost : Nat}
    (hcost : ∑ p ∈ others M o, (st p).cost o p ≤ cost) (hlimit : cost ≤ 10000) (hp : Punctual slack latest s)
    (hlast : latest + cost * slack ≤ Platform.lastInstant) :
    ∃ s', s.runUntilIdle = some s' ∧ InOffice M o (fun _ => ⟨.counted, .done⟩) s' ∧ Sane M config s' ∧
      s'.events = [] ∧ Punctual slack (latest + cost * slack) s' ∧
      ∃ m, s'.nodes.lookup o.chief = some m ∧ m.role = .leader := by
  have halike := flushAllOutboxes_alike h.healthy (h.all_sent hs)
  obtain ⟨st', s', hs', h', hsane, hevents, hp'⟩ := (h.alike halike).idleLoop hdb
    (hs.steps hdb (Simulation.flushAllOutboxes_steps s)) hcost (Nat.lt_succ_of_le hlimit) (hp.alike halike) hlast
  obtain ⟨hdone, hleads⟩ := h'.settled hsane hevents
  exact ⟨s', hs', hdone, hsane, hevents, hp', hleads⟩

/-! What the nodes are asked for. -/

/-- Nothing is in flight or waits to be sent. -/
structure AtRest (s : Simulation D) : Prop where
  healthy : s.Healthy
  events : s.events = []
  sent : Sent s

instance (s : Simulation D) : Decidable s.Healthy :=
  decidable_of_iff ((s.disabledNodes = ∅ ∧ s.pausedNodes = ∅ ∧ s.blockedLinks = ∅ ∧ s.scheduledFaults = []) ∧
      ∀ p ∈ s.linkPolicies.entries, p.2.dropRemaining = 0 ∧ p.2.duplicateRemaining = 0)
    ⟨fun ⟨⟨h1, h2, h3, h4⟩, h5⟩ => ⟨h1, h2, h3, fun _ _ hp => h5 _ (AList.mem_lookup_iff.mp hp), h4⟩,
      fun h => ⟨⟨h.disabled, h.paused, h.blocked, h.faults⟩, fun p hp =>
        h.policies p.1 p.2 (AList.mem_lookup_iff.mpr hp)⟩⟩

instance (s : Simulation D) : Decidable (AtRest s) :=
  decidable_of_iff (s.Healthy ∧ s.events = [] ∧ ∀ p ∈ s.nodeList, p.2.outbox = [])
    ⟨fun ⟨h1, h2, h3⟩ => ⟨h1, h2, fun _ _ hn => h3 _ (Simulation.mem_nodeList_of_lookup hn)⟩,
      fun h => ⟨h.healthy, h.events, fun p hp => h.sent p.1 p.2 (Simulation.mem_nodeList hp)⟩⟩

omit [FloatText] [Platform] in
theorem AtRest.mail (h : AtRest s) : s.mail = 0 := by
  rw [Simulation.mail, h.events]
  rfl

omit [Platform] in
theorem others_eq_empty {a : State NodeId LogEntry} (hok : NodeOk M config a o.chief m) (hpeers : m.peers = []) :
    others M o = ∅ := by
  refine Finset.eq_empty_of_forall_notMem fun p hp => ?_
  have hpeer := (mem_peers hok).mpr hp
  rw [hpeers] at hpeer
  cases hpeer

omit [Platform] in
theorem InOffice.alone (hothers : others M o = ∅) (hturned : Simulation.Turned s s' o.chief m) (hout : m.outbox = [])
    (hmail : s.mail = 0) (hterm : m.currentTerm = o.term) (hlog : m.log = o.log) (hcommit : o.commit ≤ m.commitIndex)
    (hrole : m.role = .leader) (hleader : m.leaderId = some o.chief)
    (happlied : o.lastTerm = o.term → o.log.length ≤ m.commitIndex + 1 ∧ o.log.length ≤ m.lastApplied + 1) :
    InOffice M o st s' := by
  have hnobody : ∀ p, p ∉ others M o := by
    rw [hothers]
    exact Finset.notMem_empty
  refine ⟨hturned.healthy, ⟨_, hturned.self, rfl, hterm, hlog, hcommit, Or.inr ⟨hrole, hleader, ?_, fun _ => happlied⟩⟩,
    fun p hp => absurd hp (hnobody p), ?_⟩
  · exact fun p hp => absurd hp (hnobody p)
  · rw [hturned.mail, hout, hmail, hothers]
    rfl

theorem AtRest.startElection (h : AtRest s) (hs : Sane M config s) (hm : s.nodes.lookup c = some m)
    (hbest : ∀ id n, s.nodes.lookup id = some n → n.currentTerm ≤ m.currentTerm ∧ M.setting.UpToDate m.log n.log) :
    ∃ s', s.startElection c = some s' ∧
      InOffice M ⟨c, m.currentTerm + 1, m.log, m.commitIndex, fun _ => 1⟩ (fun _ => ⟨.asked, .idle⟩) s' := by
  obtain ⟨a, hinv, hnode⟩ := hs.node
  obtain ⟨hok, hpending⟩ := hnode c m hm
  obtain ⟨last, hlast, hterm⟩ := hok.logOk.last
  have hidle : m.Idle := ⟨hpending, h.sent c m hm⟩
  have hturn : ∀ s', s.turn c RaftNode.startElection = some s' → s.startElection c = some s' := by
    intro s' hs'
    unfold Simulation.startElection
    rw [h.healthy.disabled, h.healthy.paused, if_neg (by simp)]
    exact hs'
  generalize ho : (⟨c, m.currentTerm + 1, m.log, m.commitIndex, fun _ => 1⟩ : Office) = o
  have hc : o.chief = c := by rw [← ho]
  have hsubjects : ∀ p ∈ others M o, ∃ n, s.nodes.lookup p = some n ∧ Subject M o p ⟨.asked, .idle⟩ n := by
    intro p hp
    obtain ⟨n, hn⟩ := hs.lookup (Finset.mem_of_mem_erase hp)
    obtain ⟨hle, hup⟩ := hbest p n hn
    refine ⟨n, hn, h.sent p n hn, ?_, ?_, ?_, ?_, fun _ hat => ?_, fun hy => (by cases hy), fun hy => by cases hy⟩
    · rw [← ho]
      exact hle.trans (Nat.le_succ _)
    · rw [← ho]
      exact hup
    · rw [← ho]
    · -- all logs begin with the sentinel
      rw [← ho]
      change n.log.take 1 = m.log.take 1
      rw [List.take_one, List.take_one, (hnode p n hn).1.logOk.head, hok.logOk.head]
    · rw [← ho] at hat
      change n.currentTerm = m.currentTerm + 1 at hat
      omega
  by_cases hpeers : m.peers = []
  · obtain ⟨m', hm', ⟨-, hout⟩, hleader, hlog, hnew, hrole, hcommit, -⟩ :=
      startElection_alone hidle hpeers hok.logOk.length_pos s.now
    obtain ⟨s', hs', hturned⟩ := Simulation.turn_of_healthy h.healthy RaftNode.startElection hm hm' (by simp [hout])
    have hothers := others_eq_empty (o := o) (hc.symm ▸ hok) hpeers
    refine ⟨s', hturn s' hs', .alone hothers (hc.symm ▸ hturned) hout h.mail ?_ ?_ ?_ hrole ?_ fun hown => ?_⟩
    · rw [← ho]
      exact hnew
    · rw [← ho]
      exact hlog
    · rw [← ho]
      exact hcommit.ge
    · rw [hc, ← hok.id_eq]
      exact hleader
    · -- the log is older than the term
      have hold := (hinv.log_ok c).2.1 last (hok.log_eq ▸ List.mem_of_getElem? hlast)
      rw [hok.term_eq] at hold
      rw [← ho] at hown
      change M.setting.lastTerm m.log = m.currentTerm + 1 at hown
      omega
  · obtain ⟨m', hm', hout, hcore⟩ := startElection_asks hidle hpeers hlast s.now
    have hsends : (m'.outbox : Multiset Envelope) = ∑ p ∈ others M o, (⟨.asked, .idle⟩ : Stage).mail o p := by
      have hsum := sum_peers (o := o) (hc.symm ▸ hok.mem) fun p => (p, .requestVote o.request)
      have hrequest : o.request = ⟨m.currentTerm + 1, m.id, m.log.length - 1, last.term⟩ := by
        rw [← ho, hok.id_eq]
        change RequestVote.mk (m.currentTerm + 1) c (m.log.length - 1) (M.setting.lastTerm m.log) = _
        rw [hterm]
        rfl
      rw [hout, hok.peers_eq, ← hrequest, ← hc, ← hsum]
      exact Finset.sum_congr rfl fun p _ => (add_zero _).symm
    obtain ⟨s', hs', hturned⟩ := Simulation.turn_of_healthy h.healthy RaftNode.startElection hm hm' fun e he =>
      mail_ne_timeout (o := o) (P := others M o) (fun _ => ⟨.asked, .idle⟩) (hsends ▸ Multiset.mem_coe.mpr he)
    refine ⟨s', hturn s' hs', hturned.healthy, ⟨_, hc.symm ▸ hturned.self, ?_⟩, fun p hp => ?_, ?_⟩
    · refine ⟨rfl, ?_, ?_, ?_, Or.inl ⟨congrArg Core.role hcore, ?_, ?_, fun _ _ => rfl, fun _ _ hy => by cases hy⟩⟩
      · rw [← ho]
        exact congrArg Core.currentTerm hcore
      · rw [← ho]
        exact congrArg Core.log hcore
      · rw [← ho]
        exact (congrArg Core.commitIndex hcore).ge
      · have hvotes : m'.votesReceived = {m.id} := congrArg Core.votesReceived hcore
        change o.chief ∈ m'.votesReceived
        rw [hvotes, hok.id_eq, hc]
        exact Finset.mem_singleton_self c
      · have hvotes : m'.votesReceived = {m.id} := congrArg Core.votesReceived hcore
        have hsame : m'.peers = m.peers := congrArg Core.peers hcore
        have hpos := List.length_pos_iff.mpr hpeers
        change m'.votesReceived.card < (m'.peers.length + 1) / 2 + 1
        rw [hvotes, hsame, Finset.card_singleton]
        omega
    · obtain ⟨n, hn, hsub⟩ := hsubjects p hp
      exact ⟨n, (hturned.others p (hc ▸ Finset.ne_of_mem_erase hp)).trans hn, hsub⟩
    · rw [hturned.mail, hsends, h.mail, add_zero]

/-- Node `c` leads in `term`, and all the others follow it and have its log. It has applied the log if that ends in
an entry of the term, and the others have applied all but the last entry if what is before that ends in one. -/
structure Agreed (s : Simulation D) (c : NodeId) (term : Nat) (log : List LogEntry) : Prop where
  rest : AtRest s
  leader : ∃ m, s.nodes.lookup c = some m ∧ m.role = .leader ∧
    (log.getLast?.map LogEntry.term = some term → log.length ≤ m.commitIndex + 1 ∧ log.length ≤ m.lastApplied + 1)
  nodes : ∀ id n, s.nodes.lookup id = some n → n.currentTerm = term ∧ n.leaderId = some c ∧ n.log = log
  followers : ∀ id n, s.nodes.lookup id = some n → id ≠ c → n.role = .follower ∧
    (log.dropLast.getLast?.map LogEntry.term = some term → log.dropLast.length ≤ n.lastApplied + 1)

omit [Platform] in
theorem InOffice.agreed (h : InOffice M o (fun _ => ⟨.counted, .done⟩) s) (hs : Sane M config s)
    (hevents : s.events = []) (hleads : ∃ m, s.nodes.lookup o.chief = some m ∧ m.role = .leader)
    (hcommit : o.log.dropLast.getLast?.map LogEntry.term = some o.term → o.log.dropLast.length ≤ o.commit + 1) :
    Agreed s o.chief o.term o.log := by
  obtain ⟨a, -, hnode⟩ := hs.node
  obtain ⟨m, hm, hrole⟩ := hleads
  obtain ⟨m', hm', hchief⟩ := h.chief
  obtain rfl := Option.some.inj (hm'.symm.trans hm)
  have hleading : Leading o (others M o) (fun _ => ⟨.counted, .done⟩) m' :=
    hchief.acts.resolve_left fun hstands => by
      have hcandidate := hstands.role
      rw [hrole] at hcandidate
      cases hcandidate
  have hsubject : ∀ id n, s.nodes.lookup id = some n → id ≠ o.chief → Subject M o id ⟨.counted, .done⟩ n := by
    intro id n hn hid
    obtain ⟨n', hn', hsub⟩ := h.subjects id (Finset.mem_erase.mpr ⟨hid, (hnode id n hn).1.mem⟩)
    exact Option.some.inj (hn'.symm.trans hn) ▸ hsub
  refine ⟨⟨h.healthy, hevents, h.all_sent hs⟩, ⟨m', hm, hrole, fun hown => ?_⟩, fun id n hn => ?_,
    fun id n hn hid => ?_⟩
  · exact hleading.applied (fun _ _ => rfl) (by rw [Office.lastTerm, hown]; rfl)
  · by_cases hid : id = o.chief
    · rw [hid, hm] at hn
      obtain rfl := Option.some.inj hn
      exact ⟨hchief.term, hleading.leader, hchief.log⟩
    · have hsub := hsubject id n hn hid
      obtain ⟨hterm, -, hleader⟩ := hsub.heard rfl
      exact ⟨hterm, hleader, (hsub.holds rfl).1⟩
  · have hsub := hsubject id n hn hid
    exact ⟨(hsub.heard rfl).2.1, fun hown => (hcommit hown).trans (Nat.succ_le_succ (hsub.holds rfl).2)⟩

/-- The office of a leader that has taken a command nobody else has heard of. -/
def officeTaking (c : NodeId) (m : RaftNode D) (command : Command) : Office :=
  ⟨c, m.currentTerm, m.log ++ [m.entryOf command], m.commitIndex, fun _ => m.log.length⟩

/-- What it has sent to `p`. -/
def stageTaking (m : RaftNode D) (p : NodeId) : Stage :=
  ⟨.counted, .sent ((m.nextIndex.lookup p).getD 0) m.commitIndex⟩

omit [Platform] in
/-- The others have all of its log but the command. -/
theorem Agreed.subjects {term : Nat} {log : List LogEntry} (h : Agreed s c term log) (hs : Sane M config s)
    (hm : s.nodes.lookup c = some m) (command : Command) {p : NodeId} (hp : p ∈ others M (officeTaking c m command)) :
    ∃ n, s.nodes.lookup p = some n ∧ Subject M (officeTaking c m command) p (stageTaking m p) n := by
  obtain ⟨a, hinv, hnode⟩ := hs.node
  obtain ⟨hok, -⟩ := hnode c m hm
  obtain ⟨hterm, -, hlog⟩ := h.nodes c m hm
  obtain ⟨n, hn⟩ := hs.lookup (Finset.mem_of_mem_erase hp)
  obtain ⟨hat, -, hsame⟩ := h.nodes p n hn
  have hlogs : n.log = m.log := hsame.trans hlog.symm
  refine ⟨n, hn, h.rest.sent p n hn, ?_, ?_, ?_, ?_, fun hy => (by cases hy), fun hy => (by cases hy),
    fun hy => by cases hy⟩
  · exact (hat.trans hterm.symm).le
  · rw [hlogs]
    obtain ⟨last, hlast, hlastTerm⟩ := hok.logOk.last
    have hold := (hinv.log_ok c).2.1 last (hok.log_eq ▸ List.mem_of_getElem? hlast)
    rw [hok.term_eq, ← hlastTerm] at hold
    have hnew : M.setting.lastTerm (m.log ++ [m.entryOf command]) = m.currentTerm := by
      rw [Setting.lastTerm, List.getLast?_concat]
      rfl
    rcases hold.lt_or_eq with hlt | heq
    · exact Or.inl (hnew.symm ▸ hlt)
    · refine Or.inr ⟨hnew.trans heq.symm, ?_⟩
      change m.log.length ≤ (m.log ++ [m.entryOf command]).length
      rw [List.length_append]
      exact Nat.le_add_right ..
  · exact hok.logOk.length_pos
  · rw [hlogs]
    exact (List.take_left' rfl).symm ▸ List.take_length

theorem takes_alone [Bincode] (hdb : Storage.NeverPanics D) {a : State NodeId LogEntry} (hok : NodeOk M config a c m)
    (ht : s.Healthy) (hmail : s.mail = 0) (hm : s.nodes.lookup c = some m)
    (hidle : ({ m with crashPoints := [] } : RaftNode D).Idle) (hrole : m.role = .leader)
    (hleader : m.leaderId = some c) (hpeers : m.peers = []) (command : Command) :
    ∃ s', s.turn c (RaftNode.process · (.message (.clientCommand command))) = some s' ∧
      InOffice M (officeTaking c m command) (stageTaking m) s' := by
  obtain ⟨m', hm', ⟨-, hout⟩, hleader', hlog, hterm, hrole', hcommit, hmore, happlied⟩ :=
    command_applied_alone hdb hidle hrole hpeers (hok.commands.of_logOk hok.logOk) hok.commit_lt command s.now
  obtain ⟨s', hs', hturned⟩ := Simulation.turn_of_healthy ht (RaftNode.process · (.message (.clientCommand command)))
    hm hm' (by simp [hout])
  have hothers : others M (officeTaking c m command) = ∅ := others_eq_empty hok hpeers
  refine ⟨s', hs', .alone hothers hturned hout hmail hterm hlog hcommit hrole' (hleader'.trans hleader) fun _ => ?_⟩
  change (m.log ++ [_]).length ≤ m'.commitIndex + 1 ∧ (m.log ++ [_]).length ≤ m'.lastApplied + 1
  rw [List.length_append]
  exact ⟨Nat.succ_le_succ hmore, Nat.succ_le_succ happlied⟩

theorem takes_sending [Bincode] {a : State NodeId LogEntry} (hok : NodeOk M config a c m) (ht : s.Healthy)
    (hmail : s.mail = 0) (hm : s.nodes.lookup c = some m) (hidle : ({ m with crashPoints := [] } : RaftNode D).Idle)
    (hrole : m.role = .leader) (hleader : m.leaderId = some c) (hpeers : m.peers ≠ [])
    (htracked : ∀ p ∈ m.peers, m.nextIndex.lookup p = some ((m.nextIndex.lookup p).getD 0) ∧
      1 ≤ (m.nextIndex.lookup p).getD 0 ∧ (m.nextIndex.lookup p).getD 0 ≤ m.log.length) (command : Command)
    (hsubjects : ∀ p ∈ others M (officeTaking c m command), ∃ n, s.nodes.lookup p = some n ∧
      Subject M (officeTaking c m command) p (stageTaking m p) n) :
    ∃ s', s.turn c (RaftNode.process · (.message (.clientCommand command))) = some s' ∧
      InOffice M (officeTaking c m command) (stageTaking m) s' := by
  have hm' := command_sent hidle hrole hpeers htracked command s.now
  have hsends : ((m.peers.map fun p => ((p, .appendEntries (appendFrom m.currentTerm m.id
      (m.log ++ [m.entryOf command]) ((m.nextIndex.lookup p).getD 0) m.commitIndex)) : Envelope) : List Envelope) :
        Multiset Envelope) =
      ∑ p ∈ others M (officeTaking c m command), (stageTaking m p).mail (officeTaking c m command) p := by
    have hsum := sum_peers (o := officeTaking c m command) hok.mem fun p =>
      (p, .appendEntries (appendFrom m.currentTerm c (m.log ++ [m.entryOf command])
        ((m.nextIndex.lookup p).getD 0) m.commitIndex))
    have hpeersOf : m.peers = M.peersOf c := hok.peers_eq
    rw [hok.id_eq, hpeersOf]
    exact hsum.symm.trans (Finset.sum_congr rfl fun p _ => (zero_add _).symm)
  obtain ⟨s', hs', hturned⟩ := Simulation.turn_of_healthy ht (RaftNode.process · (.message (.clientCommand command)))
    hm hm' fun e he => mail_ne_timeout (o := officeTaking c m command) (P := others M (officeTaking c m command))
      (stageTaking m) (hsends ▸ Multiset.mem_coe.mpr he)
  refine ⟨s', hs', hturned.healthy, ⟨_, hturned.self, rfl, rfl, rfl, le_rfl, Or.inr ⟨hrole, hleader, fun p hp => ?_,
    fun hall _ => ?_⟩⟩, fun p hp => ?_, ?_⟩
  · obtain ⟨hk, hpos, hle⟩ := htracked p ((mem_peers hok).mpr hp)
    refine ⟨hk, hpos, ?_, le_rfl, ?_⟩
    · change _ ≤ (m.log ++ [_]).length
      rw [List.length_append]
      exact hle.trans (Nat.le_add_right ..)
    · change _ < (m.log ++ [_]).length
      rw [List.length_append]
      exact Nat.lt_add_right _ hok.commit_lt
  · obtain ⟨p, hp⟩ := List.exists_mem_of_ne_nil _ hpeers
    cases hall p ((mem_peers (o := officeTaking c m command) hok).mp hp)
  · obtain ⟨n, hn, hsub⟩ := hsubjects p hp
    exact ⟨n, (hturned.others p (Finset.ne_of_mem_erase hp)).trans hn, hsub⟩
  · rw [hturned.mail, hmail, add_zero]
    exact hsends

theorem Agreed.submitCommand [Bincode] {term : Nat} {log : List LogEntry} (h : Agreed s c term log)
    (hdb : Storage.NeverPanics D)
    (hs : Sane M config s) (command : Command) : ∃ s' o st, s.submitCommand c command = some s' ∧ InOffice M o st s' ∧
      o.chief = c ∧ o.term = term ∧ o.log = log ++ [⟨term, .command (LogRecord.new 0 command)⟩] ∧
      (log.getLast?.map LogEntry.term = some term → log.length ≤ o.commit + 1) ∧
      ∑ p ∈ others M o, (st p).cost o p ≤ (M.members.card - 1) * 2 := by
  obtain ⟨a, hinv, hnode⟩ := hs.node
  obtain ⟨m, hm, hrole, happlied⟩ := h.leader
  obtain ⟨hok, hpending⟩ := hnode c m hm
  have hsubjects : ∀ p ∈ others M (officeTaking c m command), ∃ n, s.nodes.lookup p = some n ∧
      Subject M (officeTaking c m command) p (stageTaking m p) n := fun p hp => h.subjects hs hm command hp
  obtain ⟨hterm, hleader, hlog⟩ := h.nodes c m hm
  obtain ⟨-, hsteady, -⟩ := hs.orderly.sound.nodes c m hm
  subst hterm hlog
  have hidle : ({ m with crashPoints := [] } : RaftNode D).Idle := ⟨hpending, h.rest.sent c m hm⟩
  have htracked : ∀ p ∈ m.peers, m.nextIndex.lookup p = some ((m.nextIndex.lookup p).getD 0) ∧
      1 ≤ (m.nextIndex.lookup p).getD 0 ∧ (m.nextIndex.lookup p).getD 0 ≤ m.log.length := by
    intro p hp
    obtain ⟨k, hk, hpos, hle⟩ := hsteady.tracked hrole p hp
    rw [hk]
    exact ⟨rfl, hpos, hle⟩
  -- the mark in the record of the run changes nothing else
  have hmarked : (s.mark (.submitted c (c ∈ s.disabledNodes) ((s.nodes.lookup c).map RaftNode.role))).Healthy :=
    h.rest.healthy.of_frame rfl
  have htakes : ∃ s', s.submitCommand c command = some s' ∧
      InOffice M (officeTaking c m command) (stageTaking m) s' := by
    by_cases hpeers : m.peers = []
    · exact takes_alone hdb hok hmarked h.rest.mail hm hidle hrole hleader hpeers command
    · exact takes_sending hok hmarked h.rest.mail hm hidle hrole hleader hpeers htracked command hsubjects
  obtain ⟨s', hs', hoffice⟩ := htakes
  refine ⟨s', _, _, hs', hoffice, rfl, rfl, rfl, fun hown => (happlied hown).1, ?_⟩
  -- nobody has to be asked twice
  rw [← Finset.card_erase_of_mem hok.mem, ← smul_eq_mul]
  refine Finset.sum_le_card_nsmul _ _ _ fun p hp => ?_
  have hle := (htracked p ((mem_peers (o := officeTaking c m command) hok).mpr hp)).2.2
  change 0 + (2 * ((m.nextIndex.lookup p).getD 0 - m.log.length) + 2) ≤ 2
  omega

theorem exec_pair [Bincode] {first second : Operation} {s₁ : Simulation D} (h₁ : s.perform first = some s₁)
    (hfits₁ : s₁.overflowed = false) (h : s₁.perform second = some s') (hfits : s'.overflowed = false) :
    s.exec [first, second] = some s' := by
  change ((s.operate first).bind fun s => (s.operate second).bind some) = some s'
  rw [Simulation.operate_eq_some.mpr ⟨h₁, hfits₁⟩, Option.bind_some, Simulation.operate_eq_some.mpr ⟨h, hfits⟩,
    Option.bind_some]

theorem AtRest.elects [Bincode] (h : AtRest s) (hdb : Storage.NeverPanics D) (hs : Sane M config s)
    (hm : s.nodes.lookup c = some m)
    (hbest : ∀ id n, s.nodes.lookup id = some n → n.currentTerm ≤ m.currentTerm ∧ M.setting.UpToDate m.log n.log)
    (hsize : (M.members.card - 1) * (2 * m.log.length + 2) ≤ 10000) (hp : Punctual slack latest s)
    (hlast : latest + ((M.members.card - 1) * (2 * m.log.length + 2) + 1) * slack ≤ Platform.lastInstant) : ∃ s',
      s.exec [.startElection c, .runUntilIdle] = some s' ∧ Sane M config s' ∧
      Punctual slack (latest + ((M.members.card - 1) * (2 * m.log.length + 2) + 1) * slack) s' ∧
      Agreed s' c (m.currentTerm + 1) m.log := by
  obtain ⟨a, hinv, hnode⟩ := hs.node
  obtain ⟨hok, -⟩ := hnode c m hm
  obtain ⟨s₁, hs₁, hoffice⟩ := h.startElection hs hm hbest
  have hsane := hs.steps hdb (Simulation.startElection_steps hs₁)
  rw [budget_succ] at hlast ⊢
  have hp₁ := Punctual.startElection (by omega) (hp.mono (Nat.le_add_right latest slack))
    (Nat.add_le_add_right hp.clock slack) h.healthy hs₁
  have hcost : ∑ p ∈ others M ⟨c, m.currentTerm + 1, m.log, m.commitIndex, fun _ => 1⟩,
      (⟨.asked, .idle⟩ : Stage).cost ⟨c, m.currentTerm + 1, m.log, m.commitIndex, fun _ => 1⟩ p ≤
        (M.members.card - 1) * (2 * m.log.length + 2) := by
    have hpos := hok.logOk.length_pos
    rw [← Finset.card_erase_of_mem hok.mem, ← smul_eq_mul]
    refine Finset.sum_le_card_nsmul _ _ _ fun p _ => ?_
    change 2 + (2 * (m.log.length - 1) + 2) ≤ 2 * m.log.length + 2
    omega
  obtain ⟨s', hs', hdone, hsane', hevents, hp', hleads⟩ := hoffice.runUntilIdle hdb hsane hcost hsize hp₁ hlast
  refine ⟨s', exec_pair hs₁ hp₁.fits hs' hp'.fits, hsane', hp', hdone.agreed hsane' hevents hleads fun hown => ?_⟩
  · -- no entry is of the new term yet
    obtain ⟨e, he, ht⟩ := Option.map_eq_some_iff.mp hown
    have hmem : e ∈ m.log := List.dropLast_subset _ (List.mem_of_getLast? he)
    have hold := (hinv.log_ok c).2.1 e (hok.log_eq ▸ hmem)
    rw [hok.term_eq] at hold
    change e.term ≤ m.currentTerm at hold
    change e.term = m.currentTerm + 1 at ht
    omega

variable {term : Nat} {log : List LogEntry}

theorem Agreed.replicates [Bincode] (h : Agreed s c term log) (hdb : Storage.NeverPanics D) (hs : Sane M config s)
    (hsize : (M.members.card - 1) * 2 ≤ 10000) (hp : Punctual slack latest s)
    (hlast : latest + ((M.members.card - 1) * 2 + 1) * slack ≤ Platform.lastInstant) (command : Command) : ∃ s',
      s.exec [.applyFault (.submitCommand c command), .runUntilIdle] = some s' ∧ Sane M config s' ∧
      Punctual slack (latest + ((M.members.card - 1) * 2 + 1) * slack) s' ∧
      Agreed s' c term (log ++ [⟨term, .command (LogRecord.new 0 command)⟩]) := by
  obtain ⟨s₁, o, st, hs₁, hoffice, hc, hterm, hlog, hcommit, hcost⟩ := h.submitCommand hdb hs command
  have hsane := hs.steps hdb (Simulation.submitCommand_steps hs₁)
  rw [budget_succ] at hlast ⊢
  have hp₁ := Punctual.submitCommand (by omega) (hp.mono (Nat.le_add_right latest slack))
    (Nat.add_le_add_right hp.clock slack) h.rest.healthy hs₁
  obtain ⟨s', hs', hdone, hsane', hevents, hp', hleads⟩ := hoffice.runUntilIdle hdb hsane hcost hsize hp₁ hlast
  refine ⟨s', exec_pair hs₁ hp₁.fits hs' hp'.fits, hsane', hp', ?_⟩
  have hagreed := hdone.agreed hsane' hevents hleads (by rw [hlog, List.dropLast_concat, hterm]; exact hcommit)
  rwa [hc, hterm, hlog] at hagreed

theorem Agreed.replicates_all [Bincode] (h : Agreed s c term log) (hdb : Storage.NeverPanics D) (hs : Sane M config s)
    (hsize : (M.members.card - 1) * 2 ≤ 10000) (hp : Punctual slack latest s) (commands : List Command)
    (hlast : latest + commands.length * (((M.members.card - 1) * 2 + 1) * slack) ≤ Platform.lastInstant) : ∃ s',
      s.exec (commands.flatMap fun command => [.applyFault (.submitCommand c command), .runUntilIdle]) = some s' ∧
      Sane M config s' ∧
      Agreed s' c term (log ++ commands.map fun command => ⟨term, .command (LogRecord.new 0 command)⟩) := by
  induction commands generalizing s log latest with
  | nil =>
    rw [List.map_nil, List.append_nil]
    exact ⟨s, rfl, hs, h⟩
  | cons command commands ih =>
    rw [List.length_cons, budget_succ] at hlast
    obtain ⟨s₁, hs₁, hsane, hp₁, hagreed⟩ := h.replicates hdb hs hsize hp (by omega) command
    obtain ⟨s', hs', hsane', hagreed'⟩ := ih hagreed hsane hp₁ hlast
    refine ⟨s', ?_, hsane', ?_⟩
    · rw [List.flatMap_cons, Simulation.exec, List.foldlM_append]
      change ((s.exec _).bind fun s => s.exec _) = some s'
      rw [hs₁, Option.bind_some, hs']
    · rwa [List.append_assoc] at hagreed'

end Runs

/-! From a new cluster on. -/

section Start
variable {D : Type} [Storage D] [Bincode] [FloatText] [Platform]
  {M : Membership} {ids : List NodeId} {draws : Nat → Nat}
  {s₀ s : Simulation D} {ops : List Operation}

theorem exec_sane (hdb : Storage.NeverPanics D) (hids : ids.Nodup) (hs₀ : Simulation.newCluster ids draws = some s₀)
    (hexec : s₀.exec ops = some s) : Sane (membership ids hids) .default s :=
  ⟨exec_orderly hdb hids hs₀ hexec, exec_clientless hs₀ hexec, fun id =>
    (exec_present hs₀ hexec id).trans (List.mem_toFinset.symm.trans Finset.mem_toList.symm)⟩

omit [FloatText] [Bincode] [Platform] in
theorem card_membership (hids : ids.Nodup) : (membership ids hids).members.card = ids.length :=
  List.toFinset_card_of_nodup hids

theorem atRest_newCluster (hs₀ : Simulation.newCluster ids draws = some s₀) : AtRest s₀ ∧
    ∀ id n, s₀.nodes.lookup id = some n → n.currentTerm = 0 ∧ n.log = [sentinel] := by
  obtain ⟨hevents, -, hnodes⟩ := newCluster_nodes hs₀
  have hhealthy : s₀.Healthy := by
    obtain ⟨nodes, -, rfl, -⟩ := newCluster_eq_some hs₀
    exact ⟨rfl, rfl, rfl, fun link policy hp => (by cases hp), rfl⟩
  have hfresh : ∀ id n, s₀.nodes.lookup id = some n → n.outbox = [] ∧ n.currentTerm = 0 ∧ n.log = [sentinel] := by
    intro id n hn
    obtain ⟨b, hb, rfl⟩ := hnodes id n hn
    obtain ⟨b', hb', hcore, hout⟩ := newInDir_empty (D := D) id (ids.filter (· ≠ id)) .default ⟨0, draws 0⟩
    obtain rfl := Option.some.inj (hb'.symm.trans hb)
    have hterm : b'.currentTerm = 0 := congrArg Core.currentTerm hcore
    have hlog : b'.log = [sentinel] := congrArg Core.log hcore
    exact ⟨(Simulation.setElectionTimeout_outbox ..).trans hout,
      (Simulation.setElectionTimeout_currentTerm ..).trans hterm, (Simulation.setElectionTimeout_log ..).trans hlog⟩
  exact ⟨⟨hhealthy, hevents, fun id n hn => (hfresh id n hn).1⟩, fun id n hn => (hfresh id n hn).2⟩

/-- No link is slower than `slack`, and no timeout of a node is longer. -/
structure Slack (ids : List NodeId) (s : Simulation D) (slack : Nat) : Prop where
  heartbeat : 100000000 ≤ slack
  timeouts : ∀ id ∈ ids, Simulation.electionTimeoutOf id ≤ slack
  delays : ∀ link policy, s.linkPolicies.lookup link = some policy → policy.delay.getD 0 ≤ slack

theorem Slack.punctual {slack : Nat} (h : Slack ids s slack) (hs₀ : Simulation.newCluster ids draws = some s₀)
    (hexec : s₀.exec ops = some s) (hevents : s.events = []) : Punctual slack s.clock s := by
  have hfits := exec_fits hs₀ hexec
  have hsteps := Simulation.exec_steps hexec
  refine ⟨hfits, h.heartbeat, h.delays, fun id n hn => ?_, (due_newCluster hs₀).steps hsteps hfits, le_rfl,
    fun e he => ?_⟩
  · have hid : id ∈ ids := (exec_present hs₀ hexec id).mp (by rw [hn]; rfl)
    exact ⟨_, persists_timeouts.steps (timeouts_newCluster hs₀) hsteps id n hn, h.timeouts id hid⟩
  · rw [hevents] at he
    cases he

end Start

section Runs
variable [FloatText] [Xxh3] [BloomSizing] [Bincode] [Platform] {ids : List NodeId} {draws : Nat → Nat}
  {s₀ s : Simulation Database} {ops : List Operation} {c : NodeId}

/-- Whatever was done to a new cluster: once all nodes and links are well again and nothing is in flight, a node that
stands for election with a log and a term that no other is ahead of is elected, and in the end all nodes follow it and
have its log, if the log is not too long to be sent within the limit on deliveries and before the last `Instant`. -/
theorem election_succeeds (hids : ids.Nodup) (hs₀ : Simulation.newCluster ids draws = some s₀)
    (hexec : s₀.exec ops = some s) (hrest : AtRest s) {m : RaftNode Database} (hm : s.nodes.lookup c = some m)
    (hbest : ∀ id n, s.nodes.lookup id = some n →
      n.currentTerm ≤ m.currentTerm ∧ (membership ids hids).setting.UpToDate m.log n.log)
    (hsize : (ids.length - 1) * (2 * m.log.length + 2) ≤ 10000) {slack : Nat} (hslack : Slack ids s slack)
    (hlast : s.clock + ((ids.length - 1) * (2 * m.log.length + 2) + 1) * slack ≤ Platform.lastInstant) :
    ∃ s', s.exec [.startElection c, .runUntilIdle] = some s' ∧ Agreed s' c (m.currentTerm + 1) m.log := by
  have hsane := exec_sane database_never_panics hids hs₀ hexec
  rw [← card_membership hids] at hsize hlast
  obtain ⟨s', hs', -, -, hagreed⟩ := hrest.elects database_never_panics hsane hm hbest hsize
    (hslack.punctual hs₀ hexec hrest.events) hlast
  exact ⟨s', hs', hagreed⟩

end Runs

section Concrete
open scoped Concrete
open Simulation

/-- Over slow links, node 1 leads and is cut off with a command; node 2 takes over and commits another one. -/
def diverge : List Operation := [.delayLink 1 2 5000000, .delayLink 2 1 3000000, .startElection 1, .runUntilIdle,
  .isolateNode 1, .applyFault (.submitCommand 1 (.set "a" (.int 1))), .startElection 2, .runUntilIdle,
  .applyFault (.submitCommand 2 (.set "b" (.int 2))), .runUntilIdle, .reconnectNode 1]

def cutOffLog : List LogEntry := [sentinel, ⟨1, .command (LogRecord.new 0 (.set "a" (.int 1)))⟩]

def takenOverLog : List LogEntry := [sentinel, ⟨2, .command (LogRecord.new 0 (.set "b" (.int 2)))⟩]

theorem diverge_run : ∃ s₀ s : Simulation Database, newCluster [1, 2, 3] (fun _ => 150) = some s₀ ∧
    s₀.exec diverge = some s ∧ AtRest s ∧ Slack [1, 2, 3] s 300000000 ∧ s.clock ≤ 1000000000 ∧
    s.nodeList.map (fun p => (p.1, p.2.currentTerm, p.2.log)) =
      [(1, 1, cutOffLog), (2, 2, takenOverLog), (3, 2, takenOverLog)] := by
  have hrun : ((newCluster [1, 2, 3] (fun _ => 150) : Option (Simulation Database)).bind fun s₀ =>
      (s₀.exec diverge).map fun s => decide (AtRest s ∧
        (∀ p ∈ s.linkPolicies.entries, p.2.delay.getD 0 ≤ 300000000) ∧ s.clock ≤ 1000000000 ∧
        s.nodeList.map (fun p => (p.1, p.2.currentTerm, p.2.log)) =
          [(1, 1, cutOffLog), (2, 2, takenOverLog), (3, 2, takenOverLog)])) = some true := by
    decide +kernel
  obtain ⟨s₀, s, hs₀, hs, hstate⟩ := run_of_map hrun
  obtain ⟨hrest, hdelays, hclock, hnodes⟩ := of_decide_eq_true hstate
  exact ⟨s₀, s, hs₀, hs, hrest, ⟨by decide, by decide, fun link policy hp => hdelays _ (AList.mem_lookup_iff.mp hp)⟩,
    hclock, hnodes⟩

/-- Node 2 is ahead of the others. -/
theorem diverge_best {s : Simulation Database} (hnodes : s.nodeList.map (fun p => (p.1, p.2.currentTerm, p.2.log)) =
      [(1, 1, cutOffLog), (2, 2, takenOverLog), (3, 2, takenOverLog)]) :
    ∃ m, s.nodes.lookup 2 = some m ∧ m.currentTerm = 2 ∧ m.log = takenOverLog ∧
      ∀ id n, s.nodes.lookup id = some n → n.currentTerm ≤ m.currentTerm ∧
        (membership [1, 2, 3] (by decide)).setting.UpToDate m.log n.log := by
  have hmem : (2, 2, takenOverLog) ∈ s.nodeList.map fun p => (p.1, p.2.currentTerm, p.2.log) := by
    rw [hnodes]
    simp
  obtain ⟨⟨id, m⟩, hm, heq⟩ := List.mem_map.mp hmem
  obtain ⟨rfl, hterm, hlog⟩ : id = 2 ∧ m.currentTerm = 2 ∧ m.log = takenOverLog := by simpa using heq
  refine ⟨m, mem_nodeList hm, hterm, hlog, fun id n hn => ?_⟩
  have hn' := List.mem_map_of_mem (f := fun p => (p.1, p.2.currentTerm, p.2.log)) (mem_nodeList_of_lookup hn)
  rw [hnodes] at hn'
  simp only [List.mem_cons, Prod.mk.injEq, List.not_mem_nil, or_false] at hn'
  rw [hterm, hlog]
  rcases hn' with ⟨-, ht, hl⟩ | ⟨-, ht, hl⟩ | ⟨-, ht, hl⟩
  · rw [ht, hl]
    exact ⟨by decide, .inl (by decide)⟩
  · rw [ht, hl]
    exact ⟨le_rfl, .inr ⟨rfl, le_rfl⟩⟩
  · rw [ht, hl]
    exact ⟨le_rfl, .inr ⟨rfl, le_rfl⟩⟩

theorem election_succeeds_diverged : ∃ s₀ s s' : Simulation Database, newCluster [1, 2, 3] (fun _ => 150) = some s₀ ∧
    s₀.exec diverge = some s ∧ s.exec [.startElection 2, .runUntilIdle] = some s' ∧ Agreed s' 2 3 takenOverLog := by
  obtain ⟨s₀, s, hs₀, hs, hrest, hslack, hclock, hnodes⟩ := diverge_run
  obtain ⟨m, hm, hterm, hlog, hbest⟩ := diverge_best hnodes
  obtain ⟨s', hs', hagreed⟩ := election_succeeds (by decide : [1, 2, 3].Nodup) hs₀ hs hrest hm hbest
    (by rw [hlog]; decide) hslack (by
      rw [hlog]
      exact (Nat.add_le_add_right hclock _).trans (by decide))
  rw [hterm, hlog] at hagreed
  exact ⟨s₀, s, s', hs₀, hs, hs', hagreed⟩

end Concrete

section Runs
variable [FloatText] [Xxh3] [BloomSizing] [Bincode] [Platform] {ids : List NodeId} {draws : Nat → Nat}
  {s₀ s : Simulation Database} {ops : List Operation} {c : NodeId}

/-- Whatever was done to a new cluster: once all follow a leader, every command that is submitted to it gets into the
log of all nodes, in the order of the submissions, and all but the last one are applied everywhere. -/
theorem commands_replicated (hids : ids.Nodup) (hs₀ : Simulation.newCluster ids draws = some s₀)
    (hexec : s₀.exec ops = some s) {term : Nat} {log : List LogEntry} (h : Agreed s c term log)
    (hsize : (ids.length - 1) * 2 ≤ 10000) {slack : Nat} (hslack : Slack ids s slack) (commands : List Command)
    (hlast : s.clock + commands.length * (((ids.length - 1) * 2 + 1) * slack) ≤ Platform.lastInstant) : ∃ s',
      s.exec (commands.flatMap fun command => [.applyFault (.submitCommand c command), .runUntilIdle]) = some s' ∧
      Agreed s' c term (log ++ commands.map fun command => ⟨term, .command (LogRecord.new 0 command)⟩) := by
  have hsane := exec_sane database_never_panics hids hs₀ hexec
  rw [← card_membership hids] at hsize hlast
  obtain ⟨s', hs', -, hagreed⟩ := h.replicates_all database_never_panics hsane hsize
    (hslack.punctual hs₀ hexec h.rest.events) commands hlast
  exact ⟨s', hs', hagreed⟩

end Runs

section Concrete
open scoped Concrete
open Simulation

theorem commands_replicated_diverged : ∃ s₀ s s' : Simulation Database, newCluster [1, 2, 3] (fun _ => 150) = some s₀ ∧
    s₀.exec (diverge ++ [.startElection 2, .runUntilIdle]) = some s ∧
    s.exec [.applyFault (.submitCommand 2 (.set "a" (.int 1))), .runUntilIdle,
      .applyFault (.submitCommand 2 (.set "b" (.int 2))), .runUntilIdle] = some s' ∧
    Agreed s' 2 3 (takenOverLog ++ [⟨3, .command (LogRecord.new 0 (.set "a" (.int 1)))⟩,
      ⟨3, .command (LogRecord.new 0 (.set "b" (.int 2)))⟩]) := by
  obtain ⟨s₀, s, hs₀, hs, hrest, hslack, hclock, hnodes⟩ := diverge_run
  obtain ⟨m, hm, hterm, hlog, hbest⟩ := diverge_best hnodes
  have hsane := exec_sane database_never_panics (by decide) hs₀ hs
  obtain ⟨s₁, hs₁, -, hp, hagreed⟩ := hrest.elects database_never_panics hsane hm hbest
    (by rw [card_membership, hlog]; decide) (hslack.punctual hs₀ hs hrest.events) (by
      rw [card_membership, hlog]
      exact (Nat.add_le_add_right hclock _).trans (by decide))
  rw [hterm, hlog] at hagreed
  rw [card_membership, hlog] at hp
  have hall : s₀.exec (diverge ++ [.startElection 2, .runUntilIdle]) = some s₁ := by
    rw [Simulation.exec, List.foldlM_append]
    exact Option.bind_eq_some_iff.mpr ⟨s, hs, hs₁⟩
  obtain ⟨s', hs', hdone⟩ := commands_replicated (by decide) hs₀ hall hagreed (by decide)
    ⟨hp.heartbeat, by decide, hp.delays⟩ [.set "a" (.int 1), .set "b" (.int 2)]
    ((Nat.add_le_add_right (hp.clock.trans (Nat.add_le_add_right hclock _)) _).trans (by decide))
  exact ⟨s₀, s₁, s', hs₀, hall, hs', hdone⟩

end Concrete
end KvRaft.Simulator
