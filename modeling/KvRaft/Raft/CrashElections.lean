import KvRaft.Raft.Elections

/-! Election safety with fixed membership across crashes. -/

namespace KvRaft
open RaftNode hiding id

section General
variable {D : Type} [Storage D] [Bincode]

def RaftNode.Input.membership : Input → Bool
  | .message (.addNode ..) | .message (.removeNode _) => true
  | _ => false

/-- What can happen in a run without membership changes: message deliveries, timeouts, restarts in
memory, and crashes between or inside handlers. -/
def Action.fixedMembership : Action → Bool
  | .process _ input _ => !input.membership
  | .crash _ (some (input, _)) _ => !input.membership
  | .crash _ none _ | .restart .. | .flush _ => true
  | .join .. => false

structure FixedOk (M : Membership) (c : Cluster D) : Prop where
  boot : c.boot = M.peersOf
  nodes : ∀ id n, c.nodes id = some n →
    id ∈ M.members ∧ n.id = id ∧ Plain (M.peersOf id) n ∧ ∃ b₀, Durable b₀ n
  network : ∀ e ∈ c.network, PlainMsg e.2

section Recovery

omit [Bincode] in
theorem replayPeer_commands (self : NodeId) (ps : List NodeId) {es : List LogEntry}
    (hes : ∀ e ∈ es, e.IsCommand) : es.foldl (replayPeer self) ps = ps := by
  induction es with
  | nil => rfl
  | cons e es ih =>
    obtain ⟨r, hr⟩ := hes e (List.mem_cons_self ..)
    rw [List.foldl_cons, replayPeer, hr]
    exact ih fun x hx => hes x (List.mem_cons_of_mem _ hx)

omit [Bincode] in
theorem load_votedFor_ne_zero (file : List Nat) : (RaftMeta.load file).votedFor ≠ some 0 := by
  unfold RaftMeta.load
  split
  · next v _ =>
    dsimp only
    split_ifs with hv
    · exact fun h => nomatch h
    · exact fun h => hv (Option.some.inj h)
  · exact fun h => nomatch h

variable {id : NodeId} {r : RaftNode D} {dir : Dir D} {ps : List NodeId} {config : Config}
  {now : Instant}

theorem Durable.newInDir [FloatText] (hr : RaftNode.newInDir dir id ps config now = some r) :
    Durable r.ballot r := by
  obtain ⟨-, hballot, -, -, hpoints, hmeta, -⟩ := newInDir_eq_some hr
  refine ⟨?_, ?_, .refl _, fun p hp => ?_⟩
  · rw [show r.votedFor = (RaftMeta.load dir.raftMeta).votedFor from congrArg Ballot.vote hballot]
    exact load_votedFor_ne_zero _
  · rw [hmeta, hballot]
  · rw [hpoints] at hp
    cases hp

theorem Plain.newInDir [FloatText] (hr : RaftNode.newInDir dir id ps config now = some r)
    (hfile : PlainFile dir.raftLog) : Plain ps r := by
  obtain ⟨-, -, -, hout, hpoints, -, hstore, hlog, hpeers⟩ := newInDir_eq_some hr
  obtain ⟨es, tail, hbytes, htail, hcmd⟩ := hfile
  obtain ⟨es', hpre, hopen⟩ := RaftLogStore.openFile_prefix es htail
  rw [hbytes, hopen] at hstore hlog
  have hcmd' : ∀ e ∈ es', e.IsCommand := fun e he => hcmd e (hpre.subset he)
  have hlogcmd : ∀ e ∈ r.log, e.IsCommand := by
    intro e he
    rw [hlog] at he
    split_ifs at he
    · rw [List.mem_singleton.mp he]
      exact ⟨_, rfl⟩
    · exact hcmd' e he
  refine ⟨?_, hlogcmd, ⟨es', hstore, hcmd'⟩, fun p hp => ?_, fun e he => ?_⟩
  · rw [hpeers]
    exact replayPeer_commands id ps fun e he =>
      hlogcmd e (List.mem_of_mem_drop (List.mem_of_mem_take he))
  · rw [hpoints] at hp
    cases hp
  · rw [hout] at he
    cases he

end Recovery

namespace FixedOk
variable {M : Membership} {V : Campaign → Prop} {h : Votes} {c c' : Cluster D} {config : Config}
  {id : NodeId} {n n' : RaftNode D}

theorem durableOk (hc : FixedOk M c) (hpos : ∀ i ∈ M.members, 1 ≤ i) : DurableOk c := by
  intro id n hn
  obtain ⟨hmem, -, -, hdur⟩ := hc.nodes id n hn
  exact ⟨Nat.one_le_iff_ne_zero.mp (hpos id hmem), hdur⟩

theorem delivered (hc : FixedOk M c) {input : Input} (hx : input.membership = false)
    (hav : c.available id input = true) {m : Message} (hi : input = .message m) : PlainMsg m := by
  subst hi
  rcases Bool.or_eq_true_iff.mp hav with hext | hmem
  · cases m with
    | addNode => cases hx
    | removeNode => cases hx
    | appendEntries => cases hext
    | _ => trivial
  · exact hc.network _ (of_decide_eq_true hmem)

theorem setNode (hc : FixedOk M c) (hn : c.nodes id = some n) (hid : n'.id = id)
    (hplain : Plain (M.peersOf id) n') {b₀ : Ballot} (hdur : Durable b₀ n')
    (hterm : n.currentTerm ≤ n'.currentTerm) :
    FixedOk M (c.setNode id n') ∧ ∀ j m, c.nodes j = some m →
      ∃ m', (c.setNode id n').nodes j = some m' ∧ m.currentTerm ≤ m'.currentTerm := by
  refine ⟨⟨hc.boot, fun j m hm => ?_, hc.network⟩, fun j m hm => ?_⟩
  · by_cases hj : j = id
    · subst hj
      obtain rfl := Option.some.inj ((c.setNode_self j n').symm.trans hm)
      exact ⟨(hc.nodes j n hn).1, hid, hplain, b₀, hdur⟩
    · exact hc.nodes j m ((c.setNode_of_ne n' hj).symm.trans hm)
  · by_cases hj : j = id
    · subst hj
      obtain rfl := Option.some.inj (hn.symm.trans hm)
      exact ⟨n', c.setNode_self j n', hterm⟩
    · exact ⟨m, (c.setNode_of_ne n' hj).trans hm, le_rfl⟩

theorem process [FloatText] (hc : FixedOk M c) (he : ElectionOk V h c) (hpos : ∀ i ∈ M.members, 1 ≤ i)
    {input : Input} {now : Instant} (hx : input.membership = false) (hn : c.nodes id = some n)
    (hav : c.available id input = true) (hs : n.process input now = some n') :
    Plain (M.peersOf id) n' ∧ Durable n.ballot n' := by
  obtain ⟨hmem, hid, hplain, b₀, hdur⟩ := hc.nodes id n hn
  refine ⟨hplain.process (fun m hi => hc.delivered hx hav hi) hs, hdur.process (fun _ hcast => hcast.ne_zero ?_ ?_) hs⟩
  · rw [hid]
    exact Nat.one_le_iff_ne_zero.mp (hpos id hmem)
  · exact fun r hi => he.candidate_ne_zero (hc.durableOk hpos) hav hi

theorem recover [FloatText] (hc : FixedOk M c) (hn : c.nodes id = some n) {dir : Dir D} {now : Instant}
    (hfile : PlainFile dir.raftLog) (hle : n.ballot.Le (metaBallot dir.raftMeta))
    (hs : c.recover config id dir now = some c') :
    FixedOk M c' ∧ ∀ j m, c.nodes j = some m →
      ∃ m', c'.nodes j = some m' ∧ m.currentTerm ≤ m'.currentTerm := by
  obtain ⟨r, hr, rfl⟩ := Option.map_eq_some_iff.mp hs
  obtain ⟨hid, hballot, -⟩ := newInDir_eq_some hr
  rw [hc.boot] at hr
  exact hc.setNode hn hid (.newInDir hr hfile) (.newInDir hr) (hballot ▸ hle).term_le

theorem step [FloatText] (hc : FixedOk M c) (he : ElectionOk V h c) (hpos : ∀ i ∈ M.members, 1 ≤ i) {x : Action}
    (hx : x.fixedMembership = true) (hs : Cluster.step config c x = some c') :
    FixedOk M c' ∧ ∀ j m, c.nodes j = some m →
      ∃ m', c'.nodes j = some m' ∧ m.currentTerm ≤ m'.currentTerm := by
  cases x with
  | process id input now =>
    simp only [Cluster.step, Option.bind_eq_bind, Option.bind_eq_some_iff, Option.guard_eq_some',
      Option.pure_def, Option.some.injEq] at hs
    obtain ⟨n, hn, -, hav, n', hn', rfl⟩ := hs
    obtain ⟨hplain, hdur⟩ := hc.process he hpos (Bool.not_eq_true' _ ▸ hx) hn hav hn'
    exact hc.setNode hn ((process_id input now hn').trans (hc.nodes id n hn).2.1) hplain hdur
      hdur.le.term_le
  | restart id now =>
    simp only [Cluster.step, Option.bind_eq_bind, Option.bind_eq_some_iff, Option.pure_def,
      Option.some.injEq] at hs
    obtain ⟨n, hn, rfl⟩ := hs
    obtain ⟨hmem, hid, hplain, b₀, hdur⟩ := hc.nodes id n hn
    refine hc.setNode hn hid ?_ (hdur.silent rfl hdur.synced fun p hp => Or.inl hp) le_rfl
    exact hplain.silent rfl rfl rfl (fun p hp => Or.inl hp) fun e he => absurd he List.not_mem_nil
  | flush id =>
    simp only [Cluster.step, Option.bind_eq_bind, Option.bind_eq_some_iff, Option.pure_def,
      Option.some.injEq] at hs
    obtain ⟨n, hn, rfl⟩ := hs
    obtain ⟨hmem, hid, hplain, b₀, hdur⟩ := hc.nodes id n hn
    have hdur' : Durable b₀ { n with outbox := [] } := hdur.silent rfl hdur.synced fun p hp => Or.inl hp
    have hplain' : Plain (M.peersOf id) { n with outbox := [] } :=
      hplain.silent rfl rfl rfl (fun p hp => Or.inl hp) fun e he => absurd he List.not_mem_nil
    obtain ⟨hok, hterms⟩ := hc.setNode hn (by exact hid) hplain' hdur' le_rfl
    refine ⟨⟨hok.boot, hok.nodes, fun e hmem => ?_⟩, hterms⟩
    rcases List.mem_append.mp hmem with hmem | hmem
    · exact hok.network e hmem
    · exact hplain.outbox e (List.mem_filter.mp hmem).1
  | crash id inside now =>
    cases inside with
    | none =>
      obtain ⟨n, hn, hs⟩ := Option.bind_eq_some_iff.mp hs
      obtain ⟨-, -, hplain, b₀, hdur⟩ := hc.nodes id n hn
      refine hc.recover hn hplain.plainFile ?_ hs
      rw [show metaBallot n.dir.raftMeta = n.ballot from hdur.synced]
      exact .refl _
    | some p =>
      obtain ⟨input, k⟩ := p
      simp only [Cluster.step, Option.bind_eq_bind, Option.bind_eq_some_iff,
        Option.guard_eq_some'] at hs
      obtain ⟨n, hn, -, hav, n', hn', point, hpoint, hs⟩ := hs
      obtain ⟨hplain, hdur⟩ := hc.process he hpos (Bool.not_eq_true' _ ▸ hx) hn hav hn'
      have hmem := List.mem_of_getElem? hpoint
      exact hc.recover hn (hplain.points _ hmem) (hdur.points _ hmem) hs
  | join => cases hx

theorem campaign (hc : FixedOk M c) {x : Action} {k : Campaign} (hk : c.campaignOf x = some k) :
    k.voters = M.members ∧ k.quorum = M.members.card / 2 + 1 := by
  cases x with
  | process id input now =>
    obtain ⟨n, hn, hk⟩ := Option.bind_eq_some_iff.mp hk
    split_ifs at hk
    obtain rfl := Option.some.inj hk
    obtain ⟨hmem, hid, hplain, -⟩ := hc.nodes id n hn
    refine ⟨?_, ?_⟩
    · change insert n.id n.peers.toFinset = _
      ext p
      rw [hid, hplain.peers_eq, Finset.mem_insert, List.mem_toFinset, M.mem_peersOf id hmem]
      constructor
      · rintro (rfl | hp)
        · exact hmem
        · exact hp.1
      · intro hp
        by_cases hpi : p = id
        · exact Or.inl hpi
        · exact Or.inr ⟨hp, hpi⟩
    · change (n.peers.length + 1) / 2 + 1 = _
      rw [hplain.peers_eq, M.length_peersOf hmem]
  | _ => cases hk

theorem start [FloatText] (M : Membership) (config : Config) (now : Instant) :
    FixedOk M (M.start config now : Cluster D) := by
  refine ⟨rfl, fun id n hn => ?_, fun e he => nomatch he⟩
  change (if id ∈ M.members then _ else _) = _ at hn
  split_ifs at hn with hid
  exact ⟨hid, (newInDir_eq_some hn).1,
    .newInDir hn ⟨[], [], rfl, Or.inl rfl, fun e he => nomatch he⟩, _, .newInDir hn⟩

end FixedOk

section Runs
variable {M : Membership} {h : Votes} {c c' : Cluster D} {config : Config}

def Membership.Whole (M : Membership) (k : Campaign) : Prop :=
  k.voters = M.members ∧ k.quorum = M.members.card / 2 + 1

omit [Bincode] in
theorem Membership.Whole.overlap {k k' : Campaign} (hk : M.Whole k) (hk' : M.Whole k') :
    k.Overlap k' := by
  rw [Campaign.Overlap, hk.1, hk'.1, hk.2, hk'.2, Finset.union_self]
  omega

theorem FixedOk.exec [FloatText] (hpos : ∀ i ∈ M.members, 1 ≤ i) (hc : FixedOk M c) (he : ElectionOk M.Whole h c)
    {as : List Action} (has : ∀ x ∈ as, x.fixedMembership = true)
    (hs : Cluster.exec config c as = some c') :
    FixedOk M c' ∧ (∃ h', h.Le h' ∧ ElectionOk M.Whole h' c') ∧ ∀ j m, c.nodes j = some m →
      ∃ m', c'.nodes j = some m' ∧ m.currentTerm ≤ m'.currentTerm := by
  refine Fold.foldlM_invariant (P := fun b => FixedOk M b ∧ (∃ h', h.Le h' ∧ ElectionOk M.Whole h' b) ∧
    ∀ j m, c.nodes j = some m → ∃ m', b.nodes j = some m' ∧ m.currentTerm ≤ m'.currentTerm) hs
    ⟨hc, ⟨h, .refl h, he⟩, fun j m hm => ⟨m, hm, le_rfl⟩⟩ ?_
  rintro b x b' hx ⟨hb, ⟨h₁, hle, hb₁⟩, hterms⟩ hstep
  obtain ⟨hb', hterms'⟩ := hb.step hb₁ hpos (has x hx) hstep
  obtain ⟨h₂, hle', hb₂⟩ := hb₁.step (fun k hk => hb.campaign hk)
    (fun _ _ _ _ => hb.durableOk hpos) hstep
  refine ⟨hb', ⟨h₂, hle.trans hle', hb₂⟩, fun j m hm => ?_⟩
  obtain ⟨m₁, hm₁, ht₁⟩ := hterms j m hm
  obtain ⟨m₂, hm₂, ht₂⟩ := hterms' j m₁ hm₁
  exact ⟨m₂, hm₂, ht₁.trans ht₂⟩

theorem FixedOk.of_visits [FloatText] (hpos : ∀ i ∈ M.members, 1 ≤ i) {now : Instant} {as : List Action}
    (has : ∀ x ∈ as, x.fixedMembership = true)
    (hc : Cluster.VisitsInOrder config (M.start config now) as c c') :
    (∃ h h', h.Le h' ∧ ElectionOk M.Whole h c ∧ ElectionOk M.Whole h' c') ∧
      ∀ j m, c.nodes j = some m → ∃ m', c'.nodes j = some m' ∧ m.currentTerm ≤ m'.currentTerm := by
  obtain ⟨before, between, after, rfl, hb, hb'⟩ := hc
  obtain ⟨hfix, ⟨h, -, hel⟩, -⟩ := FixedOk.exec hpos (FixedOk.start M config now)
    (ElectionOk.start M.Whole M config now)
    (fun x hx => has x (List.mem_append_left _ (List.mem_append_left _ hx))) hb
  obtain ⟨-, ⟨h', hle, hel'⟩, hterms⟩ := hfix.exec hpos hel
    (fun x hx => has x (List.mem_append_left _ (List.mem_append_right _ hx))) hb'
  exact ⟨⟨h, h', hle, hel, hel'⟩, hterms⟩

omit [Bincode] in
/-- Two leaders of one term, one in each of two states of a run, are the same node. -/
theorem ElectionOk.leader_unique {V : Campaign → Prop} {h h' : Votes} (hle : h.Le h')
    (hc : ElectionOk V h c) (hc' : ElectionOk V h' c') {i j : NodeId} {n m : RaftNode D}
    (hn : c.nodes i = some n) (hm : c'.nodes j = some m) (hr : n.role = .leader)
    (hr' : m.role = .leader) (ht : n.currentTerm = m.currentTerm)
    (hover : ∀ k k', V k → V k' → k.term = k'.term → k.node ≠ k'.node → k.Overlap k') : i = j := by
  have hi := ((hc.nodes i n hn).leader hr).mono hle
  have hj := (hc'.nodes j m hm).leader hr'
  rw [← ht] at hj
  refine hi.unique hj fun k k' hk hk' hne => ?_
  obtain ⟨hnode, hterm, hV⟩ := hc'.campaigns _ _ _ hk
  obtain ⟨hnode', hterm', hV'⟩ := hc'.campaigns _ _ _ hk'
  exact hover k k' hV hV' (hterm.trans hterm'.symm) (hnode ▸ hnode' ▸ hne)

/-- Election safety across crashes: with fixed membership and node ids from 1, at most one node is
ever leader of a term, and no node's term ever decreases. -/
theorem election_safety [FloatText] (M : Membership) (hpos : ∀ i ∈ M.members, 1 ≤ i) (config : Config)
    (now : Instant) {as : List Action} (has : ∀ x ∈ as, x.fixedMembership = true) :
    (∀ (c c' : Cluster D) i j n m, Cluster.Visits config (M.start config now) as c →
      Cluster.Visits config (M.start config now) as c' → c.nodes i = some n → c'.nodes j = some m →
      n.role = .leader → m.role = .leader → n.currentTerm = m.currentTerm → i = j) ∧
    ∀ (c c' : Cluster D) i n m, Cluster.VisitsInOrder config (M.start config now) as c c' →
      c.nodes i = some n → c'.nodes i = some m → n.currentTerm ≤ m.currentTerm := by
  refine ⟨fun c c' i j n m hc hc' hn hm hr hr' ht => ?_, fun c c' i n m hc hn hm => ?_⟩
  · rcases hc.order hc' with horder | horder
    · obtain ⟨⟨h, h', hle, hel, hel'⟩, -⟩ := FixedOk.of_visits hpos has horder
      exact hel.leader_unique hle hel' hn hm hr hr' ht fun k k' hk hk' _ _ => hk.overlap hk'
    · obtain ⟨⟨h, h', hle, hel, hel'⟩, -⟩ := FixedOk.of_visits hpos has horder
      exact (hel.leader_unique hle hel' hm hn hr' hr ht.symm fun k k' hk hk' _ _ =>
        hk.overlap hk').symm
  · obtain ⟨-, hterms⟩ := FixedOk.of_visits hpos has hc
    obtain ⟨m', hm', ht⟩ := hterms i n hn
    obtain rfl := Option.some.inj (hm.symm.trans hm')
    exact ht

end Runs
end General

section Concrete
open scoped Concrete

/-- The leader crashes inside its next election, after the new term is on disk. -/
theorem election_safety_crash : ∃ (c c' : Cluster Database) (n m : RaftNode Database),
    Cluster.exec .default (Membership.three.start .default ⟨0, 0⟩) (firstElection ⟨0, 0⟩) = some c ∧
    Cluster.step .default c (.crash 1 (some (.message .timeout, 0)) ⟨0, 0⟩) = some c' ∧
    c.nodes 1 = some n ∧ c'.nodes 1 = some m ∧ n.role = .leader ∧ m.role = .follower ∧
    n.currentTerm ≤ m.currentTerm := by
  have hrun : ((Cluster.exec .default (Membership.three.start .default ⟨0, 0⟩ : Cluster Database)
      (firstElection ⟨0, 0⟩)).bind fun c => (c.nodes 1).bind fun n =>
        (Cluster.step .default c (.crash 1 (some (.message .timeout, 0)) ⟨0, 0⟩)).bind fun c' =>
          (c'.nodes 1).map fun m => (n.role, m.role)) = some (.leader, .follower) := by
    decide +kernel
  obtain ⟨c, hc, hrun⟩ := Option.bind_eq_some_iff.mp hrun
  obtain ⟨n, hn, hrun⟩ := Option.bind_eq_some_iff.mp hrun
  obtain ⟨c', hc', hrun⟩ := Option.bind_eq_some_iff.mp hrun
  obtain ⟨m, hm, hrun⟩ := Option.map_eq_some_iff.mp hrun
  obtain ⟨hrole, hrole'⟩ := Prod.ext_iff.mp hrun
  have hone : Cluster.exec .default c [.crash 1 (some (.message .timeout, 0)) ⟨0, 0⟩] = some c' := by
    rw [Cluster.exec, List.foldlM_cons, hc']
    rfl
  refine ⟨c, c', n, m, hc, hc', hn, hm, hrole, hrole', ?_⟩
  exact (election_safety Membership.three (by decide) .default ⟨0, 0⟩
    (show ∀ x ∈ firstElection ⟨0, 0⟩ ++ [.crash 1 (some (.message .timeout, 0)) ⟨0, 0⟩],
      x.fixedMembership = true by decide)).2
    c c' 1 n m ⟨_, _, [], (List.append_nil _).symm, hc, hone⟩ hn hm

end Concrete
end KvRaft
