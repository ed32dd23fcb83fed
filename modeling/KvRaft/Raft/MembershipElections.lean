import KvRaft.Raft.CrashElections

/-! Elections while the membership changes. Every node uses its own peer list, so two candidates of
one term may be elected by quorums that do not meet. -/

namespace KvRaft
open RaftNode hiding id

section General
variable [FloatText] {D : Type} [Storage D] [Bincode]

/-- What can happen in a run with membership changes: everything but crashes. -/
def Action.running : Action → Bool
  | .crash .. => false
  | _ => true

def Cluster.JoinsPresent (config : Config) : Cluster D → List Action → Prop
  | _, [] => True
  | c, x :: xs => (∀ id peers now, x = .join id peers now →
      ∀ p, p ∈ peers ↔ (c.nodes p).isSome = true) ∧
      ∀ c', step config c x = some c' → JoinsPresent config c' xs

def joinsListed : List NodeId → List Action → Bool
  | _, [] => true
  | present, .join id peers _ :: xs =>
    peers ⊆ present && present ⊆ peers && joinsListed (id :: present) xs
  | present, _ :: xs => joinsListed present xs

def Action.joins : Action → Option NodeId
  | .join id .. => some id
  | _ => none

section Runs
variable {config : Config} {h : Votes} {c c' : Cluster D} {V : Campaign → Prop}

theorem ElectionOk.exec {as : List Action} (has : ∀ x ∈ as, x.running = true)
    (hV : ∀ k ∈ c.campaigns config as, V k) (hc : ElectionOk V h c)
    (hs : Cluster.exec config c as = some c') : ∃ h', h.Le h' ∧ ElectionOk V h' c' := by
  induction as generalizing c h with
  | nil =>
    obtain rfl := Option.some.inj hs
    exact ⟨h, .refl h, hc⟩
  | cons x xs ih =>
    rw [Cluster.exec, List.foldlM_cons] at hs
    obtain ⟨c₁, hstep, hrest⟩ := Option.bind_eq_some_iff.mp hs
    have hcamp : c.campaigns config (x :: xs) =
        (c.campaignOf x).toList ++ c₁.campaigns config xs := by
      rw [Cluster.campaigns, hstep]
      rfl
    obtain ⟨h₁, hle, hc₁⟩ := hc.step
      (fun k hk => hV k (hcamp ▸ List.mem_append_left _ (Option.mem_toList.mpr hk)))
      (fun id inside now hx => by
        have hrun := has x (List.mem_cons_self ..)
        rw [hx] at hrun
        cases hrun) hstep
    obtain ⟨h₂, hle', hc₂⟩ := ih (fun y hy => has y (List.mem_cons_of_mem _ hy))
      (fun k hk => hV k (hcamp ▸ List.mem_append_right _ hk)) hc₁ hrest
    exact ⟨h₂, hle.trans hle', hc₂⟩

theorem Cluster.campaigns_append {as bs : List Action} (hs : exec config c as = some c') :
    c.campaigns config (as ++ bs) = c.campaigns config as ++ c'.campaigns config bs := by
  induction as generalizing c with
  | nil =>
    obtain rfl := Option.some.inj hs
    rfl
  | cons x xs ih =>
    rw [exec, List.foldlM_cons] at hs
    obtain ⟨c₁, hstep, hrest⟩ := Option.bind_eq_some_iff.mp hs
    rw [List.cons_append, campaigns, campaigns, hstep, Option.map_some, Option.map_some,
      Option.getD_some, Option.getD_some, ih hrest, List.append_assoc]

theorem Cluster.present_step {x : Action} (hs : step config c x = some c') (p : NodeId) :
    (c'.nodes p).isSome = true ↔ x.joins = some p ∨ (c.nodes p).isSome = true := by
  have hset : ∀ (d : Cluster D) (i : NodeId) (n : RaftNode D), (((d.setNode i n).nodes p).isSome = true ↔
      i = p ∨ (d.nodes p).isSome = true) := fun d i n => by
    by_cases hp : p = i
    · subst hp
      rw [setNode_self]
      simp
    · rw [setNode_of_ne _ _ hp]
      simp [Ne.symm hp]
  have hold : ∀ {i : NodeId} {n : RaftNode D}, c.nodes i = some n →
      (i = p ∨ (c.nodes p).isSome = true ↔ (c.nodes p).isSome = true) := fun hn =>
    ⟨by rintro (rfl | h); exacts [hn ▸ rfl, h], Or.inr⟩
  have hjoins : ∀ {P : Prop}, (none = some p ∨ P) ↔ P := by simp
  cases x with
  | process id input now =>
    obtain ⟨n, hn, -, n', -, rfl⟩ := step_process.mp hs
    exact (hset _ _ _).trans ((hold hn).trans hjoins.symm)
  | restart id now =>
    obtain ⟨n, hn, rfl⟩ := step_restart.mp hs
    exact (hset _ _ _).trans ((hold hn).trans hjoins.symm)
  | flush id =>
    obtain ⟨n, hn, rfl⟩ := step_flush.mp hs
    exact (hset _ _ _).trans ((hold hn).trans hjoins.symm)
  | crash id inside now =>
    obtain ⟨n, -, r, hn, -, rfl⟩ := step_crash hs
    exact (hset _ _ _).trans ((hold hn).trans hjoins.symm)
  | join id peers now =>
    obtain ⟨-, r, -, rfl⟩ := step_join.mp hs
    rw [hset, Action.joins, Option.some.injEq]

theorem Cluster.JoinsPresent.of_listed {as : List Action} (present : List NodeId)
    (hpresent : ∀ p, p ∈ present ↔ (c.nodes p).isSome = true) (h : joinsListed present as = true) :
    JoinsPresent config c as := by
  induction as generalizing c present with
  | nil => trivial
  | cons x xs ih =>
    cases x with
    | join id peers now =>
      simp only [joinsListed, Bool.and_eq_true, decide_eq_true_eq] at h
      obtain ⟨⟨hsub, hsup⟩, hrest⟩ := h
      refine ⟨fun _ _ _ hx p => ?_, fun c' hs => ih _ (fun p => ?_) hrest⟩
      · cases hx
        rw [← hpresent]
        exact ⟨fun hp => hsub hp, fun hp => hsup hp⟩
      · rw [Cluster.present_step hs, ← hpresent, List.mem_cons, Action.joins, Option.some.injEq, eq_comm]
    | _ =>
      refine ⟨fun _ _ _ hx => (nomatch hx), fun c' hs => ih _ (fun p => ?_) h⟩
      rw [Cluster.present_step hs, ← hpresent]
      simp [Action.joins]

/-- With membership changes: when any two campaigns of one term in a run have quorums that must
meet, at most one node is ever leader of a term. -/
theorem leader_unique_of_overlap (M : Membership) (config : Config) (now : Instant)
    {as : List Action} (has : ∀ x ∈ as, x.running = true)
    (hover : ∀ k ∈ (M.start config now : Cluster D).campaigns config as,
      ∀ k' ∈ (M.start config now : Cluster D).campaigns config as, k.term = k'.term →
        k.node ≠ k'.node → k.Overlap k') {c c' : Cluster D}
    (hc : Cluster.Visits config (M.start config now) as c)
    (hc' : Cluster.Visits config (M.start config now) as c') {i j : NodeId} {n m : RaftNode D}
    (hn : c.nodes i = some n) (hm : c'.nodes j = some m) (hr : n.role = .leader)
    (hr' : m.role = .leader) (ht : n.currentTerm = m.currentTerm) : i = j := by
  set V : Campaign → Prop := fun k => k ∈ (M.start config now : Cluster D).campaigns config as with hV
  have key : ∀ {b b' : Cluster D}, Cluster.VisitsInOrder config (M.start config now) as b b' →
      ∃ h h' : Votes, h.Le h' ∧ ElectionOk V h b ∧ ElectionOk V h' b' := by
    rintro b b' ⟨before, between, after, has', hb, hb'⟩
    have hcamp : (M.start config now : Cluster D).campaigns config as =
        (M.start config now : Cluster D).campaigns config before ++
          (b.campaigns config between ++ b'.campaigns config after) := by
      rw [has', List.append_assoc, Cluster.campaigns_append hb, Cluster.campaigns_append hb']
    obtain ⟨h, -, hel⟩ := ElectionOk.exec (V := V)
      (fun x hx => has x (has' ▸ List.mem_append_left _ (List.mem_append_left _ hx)))
      (fun k hk => by rw [hV, hcamp]; exact List.mem_append_left _ hk)
      (ElectionOk.start V M config now) hb
    obtain ⟨h', hle, hel'⟩ := ElectionOk.exec
      (fun x hx => has x (has' ▸ List.mem_append_left _ (List.mem_append_right _ hx)))
      (fun k hk => by
        rw [hV, hcamp]
        exact List.mem_append_right _ (List.mem_append_left _ hk)) hel hb'
    exact ⟨h, h', hle, hel, hel'⟩
  rcases hc.order hc' with horder | horder
  · obtain ⟨h, h', hle, hel, hel'⟩ := key horder
    exact hel.leader_unique hle hel' hn hm hr hr' ht fun k k' hk hk' => hover k hk k' hk'
  · obtain ⟨h, h', hle, hel, hel'⟩ := key horder
    exact (hel.leader_unique hle hel' hm hn hr' hr ht.symm fun k k' hk hk' => hover k hk k' hk').symm

end Runs
end General

section Concrete
open scoped Concrete

/-- Nodes 1 and 3 stand in term 2, node 1 with node 4 as a new peer. -/
def oneChange (now : Instant) : List Action := firstElection now ++
  [.process 1 (.message (.addNode 4 "")) now, .flush 1,
    .process 2 (.message (.appendEntries ⟨1, 1, 0, 0, [⟨1, .addNode 4 ""⟩], 0⟩)) now, .flush 2,
    .process 1 (.message (.appendEntriesResponse ⟨1, 2, true, 1⟩)) now,
    .process 3 (.message (.appendEntries ⟨1, 1, 0, 0, [⟨1, .addNode 4 ""⟩], 0⟩)) now,
    .join 4 [1, 2, 3] now,
    .process 1 (.message .timeout) now, .flush 1, .process 3 (.message .timeout) now, .flush 3,
    .process 4 (.message (.requestVote ⟨2, 1, 1, 1⟩)) now, .flush 4,
    .process 2 (.message (.requestVote ⟨2, 1, 1, 1⟩)) now, .flush 2,
    .process 1 (.message (.requestVoteResponse ⟨2, 4, true⟩)) now,
    .process 1 (.message (.requestVoteResponse ⟨2, 2, true⟩)) now]

theorem leader_unique_of_overlap_one_change : ∃ (c : Cluster Database) (n : RaftNode Database),
    Cluster.exec .default (Membership.three.start .default ⟨0, 0⟩) (oneChange ⟨0, 0⟩) = some c ∧
    c.nodes 1 = some n ∧ n.role = .leader ∧
    ∀ j m, c.nodes j = some m → m.role = .leader → n.currentTerm = m.currentTerm → 1 = j := by
  have hrun : ((Cluster.exec .default (Membership.three.start .default ⟨0, 0⟩ : Cluster Database)
      (oneChange ⟨0, 0⟩)).bind fun c => (c.nodes 1).map RaftNode.role) = some .leader := by
    decide +kernel
  obtain ⟨c, hc, hrun⟩ := Option.bind_eq_some_iff.mp hrun
  obtain ⟨n, hn, hrole⟩ := Option.map_eq_some_iff.mp hrun
  have hvisit : Cluster.Visits .default (Membership.three.start .default ⟨0, 0⟩) (oneChange ⟨0, 0⟩) c :=
    ⟨_, [], (List.append_nil _).symm, hc⟩
  exact ⟨c, n, hc, hn, hrole, fun j m hm hr ht => leader_unique_of_overlap Membership.three .default ⟨0, 0⟩
    (by decide) (by decide +kernel) hvisit hvisit hn hm hrole hr ht⟩

/-- Node 1 alone has applied the arrival of nodes 4 and 5 when it stands in term 2 with their votes,
and node 3 stands in the same term with the vote of node 2. -/
def twoChanges (now : Instant) : List Action := firstElection now ++
  [.process 1 (.message (.addNode 4 "")) now, .process 1 (.message (.addNode 5 "")) now, .flush 1,
    .process 2 (.message (.appendEntries ⟨1, 1, 0, 0, [⟨1, .addNode 4 ""⟩, ⟨1, .addNode 5 ""⟩], 0⟩)) now,
    .process 3 (.message (.appendEntries ⟨1, 1, 0, 0, [⟨1, .addNode 4 ""⟩, ⟨1, .addNode 5 ""⟩], 0⟩)) now,
    .flush 2, .process 1 (.message (.appendEntriesResponse ⟨1, 2, true, 2⟩)) now,
    .join 4 [1, 2, 3] now, .join 5 [1, 2, 3, 4] now,
    .process 1 (.message .timeout) now, .flush 1,
    .process 4 (.message (.requestVote ⟨2, 1, 2, 1⟩)) now, .flush 4,
    .process 5 (.message (.requestVote ⟨2, 1, 2, 1⟩)) now, .flush 5,
    .process 1 (.message (.requestVoteResponse ⟨2, 4, true⟩)) now,
    .process 1 (.message (.requestVoteResponse ⟨2, 5, true⟩)) now,
    .process 3 (.message .timeout) now, .flush 3,
    .process 2 (.message (.requestVote ⟨2, 3, 2, 1⟩)) now, .flush 2,
    .process 3 (.message (.requestVoteResponse ⟨2, 2, true⟩)) now]

theorem two_leaders_in_one_term : ∃ (c : Cluster Database) (n m : RaftNode Database),
    (∀ x ∈ twoChanges ⟨0, 0⟩, x.running = true) ∧
    Cluster.JoinsPresent .default (Membership.three.start .default ⟨0, 0⟩ : Cluster Database)
      (twoChanges ⟨0, 0⟩) ∧
    Cluster.exec .default (Membership.three.start .default ⟨0, 0⟩) (twoChanges ⟨0, 0⟩) = some c ∧
    c.nodes 1 = some n ∧ c.nodes 3 = some m ∧ n.role = .leader ∧ m.role = .leader ∧
    n.currentTerm = m.currentTerm := by
  have hrun : ((Cluster.exec .default (Membership.three.start .default ⟨0, 0⟩ : Cluster Database)
      (twoChanges ⟨0, 0⟩)).bind fun c => (c.nodes 1).bind fun n => (c.nodes 3).map fun m =>
        ((n.role, m.role), n.currentTerm, m.currentTerm)) = some ((.leader, .leader), 2, 2) := by
    decide +kernel
  obtain ⟨c, hc, hrun⟩ := Option.bind_eq_some_iff.mp hrun
  obtain ⟨n, hn, hrun⟩ := Option.bind_eq_some_iff.mp hrun
  obtain ⟨m, hm, hrun⟩ := Option.map_eq_some_iff.mp hrun
  simp only [Prod.mk.injEq] at hrun
  obtain ⟨⟨hr, hr'⟩, ht, ht'⟩ := hrun
  refine ⟨c, n, m, by decide, ?_, hc, hn, hm, hr, hr', ht.trans ht'.symm⟩
  refine Cluster.JoinsPresent.of_listed [1, 2, 3] (fun p => ?_) (by decide)
  change _ ↔ ((if p ∈ ({1, 2, 3} : Finset NodeId) then _ else none : Option (RaftNode Database))).isSome = true
  split_ifs with hp
  · exact ⟨fun _ => rfl, fun _ => by simpa using hp⟩
  · exact ⟨fun h => absurd (by simpa using h) hp, fun h => nomatch h⟩

end Concrete
end KvRaft
