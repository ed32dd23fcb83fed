import KvRaft.Raft.Moves
import KvRaft.Raft.Safety

/-! How the commit index moves. A leader only raises it, but a follower takes whatever an accepted
AppendEntries says, and an old one may say less than it knows. -/

namespace KvRaft
open RaftNode hiding id

section General
variable [FloatText] {D : Type} [Storage D] [Bincode]

namespace RaftNode

/-- The request passes the term check and the consistency check. -/
def Accepts (n : RaftNode D) (ae : AppendEntries) : Prop :=
  n.currentTerm ≤ ae.term ∧ n.log[ae.prevLogIndex]?.map LogEntry.term = some ae.prevLogTerm

/-- An AppendEntries that is accepted knows of all that the node has committed. -/
def KeepsCommit (n : RaftNode D) : Input → Prop
  | .message (.appendEntries ae) => n.Accepts ae → n.commitIndex ≤ ae.leaderCommit
  | _ => True

instance (n : RaftNode D) (ae : AppendEntries) : Decidable (n.Accepts ae) :=
  inferInstanceAs (Decidable (_ ∧ _))

end RaftNode

section Node
variable {n n' : RaftNode D} {now : Instant}

omit [FloatText] in
theorem acceptAppend_settles {ae : AppendEntries} {response : AppendEntriesResponse}
    (hs : n.acceptAppend ae = some (n', response)) :
    n'.commitIndex = min ae.leaderCommit (n'.log.length - 1) ∧
      n'.lastApplied = max n.lastApplied n'.commitIndex := by
  obtain ⟨b, hb, hres⟩ := Option.map_eq_some_iff.mp hs
  obtain ⟨rfl, -⟩ := Prod.mk.inj hres
  set m := n.appendLoop (ae.prevLogIndex + 1) ae.entries with hm
  have happ : m.lastApplied = n.lastApplied := congrArg Core.lastApplied (n.appendLoop_core _ _).1
  obtain ⟨hlog, happlied, hcommit⟩ := applyCommittedEntries_induct (I := fun c => c.log = m.log) hb rfl
    fun c c' hc _ _ hstep => by
      obtain ⟨e, points, -, hk, -⟩ := applyNext_kernel hstep
      exact (congrArg Kernel.log hk).trans hc
  have hci : b.commitIndex = min ae.leaderCommit (m.log.length - 1) := hcommit
  have hla : b.lastApplied = max m.lastApplied (min ae.leaderCommit (m.log.length - 1)) := happlied
  exact ⟨by rw [hci, hlog], by rw [hla, happ, hci]⟩

omit [FloatText] in
theorem handleAppendEntries_settles {ae : AppendEntries} {response : AppendEntriesResponse}
    (hs : n.handleAppendEntries ae now = some (n', response)) :
    (¬ n.Accepts ae ∧ n'.commitIndex = n.commitIndex ∧ n'.lastApplied = n.lastApplied) ∨
      (n.Accepts ae ∧ n'.commitIndex = min ae.leaderCommit (n'.log.length - 1) ∧
        n'.lastApplied = max n.lastApplied n'.commitIndex) := by
  simp only [RaftNode.handleAppendEntries] at hs
  split_ifs at hs with hterm
  · obtain ⟨rfl, -⟩ := Prod.mk.inj (Option.some.inj hs)
    exact Or.inl ⟨fun h => absurd h.1 (Nat.not_le.mpr hterm), rfl, rfl⟩
  obtain ⟨-, hlog, hcommit, happlied⟩ := observeTerm_frame n ae.term now
  have hlog' : ((n.observeTerm ae.term now).followLeader ae.leaderId now).log = n.log := hlog
  have hcommit' : ((n.observeTerm ae.term now).followLeader ae.leaderId now).commitIndex = n.commitIndex :=
    hcommit
  have happlied' : ((n.observeTerm ae.term now).followLeader ae.leaderId now).lastApplied =
    n.lastApplied := happlied
  generalize (n.observeTerm ae.term now).followLeader ae.leaderId now = b at hs hlog' hcommit' happlied'
  rw [hlog'] at hs
  cases hprev : n.log[ae.prevLogIndex]? with
  | none =>
    rw [hprev] at hs
    obtain ⟨rfl, -⟩ := Prod.mk.inj (Option.some.inj hs)
    refine Or.inl ⟨fun h => ?_, hcommit', happlied'⟩
    have := h.2
    rw [hprev] at this
    cases this
  | some prev =>
    rw [hprev] at hs
    dsimp only at hs
    split_ifs at hs with hne
    · obtain ⟨rfl, -⟩ := Prod.mk.inj (Option.some.inj hs)
      refine Or.inl ⟨fun h => hne ?_, hcommit', happlied'⟩
      have := h.2
      rw [hprev] at this
      exact Option.some.inj this
    · have haccepts : n.Accepts ae :=
        ⟨Nat.not_lt.mp hterm, by rw [hprev, Option.map_some, not_not.mp hne]⟩
      obtain ⟨h1, h2⟩ := acceptAppend_settles hs
      exact Or.inr ⟨haccepts, h1, by rw [h2, happlied']⟩

theorem RaftNode.Move.commit_le {input : Input} (hno : ∀ ae, input ≠ .message (.appendEntries ae))
    {b b' : RaftNode D} (hm : Move input now b b') (heq : b.lastApplied = b.commitIndex) :
    b.commitIndex ≤ b'.commitIndex ∧ b'.lastApplied = b'.commitIndex := by
  have hsame : ∀ {c : RaftNode D}, c.commitIndex = b.commitIndex → c.lastApplied = b.lastApplied →
      b.commitIndex ≤ c.commitIndex ∧ c.lastApplied = c.commitIndex := fun hc ha =>
    ⟨hc.ge, by rw [ha, hc, heq]⟩
  cases hm with
  | aside hk => exact hsame (congrArg Kernel.commitIndex hk) (congrArg Kernel.lastApplied hk)
  | @settle _ k _ _ hc hs =>
    obtain ⟨-, happlied, hcommit⟩ := applyCommittedEntries_induct (I := fun _ => True) hs trivial
      fun _ _ _ _ _ _ => trivial
    rcases hc with ⟨-, hle⟩ | ⟨ae, hi, -⟩
    · have h1 : b'.commitIndex = k := hcommit
      have h2 : b'.lastApplied = max b.lastApplied k := happlied
      omega
    · exact absurd hi (hno ae)
  | _ => exact hsame rfl rfl

theorem process_commit {input : Input} (hs : n.process input now = some n')
    (heq : n.lastApplied = n.commitIndex) (hlt : n'.lastApplied < n'.log.length) :
    (n.commitIndex ≤ n'.commitIndex ↔ n.KeepsCommit input) ∧
      (n.KeepsCommit input → n'.lastApplied = n'.commitIndex) := by
  by_cases hae : ∃ ae, input = .message (.appendEntries ae)
  · obtain ⟨ae, rfl⟩ := hae
    obtain ⟨⟨b, response⟩, hb, rfl⟩ := Option.map_eq_some_iff.mp hs
    have hlt : b.lastApplied < b.log.length := hlt
    change (n.commitIndex ≤ b.commitIndex ↔ (n.Accepts ae → n.commitIndex ≤ ae.leaderCommit)) ∧
      ((n.Accepts ae → n.commitIndex ≤ ae.leaderCommit) → b.lastApplied = b.commitIndex)
    rcases handleAppendEntries_settles hb with ⟨hno, hc, ha⟩ | ⟨hyes, hc, ha⟩
    · have hc : b.commitIndex = n.commitIndex := hc
      have ha : b.lastApplied = n.lastApplied := ha
      exact ⟨⟨fun _ h => absurd h hno, fun _ => hc.ge⟩, fun _ => by rw [ha, hc, heq]⟩
    · have ha : b.lastApplied = max n.lastApplied b.commitIndex := ha
      have hyes : n.Accepts ae := hyes
      constructor
      · exact ⟨fun h _ => by omega, fun h => by have := h hyes; omega⟩
      · intro h
        have := h hyes
        omega
  · have hno : ∀ ae, input ≠ .message (.appendEntries ae) := fun ae h => hae ⟨ae, h⟩
    have hkeeps : n.KeepsCommit input := by
      unfold RaftNode.KeepsCommit
      split
      · exact absurd rfl (hno _)
      · trivial
    have hopen : (n.opening input now).commitIndex = n.commitIndex ∧
        (n.opening input now).lastApplied = n.lastApplied := by
      unfold RaftNode.opening
      dsimp only
      split_ifs
      · exact ⟨rfl, rfl⟩
      · exact ⟨rfl, rfl⟩
    have hrun : ∀ b, Moves input now (n.opening input now) b →
        n.commitIndex ≤ b.commitIndex ∧ b.lastApplied = b.commitIndex := by
      intro b hmoves
      induction hmoves with
      | refl => exact ⟨hopen.1.ge, by rw [hopen.2, hopen.1, heq]⟩
      | tail _ hlast ih =>
        obtain ⟨hle, heq'⟩ := hlast.commit_le hno ih.2
        exact ⟨ih.1.trans hle, heq'⟩
    obtain ⟨hle, heq'⟩ := hrun n' (process_moves input now hs)
    exact ⟨⟨fun _ => hkeeps, fun _ => hle⟩, fun _ => heq'⟩

end Node

namespace Cluster

def KeepsCommit (c : Cluster D) : Action → Prop
  | .process id input _ => ∀ n, c.nodes id = some n → n.KeepsCommit input
  | _ => True

def KeepsCommits (config : Config) : Cluster D → List Action → Prop
  | _, [] => True
  | c, x :: xs => c.KeepsCommit x ∧ ∀ c', step config c x = some c' → KeepsCommits config c' xs

end Cluster

section Run
variable {M : Membership} {config : Config} {c c' : Cluster D}

/-- All that is committed is applied, on every node. -/
def Cluster.Settled (c : Cluster D) : Prop := ∀ i n, c.nodes i = some n → n.lastApplied = n.commitIndex

theorem settled_step {a : ReplicatedLog.State NodeId LogEntry} (h : ClusterOk M config c a)
    (hsettled : c.Settled) {x : Action} (hx : x.inMemory = true)
    (hs : Cluster.step config c x = some c') :
    ((∀ i n n', c.nodes i = some n → c'.nodes i = some n' → n.commitIndex ≤ n'.commitIndex) ↔
      c.KeepsCommit x) ∧ (c.KeepsCommit x → c'.Settled) := by
  obtain ⟨a', -, h'⟩ := h.step hx hs
  have key : ∀ {id : NodeId} {n m : RaftNode D}, c.nodes id = some n →
      c'.nodes = (c.setNode id m).nodes →
      ((∀ i b b', c.nodes i = some b → c'.nodes i = some b' → b.commitIndex ≤ b'.commitIndex) ↔
        n.commitIndex ≤ m.commitIndex) ∧ (m.lastApplied = m.commitIndex → c'.Settled) := by
    intro id n m hn hnodes
    refine ⟨⟨fun hall => hall id n m hn (hnodes ▸ Cluster.setNode_self _ _ _), fun hle i b b' hb hb' => ?_⟩,
      fun hm i b hb => ?_⟩
    · rw [hnodes] at hb'
      rcases Cluster.nodes_setNode hb' with ⟨rfl, rfl⟩ | ⟨-, hsame⟩
      · obtain rfl := Option.some.inj (hn.symm.trans hb)
        exact hle
      · exact (congrArg RaftNode.commitIndex (Option.some.inj (hb.symm.trans hsame))).le
    · rw [hnodes] at hb
      rcases Cluster.nodes_setNode hb with ⟨-, rfl⟩ | ⟨-, hsame⟩
      · exact hm
      · exact hsettled i b hsame
  cases x with
  | process id input now =>
    obtain ⟨n, hn, -, n', hn', rfl⟩ := Cluster.step_process.mp hs
    have hlt := (h'.nodes id n' (Cluster.setNode_self _ _ _)).applied_lt
    obtain ⟨hiff, hset⟩ := process_commit hn' (hsettled id n hn) hlt
    have hkeeps : c.KeepsCommit (.process id input now) ↔ n.KeepsCommit input :=
      ⟨fun hk => hk n hn, fun hk m hm => Option.some.inj (hn.symm.trans hm) ▸ hk⟩
    obtain ⟨hall, hsettle⟩ := key hn rfl
    rw [hall, hkeeps]
    exact ⟨hiff, fun hk => hsettle (hset hk)⟩
  | restart id now =>
    obtain ⟨n, hn, rfl⟩ := Cluster.step_restart.mp hs
    obtain ⟨hall, hsettle⟩ := key hn rfl
    exact ⟨⟨fun _ => trivial, fun _ => hall.mpr le_rfl⟩, fun _ => hsettle (hsettled id n hn)⟩
  | flush id =>
    obtain ⟨n, hn, rfl⟩ := Cluster.step_flush.mp hs
    obtain ⟨hall, hsettle⟩ := key hn rfl
    exact ⟨⟨fun _ => trivial, fun _ => hall.mpr le_rfl⟩, fun _ => hsettle (hsettled id n hn)⟩
  | crash => cases hx
  | join => cases hx

theorem settled_exec {a : ReplicatedLog.State NodeId LogEntry} (h : ClusterOk M config c a)
    (hsettled : c.Settled) {as : List Action} (has : ∀ x ∈ as, x.inMemory = true)
    (hkeeps : c.KeepsCommits config as) (hs : Cluster.exec config c as = some c') :
    ∃ a', ClusterOk M config c' a' ∧ c'.Settled := by
  induction as generalizing c a with
  | nil =>
    obtain rfl := Option.some.inj hs
    exact ⟨a, h, hsettled⟩
  | cons x xs ih =>
    rw [Cluster.exec, List.foldlM_cons] at hs
    obtain ⟨c₁, hstep, hrest⟩ := Option.bind_eq_some_iff.mp hs
    have hx := has x (List.mem_cons_self ..)
    obtain ⟨a₁, -, h₁⟩ := h.step hx hstep
    exact ih h₁ ((settled_step h hsettled hx hstep).2 hkeeps.1)
      (fun y hy => has y (List.mem_cons_of_mem _ hy)) (hkeeps.2 c₁ hstep) hrest

/-- As long as no accepted AppendEntries knows of less than its receiver has committed, everything
committed is in the log and everything applied is committed; and the next step lowers no commit index
just when it goes on so. -/
theorem commit_progress_iff (M : Membership) (config : Config) (now : Instant) {as : List Action}
    (has : ∀ x ∈ as, x.inMemory = true)
    (hkeeps : (M.start config now : Cluster D).KeepsCommits config as) {c : Cluster D}
    (hc : Cluster.exec config (M.start config now) as = some c) :
    (∀ i n, c.nodes i = some n → n.lastApplied ≤ n.commitIndex ∧ n.commitIndex ≤ n.log.length - 1) ∧
    ∀ x c', x.inMemory = true → Cluster.step config c x = some c' →
      ((∀ i n n', c.nodes i = some n → c'.nodes i = some n' → n.commitIndex ≤ n'.commitIndex) ↔
        c.KeepsCommit x) := by
  have hstart : (M.start config now : Cluster D).Settled := by
    intro i n hn
    change (if i ∈ M.members then _ else _) = _ at hn
    split_ifs at hn
    obtain ⟨b, hb, hcore, -⟩ := newInDir_empty (D := D) i (M.peersOf i) config now
    obtain rfl := Option.some.inj (hb.symm.trans hn)
    exact (congrArg Core.lastApplied hcore).trans (congrArg Core.commitIndex hcore).symm
  obtain ⟨a, h, hsettled⟩ := settled_exec (ClusterOk.start M config now) hstart has hkeeps hc
  refine ⟨fun i n hn => ⟨(hsettled i n hn).le, ?_⟩, fun x c' hx hs => (settled_step h hsettled hx hs).1⟩
  have := (h.nodes i n hn).commit_lt
  omega

end Run
end General

section Concrete
open scoped Concrete

/-- The heartbeat that node 1 sent when it was elected, before it knew of any commit. -/
def oldHeartbeat : AppendEntries := ⟨1, 1, 0, 0, [], 0⟩

/-- Node 2 hears of the commit and then gets the heartbeat from before it. -/
def commitThenOld (now : Instant) : List Action := firstCommit now ++
  [.process 1 (.message (.clientCommand (.set "b" (.int 2)))) now, .flush 1,
    .process 2 (.message (.appendEntries
      ⟨1, 1, 1, 1, [⟨1, .command (LogRecord.new 0 (.set "b" (.int 2)))⟩], 1⟩)) now]

instance (n : RaftNode Database) (input : Input) : Decidable (n.KeepsCommit input) := by
  unfold RaftNode.KeepsCommit
  split
  · infer_instance
  · infer_instance

instance (c : Cluster Database) (x : Action) : Decidable (c.KeepsCommit x) :=
  match x with
  | .process id input _ => inferInstanceAs (Decidable (∀ n ∈ c.nodes id, n.KeepsCommit input))
  | .flush _ | .restart .. | .crash .. | .join .. => isTrue trivial

def Cluster.decidableKeepsCommits (config : Config) :
    (as : List Action) → (c : Cluster Database) → Decidable (c.KeepsCommits config as)
  | [], _ => isTrue trivial
  | x :: xs, c =>
    haveI := decidableKeepsCommits config xs
    inferInstanceAs (Decidable (c.KeepsCommit x ∧ ∀ c' ∈ step config c x, c'.KeepsCommits config xs))

instance (config : Config) (c : Cluster Database) (as : List Action) : Decidable (c.KeepsCommits config as) :=
  c.decidableKeepsCommits config as

/-- Node 2 has accepted an AppendEntries that let it commit. -/
theorem commit_progress_second_write : ∃ (c : Cluster Database) (n : RaftNode Database),
    Cluster.exec .default (Membership.three.start .default ⟨0, 0⟩) (commitThenOld ⟨0, 0⟩) = some c ∧
    c.nodes 2 = some n ∧ n.commitIndex = 1 ∧ n.lastApplied ≤ n.commitIndex ∧
    n.commitIndex ≤ n.log.length - 1 := by
  have hrun : ((Cluster.exec .default (Membership.three.start .default ⟨0, 0⟩ : Cluster Database)
      (commitThenOld ⟨0, 0⟩)).bind fun c => (c.nodes 2).map RaftNode.commitIndex) = some 1 := by
    decide +kernel
  obtain ⟨c, hc, hrun⟩ := Option.bind_eq_some_iff.mp hrun
  obtain ⟨n, hn, hcommit⟩ := Option.map_eq_some_iff.mp hrun
  have hkeeps : (Membership.three.start .default ⟨0, 0⟩ : Cluster Database).KeepsCommits .default
      (commitThenOld ⟨0, 0⟩) := by
    decide +kernel
  exact ⟨c, n, hc, hn, hcommit,
    (commit_progress_iff Membership.three .default ⟨0, 0⟩ (by decide) hkeeps hc).1 2 n hn⟩

/-- The old heartbeat sets the commit index of node 2 back from 1 to 0, below what it has applied. -/
theorem commit_set_back : ∃ (c c' : Cluster Database) (n n' : RaftNode Database),
    Cluster.exec .default (Membership.three.start .default ⟨0, 0⟩) (commitThenOld ⟨0, 0⟩) = some c ∧
    Cluster.step .default c (.process 2 (.message (.appendEntries oldHeartbeat)) ⟨0, 0⟩) = some c' ∧
    c.nodes 2 = some n ∧ c'.nodes 2 = some n' ∧ n.commitIndex = 1 ∧ n'.commitIndex = 0 ∧
    n'.lastApplied = 1 := by
  have hrun : ((Cluster.exec .default (Membership.three.start .default ⟨0, 0⟩ : Cluster Database)
      (commitThenOld ⟨0, 0⟩)).bind fun c => (c.nodes 2).bind fun n =>
        (Cluster.step .default c (.process 2 (.message (.appendEntries oldHeartbeat)) ⟨0, 0⟩)).bind fun c' =>
          (c'.nodes 2).map fun n' => (n.commitIndex, n'.commitIndex, n'.lastApplied)) = some (1, 0, 1) := by
    decide +kernel
  obtain ⟨c, hc, hrun⟩ := Option.bind_eq_some_iff.mp hrun
  obtain ⟨n, hn, hrun⟩ := Option.bind_eq_some_iff.mp hrun
  obtain ⟨c', hc', hrun⟩ := Option.bind_eq_some_iff.mp hrun
  obtain ⟨n', hn', hrun⟩ := Option.map_eq_some_iff.mp hrun
  simp only [Prod.mk.injEq] at hrun
  exact ⟨c, c', n, n', hc, hc', hn, hn', hrun.1, hrun.2.1, hrun.2.2⟩

end Concrete
end KvRaft
