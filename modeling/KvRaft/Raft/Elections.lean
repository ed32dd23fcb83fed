import KvRaft.Raft.Voting
import KvRaft.Raft.Durable
import KvRaft.Raft.Safety

/-! Elections over whole runs of a cluster: with crashes at any file operation, and with membership
changes. -/

namespace KvRaft
open RaftNode hiding id

variable {D : Type} [Storage D]

namespace Cluster

def campaignOf (c : Cluster D) : Action → Option Campaign
  | .process id input now => (c.nodes id).bind fun n =>
      if n.startsElection input now then some n.campaign else none
  | _ => none

def campaigns [FloatText] [Bincode] (config : Config) : Cluster D → List Action → List Campaign
  | _, [] => []
  | c, x :: xs => (c.campaignOf x).toList ++
      ((step config c x).map fun c' => campaigns config c' xs).getD []

end Cluster

structure ElectionOk (V : Campaign → Prop) (h : Votes) (c : Cluster D) : Prop where
  nodes : ∀ id n, c.nodes id = some n → VoteOk h id n
  absent : ∀ id, c.nodes id = none → ∀ t, h.vote id t = none ∧ h.campaign id t = none
  network : ∀ e ∈ c.network, VoteMsg h e
  campaigns : ∀ id t k, h.campaign id t = some k → k.node = id ∧ k.term = t ∧ V k

def DurableOk (c : Cluster D) : Prop :=
  ∀ id n, c.nodes id = some n → id ≠ 0 ∧ ∃ b₀, Durable b₀ n

section Recover
variable {h : Votes} {id : NodeId} {n r : RaftNode D}

theorem newInDir_eq_some [FloatText] [Bincode] {dir : Dir D} {peers : List NodeId} {config : Config} {now : Instant}
    (hr : RaftNode.newInDir dir id peers config now = some r) :
    r.id = id ∧ r.ballot = metaBallot dir.raftMeta ∧ r.role = .follower ∧ r.outbox = [] ∧
      r.crashPoints = [] ∧ r.metaStore.file = dir.raftMeta ∧
      r.logStore = (RaftLogStore.openFile dir.raftLog).1 ∧
      r.log = (if (RaftLogStore.openFile dir.raftLog).2.isEmpty then [sentinel]
        else (RaftLogStore.openFile dir.raftLog).2) ∧
      r.peers = ((r.log.drop 1).take r.commitIndex).foldl (replayPeer id) peers := by
  unfold RaftNode.newInDir at hr
  dsimp only at hr
  split at hr
  · cases hr
  · obtain rfl := Option.some.inj hr
    exact ⟨rfl, rfl, rfl, rfl, rfl, rfl, rfl, rfl, rfl⟩

theorem VoteOk.recover (hn : VoteOk h id n) (hid : r.id = id) (hle : n.ballot.Le r.ballot)
    (hrole : r.role = .follower) (hout : r.outbox = []) :
    ∃ h', Votes.Grows id h h' ∧ h'.campaign = h.campaign ∧ VoteOk h' id r := by
  have hterm : n.currentTerm ≤ r.currentTerm := hle.term_le
  have hold : h.vote id r.currentTerm = none ∨ h.vote id r.currentTerm = r.votedFor := by
    rcases hle with hlt | ⟨heq, hv⟩
    · exact Or.inl (hn.future _ hlt).1
    · rw [show r.currentTerm = n.currentTerm from heq.symm, hn.vote_eq]
      exact hv
  refine ⟨_, Votes.record_grows hold, rfl, hid, Votes.record_vote_self, fun t ht => ?_,
    fun hc => (nomatch hrole.symm.trans hc), fun hl => (nomatch hrole.symm.trans hl), fun e he => ?_⟩
  · rw [Votes.record_vote_of_ne (by omega)]
    exact hn.future t (by omega)
  · rw [hout] at he
    cases he

end Recover

namespace ElectionOk
variable {V : Campaign → Prop} {h h' : Votes} {c c' : Cluster D} {config : Config} {id : NodeId}
  {n : RaftNode D}

theorem setNode (hc : ElectionOk V h c) (hg : Votes.Grows id h h') (hn : VoteOk h' id n)
    (hnew : ∀ i t k, h'.campaign i t = some k → h.campaign i t = some k ∨
      (k.node = i ∧ k.term = t ∧ V k)) : ElectionOk V h' (c.setNode id n) := by
  refine ⟨fun j m hm => ?_, fun j hj t => ?_, fun e he => (hc.network e he).mono hg.toLe,
    fun i t k hk => (hnew i t k hk).elim (hc.campaigns i t k) fun hv => hv⟩
  · by_cases hj : j = id
    · subst hj
      obtain rfl := Option.some.inj ((c.setNode_self j n).symm.trans hm)
      exact hn
    · exact (hc.nodes j m ((c.setNode_of_ne n hj).symm.trans hm)).frame hg hj
  · have hne : j ≠ id := by
      rintro rfl
      exact nomatch (c.setNode_self j n).symm.trans hj
    rw [hg.vote_ne j hne, hg.campaign_ne j hne]
    exact hc.absent j ((c.setNode_of_ne n hne).symm.trans hj) t

theorem candidate_ne_zero (hc : ElectionOk V h c) (hd : DurableOk c) {input : Input}
    (hav : c.available id input = true) {request : RequestVote}
    (hi : input = .message (.requestVote request)) : request.candidateId ≠ 0 := by
  subst hi
  have hmem : (id, Message.requestVote request) ∈ c.network := by
    simpa [Cluster.available, Message.external] using hav
  obtain ⟨k, hk, -⟩ := hc.network _ hmem
  rcases hnode : c.nodes request.candidateId with _ | m
  · rw [(hc.absent _ hnode _).2] at hk
    cases hk
  · exact (hd _ m hnode).1

theorem delivered (hc : ElectionOk V h c) {input : Input} (hav : c.available id input = true)
    {m : Message} (hi : input = .message m) : VoteMsg h (id, m) := by
  subst hi
  rcases Bool.or_eq_true_iff.mp hav with hx | hmem
  · cases m with
    | requestVote => cases hx
    | requestVoteResponse => cases hx
    | _ => trivial
  · exact hc.network _ (of_decide_eq_true hmem)

theorem process [FloatText] [Bincode] (hc : ElectionOk V h c) {input : Input} {now : Instant} {n' : RaftNode D}
    (hn : c.nodes id = some n) (hav : c.available id input = true)
    (hV : ∀ k, c.campaignOf (.process id input now) = some k → V k)
    (hs : n.process input now = some n') :
    ∃ h', h.Le h' ∧ ElectionOk V h' (c.setNode id n') := by
  have hok : VoteOk h id { n with crashPoints := [] } := (hc.nodes id n hn).silent rfl rfl rfl rfl rfl
    (fun _ => rfl) fun _ he => Or.inl he
  have hopen : ∃ h₁, Votes.Grows id h h₁ ∧ VoteOk h₁ id (n.opening input now) ∧
      ∀ i t k, h₁.campaign i t = some k → h.campaign i t = some k ∨
        (k.node = i ∧ k.term = t ∧ V k) := by
    unfold RaftNode.opening
    by_cases hstart : n.startsElection input now = true
    · obtain ⟨h₁, hg, hst, hcamp⟩ := hok.stand
      rw [if_pos hstart]
      refine ⟨h₁, hg, hst, fun i t k hk => (hcamp i t k hk).imp_right ?_⟩
      rintro ⟨rfl, hnode, hterm⟩
      refine ⟨hnode, hterm, hV _ ?_⟩
      rw [Cluster.campaignOf, hn, Option.bind_some, if_pos hstart]
      rfl
    · rw [if_neg hstart]
      exact ⟨h, .refl, hok, fun _ _ _ hk => Or.inl hk⟩
  obtain ⟨h₁, hg, hst, hcamp⟩ := hopen
  obtain ⟨h₂, hg', hcamp', hst'⟩ := hst.moves
    (fun m hi => (hc.delivered hav hi).mono hg.toLe) (process_moves input now hs)
  refine ⟨h₂, (hg.trans hg').toLe, hc.setNode (hg.trans hg') hst' fun i t k hk => ?_⟩
  rw [hcamp'] at hk
  exact hcamp i t k hk

theorem recover [FloatText] [Bincode] (hc : ElectionOk V h c) (hn : c.nodes id = some n) {dir : Dir D} {now : Instant}
    (hle : n.ballot.Le (metaBallot dir.raftMeta)) (hs : c.recover config id dir now = some c') :
    ∃ h', h.Le h' ∧ ElectionOk V h' c' := by
  obtain ⟨r, hr, rfl⟩ := Option.map_eq_some_iff.mp hs
  obtain ⟨hid, hballot, hrole, hout, -⟩ := newInDir_eq_some hr
  obtain ⟨h', hg, hcamp, hok⟩ := (hc.nodes id n hn).recover hid (hballot ▸ hle) hrole hout
  refine ⟨h', hg.toLe, hc.setNode hg hok fun i t k hk => ?_⟩
  rw [hcamp] at hk
  exact Or.inl hk

theorem step [FloatText] [Bincode] (hc : ElectionOk V h c) {x : Action} (hV : ∀ k, c.campaignOf x = some k → V k)
    (hd : ∀ id inside now, x = .crash id inside now → DurableOk c)
    (hs : Cluster.step config c x = some c') : ∃ h', h.Le h' ∧ ElectionOk V h' c' := by
  cases x with
  | process id input now =>
    simp only [Cluster.step, Option.bind_eq_bind, Option.bind_eq_some_iff, Option.guard_eq_some',
      Option.pure_def, Option.some.injEq] at hs
    obtain ⟨n, hn, -, hav, n', hn', rfl⟩ := hs
    exact hc.process hn hav hV hn'
  | restart id now =>
    simp only [Cluster.step, Option.bind_eq_bind, Option.bind_eq_some_iff, Option.pure_def,
      Option.some.injEq] at hs
    obtain ⟨n, hn, rfl⟩ := hs
    have hok := hc.nodes id n hn
    have hrestart : VoteOk h id (n.restart now) :=
      hok.follower rfl rfl le_rfl hok.vote_eq rfl fun e he => absurd he List.not_mem_nil
    exact ⟨h, .refl h, hc.setNode .refl hrestart fun _ _ _ hk => Or.inl hk⟩
  | flush id =>
    simp only [Cluster.step, Option.bind_eq_bind, Option.bind_eq_some_iff, Option.pure_def,
      Option.some.injEq] at hs
    obtain ⟨n, hn, rfl⟩ := hs
    have hok := hc.nodes id n hn
    have hempty : VoteOk h id { n with outbox := [] } :=
      hok.silent rfl rfl rfl rfl rfl (fun _ => rfl) fun e he => absurd he List.not_mem_nil
    have hset := hc.setNode .refl hempty fun _ _ _ hk => Or.inl hk
    refine ⟨h, .refl h, hset.nodes, hset.absent, fun e he => ?_, hset.campaigns⟩
    rcases List.mem_append.mp he with he | he
    · exact hset.network e he
    · exact hok.outbox e (List.mem_filter.mp he).1
  | crash id inside now =>
    cases inside with
    | none =>
      obtain ⟨n, hn, hs⟩ := Option.bind_eq_some_iff.mp hs
      obtain ⟨-, b₀, hdur⟩ := hd _ _ _ rfl id n hn
      refine hc.recover hn ?_ hs
      rw [show metaBallot n.dir.raftMeta = n.ballot from hdur.synced]
      exact .refl _
    | some p =>
      obtain ⟨input, k⟩ := p
      simp only [Cluster.step, Option.bind_eq_bind, Option.bind_eq_some_iff,
        Option.guard_eq_some'] at hs
      obtain ⟨n, hn, -, hav, n', hn', point, hpoint, hs⟩ := hs
      obtain ⟨hid, b₀, hdur⟩ := hd _ _ _ rfl id n hn
      have hdur' := hdur.process (fun _ hcast => hcast.ne_zero ((hc.nodes id n hn).id_eq ▸ hid)
        fun r hi => hc.candidate_ne_zero (hd _ _ _ rfl) hav hi) hn'
      exact hc.recover hn (hdur'.points _ (List.mem_of_getElem? hpoint)) hs
  | join id peers now =>
    simp only [Cluster.step] at hs
    split_ifs at hs with hsome
    obtain ⟨r, hr, rfl⟩ := Option.map_eq_some_iff.mp hs
    obtain ⟨hid, hballot, hrole, hout, -⟩ := newInDir_eq_some hr
    have hnone : c.nodes id = none := Option.not_isSome_iff_eq_none.mp hsome
    have hterm : r.currentTerm = 0 := congrArg Ballot.term hballot
    have hvote : r.votedFor = none := congrArg Ballot.vote hballot
    have hfresh : VoteOk h id r := by
      refine ⟨hid, ?_, fun t _ => hc.absent id hnone t,
        fun hc => Role.noConfusion (hrole.symm.trans hc), fun hl => Role.noConfusion (hrole.symm.trans hl),
        fun e he => ?_⟩
      · rw [hvote]
        exact (hc.absent id hnone _).1
      · rw [hout] at he
        cases he
    have hboot : ElectionOk V h { c with boot := Function.update c.boot id peers } :=
      ⟨hc.nodes, hc.absent, hc.network, hc.campaigns⟩
    exact ⟨h, .refl h, hboot.setNode .refl hfresh fun _ _ _ hk => Or.inl hk⟩

end ElectionOk

theorem ElectionOk.start [FloatText] [Bincode] (V : Campaign → Prop) (M : Membership) (config : Config)
    (now : Instant) :
    ElectionOk V ⟨fun _ _ => none, fun _ _ => none⟩ (M.start config now : Cluster D) := by
  refine ⟨fun id n hn => ?_, fun _ _ _ => ⟨rfl, rfl⟩, fun e he => (nomatch he),
    fun _ _ _ hk => (nomatch hk)⟩
  change (if id ∈ M.members then _ else _) = _ at hn
  split_ifs at hn with hid
  obtain ⟨hid, hballot, hrole, hout, -⟩ := newInDir_eq_some hn
  refine ⟨hid, (congrArg Ballot.vote hballot).symm, fun _ _ => ⟨rfl, rfl⟩,
    fun hc => (nomatch hrole.symm.trans hc), fun hl => (nomatch hrole.symm.trans hl), fun e he => ?_⟩
  rw [hout] at he
  cases he

end KvRaft
