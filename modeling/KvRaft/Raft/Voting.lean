import KvRaft.Raft.Moves
import KvRaft.Lib.Quorum

/-! Votes and campaigns over whole runs, with crashes and membership changes: who voted for whom
in which term, and among which nodes each election was held. -/

namespace KvRaft
open RaftNode

variable {D : Type} [Storage D]

/-- One election: the nodes asked for their vote, the candidate itself, and how many it needs. -/
structure Campaign where
  node : NodeId
  term : Nat
  voters : Finset NodeId
  quorum : Nat

/-- The quorums of two campaigns always share a voter. -/
def Campaign.Overlap (a b : Campaign) : Prop := (a.voters ∪ b.voters).card < a.quorum + b.quorum

instance (a b : Campaign) : Decidable (a.Overlap b) := inferInstanceAs (Decidable (_ < _))

def RaftNode.campaign (n : RaftNode D) : Campaign :=
  ⟨n.id, n.currentTerm + 1, insert n.id n.peers.toFinset, n.majority⟩

structure Votes where
  vote : NodeId → Nat → Option NodeId
  campaign : NodeId → Nat → Option Campaign

structure Votes.Le (h h' : Votes) : Prop where
  vote : ∀ q t c, h.vote q t = some c → h'.vote q t = some c
  campaign : ∀ q t k, h.campaign q t = some k → h'.campaign q t = some k

structure Votes.Grows (id : NodeId) (h h' : Votes) : Prop extends Votes.Le h h' where
  vote_ne : ∀ q, q ≠ id → h'.vote q = h.vote q
  campaign_ne : ∀ q, q ≠ id → h'.campaign q = h.campaign q

def VoteMsg (h : Votes) : Envelope → Prop
  | (dest, .requestVote r) => ∃ k, h.campaign r.candidateId r.term = some k ∧ dest ∈ k.voters
  | (dest, .requestVoteResponse r) => r.voteGranted = true → h.vote r.voterId r.term = some dest ∧
      ∃ k, h.campaign dest r.term = some k ∧ r.voterId ∈ k.voters
  | _ => True

def Votes.Won (h : Votes) (id : NodeId) (t : Nat) : Prop :=
  ∃ k Q, h.campaign id t = some k ∧ Q ⊆ k.voters ∧ k.quorum ≤ Q.card ∧
    ∀ q ∈ Q, h.vote q t = some id

structure VoteOk (h : Votes) (id : NodeId) (n : RaftNode D) : Prop where
  id_eq : n.id = id
  vote_eq : h.vote id n.currentTerm = n.votedFor
  future : ∀ t, n.currentTerm < t → h.vote id t = none ∧ h.campaign id t = none
  candidate : n.role = .candidate → ∃ k, h.campaign id n.currentTerm = some k ∧
    k.quorum = n.majority ∧ k.voters = insert id n.peers.toFinset ∧ n.votesReceived ⊆ k.voters ∧
    ∀ q ∈ n.votesReceived, h.vote q n.currentTerm = some id
  leader : n.role = .leader → h.Won id n.currentTerm
  outbox : ∀ e ∈ n.outbox, VoteMsg h e

section Grows
variable {h h' h'' : Votes} {id : NodeId}

theorem Votes.Le.refl (h : Votes) : h.Le h := ⟨fun _ _ _ e => e, fun _ _ _ e => e⟩

theorem Votes.Le.trans (h1 : h.Le h') (h2 : h'.Le h'') : h.Le h'' :=
  ⟨fun q t c e => h2.vote q t c (h1.vote q t c e),
    fun q t k e => h2.campaign q t k (h1.campaign q t k e)⟩

theorem Votes.Grows.refl : Votes.Grows id h h := ⟨.refl h, fun _ _ => rfl, fun _ _ => rfl⟩

theorem Votes.Grows.trans (h1 : Votes.Grows id h h') (h2 : Votes.Grows id h' h'') :
    Votes.Grows id h h'' :=
  ⟨h1.toLe.trans h2.toLe, fun q hq => (h2.vote_ne q hq).trans (h1.vote_ne q hq),
    fun q hq => (h2.campaign_ne q hq).trans (h1.campaign_ne q hq)⟩

theorem VoteMsg.mono {e : Envelope} (hm : VoteMsg h e) (hg : h.Le h') : VoteMsg h' e := by
  obtain ⟨dest, m⟩ := e
  cases m with
  | requestVote r =>
    obtain ⟨k, hk, hd⟩ := hm
    exact ⟨k, hg.campaign _ _ _ hk, hd⟩
  | requestVoteResponse r =>
    intro hgr
    obtain ⟨hv, k, hk, hd⟩ := hm hgr
    exact ⟨hg.vote _ _ _ hv, k, hg.campaign _ _ _ hk, hd⟩
  | _ => trivial

theorem Votes.Won.mono {i : NodeId} {t : Nat} (hw : h.Won i t) (hg : h.Le h') : h'.Won i t := by
  obtain ⟨k, Q, hk, hsub, hq, hv⟩ := hw
  exact ⟨k, Q, hg.campaign _ _ _ hk, hsub, hq, fun q hqm => hg.vote _ _ _ (hv q hqm)⟩

theorem Votes.Won.unique {i j : NodeId} {t : Nat} (hi : h.Won i t) (hj : h.Won j t)
    (hover : ∀ k k', h.campaign i t = some k → h.campaign j t = some k' → i ≠ j → k.Overlap k') :
    i = j := by
  by_contra hne
  obtain ⟨k, Q, hk, hsub, hq, hv⟩ := hi
  obtain ⟨k', Q', hk', hsub', hq', hv'⟩ := hj
  obtain ⟨x, hx, hx'⟩ := Quorum.inter hsub hsub' hq hq' (hover k k' hk hk' hne)
  exact hne (Option.some.inj ((hv x hx).symm.trans (hv' x hx')))

theorem VoteOk.frame {i : NodeId} {n : RaftNode D} (hn : VoteOk h i n) (hg : Votes.Grows id h h')
    (hne : i ≠ id) : VoteOk h' i n where
  id_eq := hn.id_eq
  vote_eq := by rw [hg.vote_ne i hne]; exact hn.vote_eq
  future t ht := by rw [hg.vote_ne i hne, hg.campaign_ne i hne]; exact hn.future t ht
  candidate hr := by
    obtain ⟨k, hk, h1, h2, h3, hv⟩ := hn.candidate hr
    exact ⟨k, hg.campaign _ _ _ hk, h1, h2, h3, fun q hq => hg.vote _ _ _ (hv q hq)⟩
  leader hr := (hn.leader hr).mono hg.toLe
  outbox e he := (hn.outbox e he).mono hg.toLe

end Grows

section Record

def Votes.record (h : Votes) (id : NodeId) (t : Nat) (v : Option NodeId) : Votes :=
  { h with vote := fun q u => if q = id ∧ u = t then v else h.vote q u }

def Votes.start (h : Votes) (k : Campaign) : Votes :=
  { h with campaign := fun q u => if q = k.node ∧ u = k.term then some k else h.campaign q u }

variable {h : Votes} {id : NodeId} {t : Nat} {v : Option NodeId}

@[simp] theorem Votes.record_vote_self : (h.record id t v).vote id t = v := by simp [Votes.record]

theorem Votes.record_vote_of_ne {u : Nat} (hu : u ≠ t) :
    (h.record id t v).vote id u = h.vote id u := by simp [Votes.record, hu]

theorem Votes.record_grows (hv : h.vote id t = none ∨ h.vote id t = v) :
    Votes.Grows id h (h.record id t v) := by
  refine ⟨⟨fun q u c hc => ?_, fun _ _ _ hk => hk⟩, fun q hq => ?_, fun _ _ => rfl⟩
  · by_cases hqu : q = id ∧ u = t
    · obtain ⟨rfl, rfl⟩ := hqu
      rw [Votes.record_vote_self]
      rcases hv with hv | hv
      · rw [hv] at hc
        cases hc
      · rw [← hv, hc]
    · simp only [Votes.record, if_neg hqu, hc]
  · funext u
    simp [Votes.record, hq]

theorem Votes.start_grows {k : Campaign} (hk : h.campaign k.node k.term = none) :
    Votes.Grows k.node h (h.start k) := by
  refine ⟨⟨fun _ _ _ hc => hc, fun q u k' hk' => ?_⟩, fun _ _ => rfl, fun q hq => ?_⟩
  · by_cases hqu : q = k.node ∧ u = k.term
    · obtain ⟨rfl, rfl⟩ := hqu
      rw [hk] at hk'
      cases hk'
    · simp only [Votes.start, if_neg hqu, hk']
  · funext u
    simp [Votes.start, hq]

end Record

section Moves
variable {h : Votes} {id : NodeId} {n n' : RaftNode D} {input : Input} {now : Instant}

theorem VoteOk.silent (hn : VoteOk h id n) (hid : n'.id = n.id) (hterm : n'.currentTerm = n.currentTerm)
    (hvote : n'.votedFor = n.votedFor) (hrole : n'.role = n.role)
    (hvotes : n'.votesReceived = n.votesReceived) (hpeers : n.role = .candidate → n'.peers = n.peers)
    (hout : ∀ e ∈ n'.outbox, e ∈ n.outbox ∨ VoteMsg h e) : VoteOk h id n' where
  id_eq := hid.trans hn.id_eq
  vote_eq := by rw [hterm, hvote]; exact hn.vote_eq
  future t ht := hn.future t (hterm ▸ ht)
  candidate hr := by
    rw [hrole] at hr
    rw [RaftNode.majority, hterm, hvotes, hpeers hr]
    exact hn.candidate hr
  leader hr := by
    rw [hterm]
    exact hn.leader (hrole ▸ hr)
  outbox e he := (hout e he).elim (hn.outbox e) fun hm => hm

theorem VoteOk.of_kernel (hn : VoteOk h id n) (hk : n'.kernel = n.kernel) : VoteOk h id n' :=
  hn.silent (congrArg Kernel.id hk) (congrArg Kernel.currentTerm hk) (congrArg Kernel.votedFor hk)
    (congrArg Kernel.role hk) (congrArg Kernel.votesReceived hk) (fun _ => congrArg Kernel.peers hk)
    fun _ he => Or.inl ((show n'.outbox = n.outbox from congrArg Kernel.outbox hk) ▸ he)

theorem VoteOk.pushLogEntry [Bincode] (hn : VoteOk h id n) (e : LogEntry) : VoteOk h id (n.pushLogEntry e) :=
  hn.silent rfl rfl rfl rfl rfl (fun _ => rfl) fun _ he => Or.inl he

theorem VoteOk.truncateLog (hn : VoteOk h id n) (i : Nat) : VoteOk h id (n.truncateLog i) :=
  hn.silent rfl rfl rfl rfl rfl (fun _ => rfl) fun _ he => Or.inl he

/-- A node that is a follower has only its vote to answer for. -/
theorem VoteOk.follower {t : Nat} (hn : VoteOk h id n) (hid : n'.id = n.id) (ht : n'.currentTerm = t)
    (hle : n.currentTerm ≤ t) (hvote : h.vote id t = n'.votedFor) (hrole : n'.role = .follower)
    (hout : ∀ e ∈ n'.outbox, e ∈ n.outbox ∨ VoteMsg h e) : VoteOk h id n' where
  id_eq := hid.trans hn.id_eq
  vote_eq := ht ▸ hvote
  future u hu := hn.future u (by omega)
  candidate hr := nomatch hrole.symm.trans hr
  leader hr := nomatch hrole.symm.trans hr
  outbox e he := (hout e he).elim (hn.outbox e) fun hm => hm

theorem Envelope.isResponse.voteMsg {e : Envelope} (he : e.isResponse) : VoteMsg h e := by
  obtain ⟨dest, m⟩ := e
  obtain ⟨r, rfl⟩ : ∃ r, m = .clientResponse r := he
  trivial

theorem VoteOk.queued (hn : VoteOk h id n) (hin : ∀ m, input = .message m → VoteMsg h (id, m))
    {e : Envelope} (he : Queued input n e) : VoteMsg h e := by
  cases he with
  | appendEntries => trivial
  | requestVote hr hp hreq =>
    obtain ⟨last, -, rfl⟩ := voteRequest_eq_some hreq
    obtain ⟨k, hk, -, hvoters, -⟩ := hn.candidate hr
    refine ⟨k, hn.id_eq.symm ▸ hk, ?_⟩
    rw [hvoters]
    exact Finset.mem_insert_of_mem (List.mem_toFinset.mpr hp)
  | voteResponse hi hg =>
    intro hgranted
    obtain ⟨ht, hv⟩ := hg hgranted
    obtain ⟨k, hk, hd⟩ := hin _ hi
    refine ⟨?_, k, ?_, ?_⟩
    · change h.vote n.id n.currentTerm = _
      rw [hn.id_eq, hn.vote_eq, hv]
    · change h.campaign _ n.currentTerm = _
      rw [ht, hk]
    · change n.id ∈ _
      rw [hn.id_eq]
      exact hd
  | appendResponse => trivial
  | forward hi hm =>
    rcases hm with ⟨_, rfl⟩ | ⟨_, _, rfl⟩ | ⟨_, rfl⟩
    · trivial
    · trivial
    · trivial
  | response hr => exact hr.voteMsg

theorem VoteOk.grant (hn : VoteOk h id n) {c : NodeId}
    (hv : n.votedFor = none ∨ n.votedFor = some c) :
    ∃ h', Votes.Grows id h h' ∧ h'.campaign = h.campaign ∧ VoteOk h' id (n.grantVote c now) := by
  have hg : Votes.Grows id h (h.record id n.currentTerm (some c)) :=
    Votes.record_grows (by rw [hn.vote_eq]; exact hv)
  refine ⟨_, hg, rfl, ?_⟩
  exact {
    id_eq := hn.id_eq
    vote_eq := Votes.record_vote_self
    future := fun t ht => by
      change n.currentTerm < t at ht
      rw [Votes.record_vote_of_ne (by omega)]
      exact hn.future t ht
    candidate := fun hr => by
      obtain ⟨k, hk, h1, h2, h3, hvotes⟩ := hn.candidate hr
      exact ⟨k, hk, h1, h2, h3, fun q hq => hg.vote _ _ _ (hvotes q hq)⟩
    leader := fun hr => (hn.leader hr).mono hg.toLe
    outbox := fun e he => (hn.outbox e he).mono hg.toLe }

theorem VoteOk.count (hn : VoteOk h id n) {r : RequestVoteResponse}
    (hm : VoteMsg h (id, .requestVoteResponse r)) (hr : n.role = .candidate)
    (ht : r.term = n.currentTerm) (hg : r.voteGranted = true) :
    VoteOk h id { n with votesReceived := insert r.voterId n.votesReceived } :=
  { hn with
    candidate := fun _ => by
      obtain ⟨k, hk, h1, h2, h3, hvotes⟩ := hn.candidate hr
      obtain ⟨hv, k', hk', hd⟩ := hm hg
      rw [ht] at hv hk'
      obtain rfl := Option.some.inj (hk.symm.trans hk')
      refine ⟨k, hk, h1, h2, Finset.insert_subset hd h3, fun q hq => ?_⟩
      rcases Finset.mem_insert.mp hq with rfl | hq
      · exact hv
      · exact hvotes q hq
    leader := fun hl => nomatch hr.symm.trans hl }

theorem VoteOk.lead (hn : VoteOk h id n) (hr : n.role = .candidate)
    (hq : n.majority ≤ n.votesReceived.card) :
    VoteOk h id { n with role := .leader, leaderId := some n.id } :=
  { hn with
    candidate := fun hc => nomatch hc
    leader := fun _ => by
      obtain ⟨k, hk, h1, -, h3, hvotes⟩ := hn.candidate hr
      exact ⟨k, n.votesReceived, hk, h3, h1 ▸ hq, hvotes⟩ }

theorem VoteOk.move [FloatText] [Bincode] (hn : VoteOk h id n) (hin : ∀ m, input = .message m → VoteMsg h (id, m))
    (hm : Move input now n n') :
    ∃ h', Votes.Grows id h h' ∧ h'.campaign = h.campaign ∧ VoteOk h' id n' := by
  cases hm with
  | grant hi ht hv => exact hn.grant hv
  | aside hk => exact ⟨h, .refl, rfl, hn.of_kernel hk⟩
  | enqueue he =>
    refine ⟨h, .refl, rfl, hn.silent rfl rfl rfl rfl rfl (fun _ => rfl) fun e hmem => ?_⟩
    rcases List.mem_append.mp hmem with hmem | hmem
    · exact Or.inl hmem
    · exact Or.inr (List.mem_singleton.mp hmem ▸ hn.queued hin he)
  | stepDown ht =>
    exact ⟨h, .refl, rfl, hn.follower rfl rfl ht.le (hn.future _ ht).1 rfl fun e he =>
      (stepDown_outbox _ _ _ e he).imp_right (·.voteMsg)⟩
  | follow hi ht => exact ⟨h, .refl, rfl, hn.follower rfl rfl le_rfl hn.vote_eq rfl fun e => Or.inl⟩
  | count hi hr ht hg => exact ⟨h, .refl, rfl, hn.count (hin _ hi) hr ht hg⟩
  | lead hr hq => exact ⟨h, .refl, rfl, hn.lead hr hq⟩
  | push => exact ⟨h, .refl, rfl, hn.pushLogEntry _⟩
  | replace => exact ⟨h, .refl, rfl, (hn.truncateLog _).pushLogEntry _⟩
  | settle hr _ _ hs =>
    refine ⟨h, .refl, rfl, (applyCommittedEntries_induct hs (I := fun b => VoteOk h id b)
      (hn.silent rfl rfl rfl rfl rfl (fun _ => rfl) fun e => Or.inl) ?_).1⟩
    -- a candidate never applies entries, so its electorate stays as it was
    intro b b' hb hrole _ happ
    obtain ⟨e, points, -, hk, -, hout⟩ := applyNext_kernel happ
    exact hb.silent (congrArg Kernel.id hk) (congrArg Kernel.currentTerm hk)
      (congrArg Kernel.votedFor hk) (congrArg Kernel.role hk) (congrArg Kernel.votesReceived hk)
      (fun hc => absurd (hrole.symm.trans hc) hr) fun x hx => (hout x hx).imp_right (·.voteMsg)

theorem VoteOk.moves [FloatText] [Bincode] (hn : VoteOk h id n) (hin : ∀ m, input = .message m → VoteMsg h (id, m))
    (hm : Moves input now n n') :
    ∃ h', Votes.Grows id h h' ∧ h'.campaign = h.campaign ∧ VoteOk h' id n' := by
  induction hm with
  | refl => exact ⟨h, .refl, rfl, hn⟩
  | tail _ hlast ih =>
    obtain ⟨h₁, hg, hc, hb⟩ := ih
    obtain ⟨h₂, hg', hc', hb'⟩ := hb.move (fun m hi => (hin m hi).mono hg.toLe) hlast
    exact ⟨h₂, hg.trans hg', hc'.trans hc, hb'⟩

theorem VoteOk.stand (hn : VoteOk h id n) :
    ∃ h', Votes.Grows id h h' ∧ VoteOk h' id n.stand ∧
      ∀ i t k, h'.campaign i t = some k → h.campaign i t = some k ∨
        (k = n.campaign ∧ k.node = i ∧ k.term = t) := by
  obtain rfl := hn.id_eq
  obtain ⟨hvote, hcamp⟩ := hn.future (n.currentTerm + 1) (Nat.lt_succ_self _)
  have hg1 : Votes.Grows n.id h (h.record n.id (n.currentTerm + 1) (some n.id)) :=
    Votes.record_grows (Or.inl hvote)
  have hg2 : Votes.Grows n.id _ ((h.record n.id (n.currentTerm + 1) (some n.id)).start n.campaign) :=
    Votes.start_grows (k := n.campaign) hcamp
  have hk : ((h.record n.id (n.currentTerm + 1) (some n.id)).start n.campaign).campaign n.id
      (n.currentTerm + 1) = some n.campaign := if_pos ⟨rfl, rfl⟩
  refine ⟨_, hg1.trans hg2, ?_, fun i t k hi => ?_⟩
  · exact {
      id_eq := rfl
      vote_eq := Votes.record_vote_self
      future := fun t ht => by
        change n.currentTerm + 1 < t at ht
        refine ⟨(Votes.record_vote_of_ne (by omega)).trans (hn.future t (by omega)).1, ?_⟩
        refine (if_neg fun hc => ?_).trans (hn.future t (by omega)).2
        have : t = n.currentTerm + 1 := hc.2
        omega
      candidate := fun _ => by
        refine ⟨n.campaign, hk, rfl, rfl, ?_, fun q hq => ?_⟩
        · exact Finset.singleton_subset_iff.mpr (Finset.mem_insert_self ..)
        · rw [Finset.mem_singleton.mp hq]
          exact Votes.record_vote_self
      leader := fun hr => nomatch hr
      outbox := fun e he => (hn.outbox e he).mono (hg1.trans hg2).toLe }
  · by_cases hit : i = n.campaign.node ∧ t = n.campaign.term
    · have heq : some n.campaign = some k := (if_pos hit).symm.trans hi
      exact Or.inr ⟨(Option.some.inj heq).symm, (Option.some.inj heq) ▸ hit.1.symm,
        (Option.some.inj heq) ▸ hit.2.symm⟩
    · exact Or.inl ((if_neg hit).symm.trans hi)

end Moves
end KvRaft
