import KvRaft.Raft.Reactions
import KvRaft.Sim.Deadlines

/-! A node that stands for election or leads, in a network that nothing disturbs: how far it has got with each of
the others. The messages in flight are those that these stages call for, and no others. -/

namespace KvRaft.Simulator
open ReplicatedLog
open RaftNode hiding id

/-- A term of a node: the log it has, the commit index it is to make known, and how many entries of its log each of
the others is known to share. -/
structure Office where
  chief : NodeId
  term : Nat
  log : List LogEntry
  commit : Nat
  shared : NodeId → Nat

inductive Poll where
  | asked
  | answered
  | counted
  deriving DecidableEq, Repr

/-- How far a node is with the log: nothing has been sent to it, entries from index `k` on are on the way to it, its
refusal or its consent is on the way back, or its consent has been recorded. -/
inductive Feed where
  | idle
  | sent (k commit : Nat)
  | refused (k hint : Nat)
  | accepted
  | done
  deriving DecidableEq, Repr

structure Stage where
  poll : Poll
  feed : Feed
  deriving DecidableEq, Repr

namespace Office

def lastTerm (o : Office) : Nat := (o.log.getLast?.map LogEntry.term).getD 0

def request (o : Office) : RequestVote := ⟨o.term, o.chief, o.log.length - 1, o.lastTerm⟩

end Office

/-! The messages in flight between the chief and node `p`, and a bound on how many more deliveries they lead to. -/

def Poll.mail (o : Office) (p : NodeId) : Poll → Multiset Envelope
  | .asked => {(p, .requestVote o.request)}
  | .answered => {(o.chief, .requestVoteResponse ⟨o.term, p, true⟩)}
  | .counted => 0

def Feed.mail (o : Office) (p : NodeId) : Feed → Multiset Envelope
  | .sent k commit => {(p, .appendEntries (appendFrom o.term o.chief o.log k commit))}
  | .refused _ hint => {(o.chief, .appendEntriesResponse ⟨o.term, p, false, hint⟩)}
  | .accepted => {(o.chief, .appendEntriesResponse ⟨o.term, p, true, o.log.length - 1⟩)}
  | .idle | .done => 0

def Stage.mail (o : Office) (p : NodeId) (x : Stage) : Multiset Envelope := x.poll.mail o p + x.feed.mail o p

def Poll.cost : Poll → Nat
  | asked => 2
  | answered => 1
  | counted => 0

def Feed.cost (o : Office) (p : NodeId) : Feed → Nat
  | .idle => 2 * (o.log.length - o.shared p) + 2
  | .sent k _ => 2 * (k - o.shared p) + 2
  | .refused k _ => 2 * (k - o.shared p) + 1
  | .accepted => 1
  | .done => 0

def Stage.cost (o : Office) (p : NodeId) (x : Stage) : Nat := x.poll.cost + x.feed.cost o p

def Feed.heard : Feed → Bool
  | refused .. | accepted | done => true
  | idle | sent .. => false

def Feed.holds : Feed → Bool
  | accepted | done => true
  | idle | sent .. | refused .. => false

variable {D : Type} [Storage D] {M : Membership} {config : Config} {o : Office} {p : NodeId} {x y : Stage}
  {n m : RaftNode D}

structure Subject [FloatText] (M : Membership) (o : Office) (p : NodeId) (x : Stage) (n : RaftNode D) : Prop where
  outbox : n.outbox = []
  term : n.currentTerm ≤ o.term
  upToDate : M.setting.UpToDate o.log n.log
  shared_pos : 1 ≤ o.shared p
  shared : n.log.take (o.shared p) = o.log.take (o.shared p)
  vote : x.poll = .asked → n.currentTerm = o.term → n.votedFor = none ∨ n.votedFor = some o.chief
  heard : x.feed.heard = true → n.currentTerm = o.term ∧ n.role = .follower ∧ n.leaderId = some o.chief
  holds : x.feed.holds = true → n.log = o.log ∧ o.commit ≤ n.lastApplied

def Follows (o : Office) (m : RaftNode D) (p : NodeId) : Feed → Prop
  | .idle => False
  | .sent k commit => m.nextIndex.lookup p = some k ∧ 1 ≤ k ∧ k ≤ o.log.length ∧
      o.commit ≤ commit ∧ commit < o.log.length
  | .refused k _ => m.nextIndex.lookup p = some k ∧ o.shared p < k ∧ k ≤ o.log.length
  | .accepted => True
  | .done => m.nextIndex.lookup p = some o.log.length ∧ m.matchIndex.lookup p = some (o.log.length - 1)

/-- The chief stands for election, and the votes it has counted are not enough. -/
structure Standing (o : Office) (P : Finset NodeId) (st : NodeId → Stage) (m : RaftNode D) : Prop where
  role : m.role = .candidate
  self : o.chief ∈ m.votesReceived
  few : m.votesReceived.card < m.majority
  idle : ∀ p ∈ P, (st p).feed = .idle
  counted : ∀ p ∈ P, (st p).poll = .counted → p ∈ m.votesReceived

/-- The chief leads, and has committed and applied its log once all have it, if that ends in an entry of its own. -/
structure Leading (o : Office) (P : Finset NodeId) (st : NodeId → Stage) (m : RaftNode D) : Prop where
  role : m.role = .leader
  leader : m.leaderId = some o.chief
  follows : ∀ p ∈ P, Follows o m p (st p).feed
  applied : (∀ p ∈ P, (st p).feed = .done) → o.lastTerm = o.term →
    o.log.length ≤ m.commitIndex + 1 ∧ o.log.length ≤ m.lastApplied + 1

structure Chief (o : Office) (P : Finset NodeId) (st : NodeId → Stage) (m : RaftNode D) : Prop where
  outbox : m.outbox = []
  term : m.currentTerm = o.term
  log : m.log = o.log
  commit : o.commit ≤ m.commitIndex
  acts : Standing o P st m ∨ Leading o P st m

def others (M : Membership) (o : Office) : Finset NodeId := M.members.erase o.chief

/-- The chief is in office, the others are at the stages `st`, and nothing else is in flight. -/
structure InOffice [FloatText] (M : Membership) (o : Office) (st : NodeId → Stage) (s : Simulation D) : Prop where
  healthy : s.Healthy
  chief : ∃ m, s.nodes.lookup o.chief = some m ∧ Chief o (others M o) st m
  subjects : ∀ p ∈ others M o, ∃ n, s.nodes.lookup p = some n ∧ Subject M o p (st p) n
  mail : s.mail = ∑ p ∈ others M o, (st p).mail o p

/-- A cluster of all members that runs the abstract log and in which nobody waits for an answer. -/
structure Sane [FloatText] (M : Membership) (config : Config) (s : Simulation D) : Prop where
  orderly : Orderly M config (Moment.mk s none).cluster
  clientless : Clientless (Moment.mk s none).cluster
  present : ∀ id, ((Moment.mk s none).cluster.nodes id).isSome = true ↔ id ∈ M.members.toList

/-! What a node does on a message from the chief. -/

section Logs
variable {S : Setting NodeId LogEntry} {a : State NodeId LogEntry}

/-- A log that is up to date is not continued by another. -/
theorem logOk_not_continued {ℓ L : List LogEntry} (h : LogOk S a ℓ) (hp : L <+: ℓ) (hne : L ≠ [])
    (hu : S.UpToDate L ℓ) : ℓ = L := by
  obtain ⟨e, he, ht⟩ := h.last
  have hpos := List.length_pos_iff.mpr hne
  have hlast : L[L.length - 1]? = some L[L.length - 1] := List.getElem?_eq_getElem (by omega)
  have hL := lastTerm_of_getElem? (S := S) hlast
  rcases hp.length_le.lt_or_eq with hlt | heq
  · -- the last entry of the longer log would be of a later term
    have hmid : ℓ[L.length - 1]? = some L[L.length - 1] := (prefix_getElem? hp (by omega)).trans hlast
    have hle : S.term L[L.length - 1] ≤ S.term e := by
      obtain ⟨h1, h1'⟩ := List.getElem?_eq_some_iff.mp hmid
      obtain ⟨h2, h2'⟩ := List.getElem?_eq_some_iff.mp he
      rw [← h1', ← h2']
      exact List.pairwise_iff_getElem.mp h.sorted _ _ h1 h2 (by omega)
    rcases hu with hu | ⟨-, hu⟩
    · omega
    · omega
  · exact (hp.eq_of_length heq).symm

end Logs

section Subjects
variable [FloatText] {a : State NodeId LogEntry} {now : Instant}

theorem logIsUpToDate_of_upToDate {last : LogEntry} (hlast : n.log[n.log.length - 1]? = some last)
    (hu : M.setting.UpToDate o.log n.log) : logIsUpToDate o.request (n.log.length - 1) last.term = true := by
  have hterm : M.setting.lastTerm n.log = last.term := lastTerm_of_getElem? hlast
  simp only [logIsUpToDate, Bool.or_eq_true, Bool.and_eq_true, decide_eq_true_eq]
  rcases hu with hlt | ⟨heq, hle⟩
  · exact Or.inl (hterm ▸ hlt)
  · exact Or.inr ⟨heq.trans hterm, Nat.sub_le_sub_right hle 1⟩

theorem Subject.votes [Bincode] {f : Feed} (h : Subject M o p ⟨.asked, f⟩ n) (hok : NodeOk M config a p n)
    (hp : n.pendingRequests = ∅) (now : Instant) :
    ∃ n', n.process (.message (.requestVote o.request)) now = some n' ∧
      n'.outbox = [(o.chief, .requestVoteResponse ⟨o.term, p, true⟩)] ∧
      Subject M o p ⟨.answered, f⟩ { n' with outbox := [] } := by
  obtain ⟨last, hlast, -⟩ := hok.logOk.last
  obtain ⟨n', hn', hout, hlog, hterm, happ, hsame⟩ := votes_for (n := { n with crashPoints := [] })
    o.request ⟨hp, h.outbox⟩ h.term (h.vote rfl) hlast (logIsUpToDate_of_upToDate hlast h.upToDate) now
  refine ⟨n', hn', hok.id_eq ▸ hout, rfl, hterm.le, ?_, h.shared_pos, ?_, fun hx => (by cases hx), fun hx => ?_,
    fun hx => ?_⟩
  · exact hlog ▸ h.upToDate
  · exact hlog ▸ h.shared
  · obtain ⟨hat, hrole, hleader⟩ := h.heard hx
    obtain ⟨hrole', hleader'⟩ := hsame hat
    exact ⟨hterm, hrole'.trans hrole, hleader'.trans hleader⟩
  · obtain ⟨hall, hcommit⟩ := h.holds hx
    exact ⟨hlog.trans hall, happ ▸ hcommit⟩

theorem Subject.follows_vote {v : Poll} {f : Feed} (h : Subject M o p ⟨v, f⟩ n) {n' : RaftNode D}
    (hn' : n'.votedFor = none ∨ n.currentTerm = o.term ∧ n'.votedFor = n.votedFor) (hv : v = .asked) :
    n'.votedFor = none ∨ n'.votedFor = some o.chief := by
  rcases hn' with hnone | ⟨hat, hsame⟩
  · exact Or.inl hnone
  · rw [hsame]
    exact h.vote hv hat

/-- A subject refuses entries before which its log differs from the one of the chief, and takes over all others. -/
theorem Subject.follows [Bincode] {v : Poll} {k commit : Nat} (h : Subject M o p ⟨v, .sent k commit⟩ n)
    (hdb : Storage.NeverPanics D) (hok : NodeOk M config a p n) (hp : n.pendingRequests = ∅)
    (hlog : LogOk M.setting a o.log) (hpos : 1 ≤ k) (hle : k ≤ o.log.length) (hcommit : o.commit ≤ commit)
    (hlt : commit < o.log.length) (now : Instant) :
    ∃ n' f, n.process (.message (.appendEntries (appendFrom o.term o.chief o.log k commit))) now = some n' ∧
      ((∃ hint, f = .refused k hint ∧ o.shared p < k) ∨ f = .accepted) ∧
      (n'.outbox : Multiset Envelope) = f.mail o p ∧ Subject M o p ⟨v, f⟩ { n' with outbox := [] } := by
  obtain ⟨i, rfl⟩ : ∃ i, k = i + 1 := ⟨k - 1, by omega⟩
  have hprev : o.log[i]? = some o.log[i] := List.getElem?_eq_getElem hle
  have hprevTerm : (appendFrom o.term o.chief o.log (i + 1) commit).prevLogTerm = o.log[i].term := by
    rw [appendFrom, Nat.add_sub_cancel, hprev]
    rfl
  by_cases hhas : ∃ e, n.log[i]? = some e ∧ e.term = o.log[i].term
  · obtain ⟨e, he, ht⟩ := hhas
    have hlast : i + (o.log.drop (i + 1)).length = o.log.length - 1 := by
      rw [List.length_drop]
      omega
    -- up to there the logs are the same, and a log that goes on after the one of the chief is not there
    have hsplice : splice n.log (i + 1) (o.log.drop (i + 1)) = o.log := by
      have haccepts := splice_accepts hok.logOk hlog (o.log.drop (i + 1)) hlast.symm (by omega)
        (List.take_length ..) (List.getElem?_eq_some_iff.mp he).1 (hok.logOk.agree hlog he hprev ht)
      rw [ReplicatedLog.Accepts, List.take_of_length_le (show o.log.length ≤ o.log.length - 1 + 1 by omega)] at haccepts
      rcases haccepts with ⟨hpre, heq⟩ | ⟨-, heq⟩
      · exact heq.trans (logOk_not_continued hok.logOk hpre (List.ne_nil_of_length_pos (by omega)) h.upToDate)
      · exact heq
    have hcommands : ∀ e ∈ splice n.log (i + 1) (o.log.drop (i + 1)), ∃ r, e.payload = .command r := by
      rw [hsplice]
      exact hok.commands.of_logOk hlog
    obtain ⟨n', hn', hfollowed, hall, happ⟩ := follows_accepting (n := { n with crashPoints := [] })
      (appendFrom o.term o.chief o.log (i + 1) commit) hdb ⟨hp, h.outbox⟩ h.term he (ht.trans hprevTerm.symm)
      hcommands now
    have hall' : n'.log = o.log := hall.trans hsplice
    refine ⟨n', .accepted, hn', Or.inr rfl, ?_, rfl, hfollowed.term.le, ?_, h.shared_pos, ?_,
      fun hv _ => h.follows_vote hfollowed.vote hv, fun _ => ⟨hfollowed.term, hfollowed.role, hfollowed.leader⟩,
      fun _ => ⟨hall', ?_⟩⟩
    · rw [hfollowed.outbox, Multiset.coe_singleton]
      change {(o.chief, Message.appendEntriesResponse ⟨o.term, n.id, true, i + (o.log.drop (i + 1)).length⟩)} = _
      rw [hok.id_eq, hlast]
      rfl
    · change M.setting.UpToDate o.log n'.log
      rw [hall']
      exact Or.inr ⟨rfl, le_rfl⟩
    · change n'.log.take _ = _
      rw [hall']
    · refine le_trans ?_ happ
      rw [hall']
      change o.commit ≤ min commit _
      omega
  · obtain ⟨n', hn', hfollowed, hsame, happ⟩ := follows_refusing (n := { n with crashPoints := [] })
      (appendFrom o.term o.chief o.log (i + 1) commit) ⟨hp, h.outbox⟩ h.term
      (fun prev hprev' ht => hhas ⟨prev, hprev', ht.trans hprevTerm⟩) now
    refine ⟨n', .refused (i + 1) (n.log.length - 1), hn', Or.inl ⟨_, rfl, ?_⟩, ?_, rfl, hfollowed.term.le, ?_,
      h.shared_pos, ?_, fun hv _ => h.follows_vote hfollowed.vote hv,
      fun _ => ⟨hfollowed.term, hfollowed.role, hfollowed.leader⟩, fun hx => (by cases hx)⟩
    · -- the logs do not differ that early
      by_contra hnot
      refine hhas ⟨o.log[i], ?_, rfl⟩
      rw [← hprev, ← List.getElem?_take_of_lt (show i < o.shared p by omega), h.shared,
        List.getElem?_take_of_lt (by omega)]
    · rw [hfollowed.outbox, Multiset.coe_singleton]
      change {(o.chief, Message.appendEntriesResponse ⟨o.term, n.id, false, n.log.length - 1⟩)} = _
      rw [hok.id_eq]
      rfl
    · exact hsame ▸ h.upToDate
    · exact hsame ▸ h.shared

end Subjects

/-! What the chief does on a message from a subject. -/

section Sums
variable {P : Finset NodeId} {st st' : NodeId → Stage} {e : Envelope} {out : List Envelope}

theorem sum_update {β : Type} [AddCommMonoid β] (f : NodeId → Stage → β) (st : NodeId → Stage) (hp : p ∈ P)
    (x : Stage) : f p (st p) + ∑ q ∈ P, f q (Function.update st p x q) = f p x + ∑ q ∈ P, f q (st q) := by
  have hrest : ∑ q ∈ P.erase p, f q (Function.update st p x q) = ∑ q ∈ P.erase p, f q (st q) :=
    Finset.sum_congr rfl fun q hq => by rw [Function.update_of_ne (Finset.ne_of_mem_erase hq)]
  rw [← Finset.add_sum_erase P _ hp, ← Finset.add_sum_erase P (fun q => f q (st q)) hp, Function.update_self, hrest,
    add_left_comm]

/-- On the way from the stages `st` to `st'` the message `e` has been taken in and `out` has been sent. -/
structure Advance (o : Office) (P : Finset NodeId) (e : Envelope) (out : List Envelope) (st st' : NodeId → Stage) :
    Prop where
  mail : (out : Multiset Envelope) + ∑ p ∈ P, (st p).mail o p = e ::ₘ ∑ p ∈ P, (st' p).mail o p
  cost : ∑ p ∈ P, (st' p).cost o p < ∑ p ∈ P, (st p).cost o p

theorem Advance.update (hp : p ∈ P) (hmail : (out : Multiset Envelope) + (st p).mail o p = e ::ₘ x.mail o p)
    (hcost : x.cost o p < (st p).cost o p) : Advance o P e out st (Function.update st p x) := by
  have hm := sum_update (fun p x => Stage.mail o p x) st hp x
  have hc := sum_update (fun p x => Stage.cost o p x) st hp x
  refine ⟨add_left_cancel (a := x.mail o p) ?_, by omega⟩
  calc x.mail o p + ((out : Multiset Envelope) + ∑ q ∈ P, (st q).mail o q)
      = (out : Multiset Envelope) + (x.mail o p + ∑ q ∈ P, (st q).mail o q) := add_left_comm ..
    _ = (out : Multiset Envelope) + (st p).mail o p + ∑ q ∈ P, (Function.update st p x q).mail o q := by
        rw [← hm, add_assoc]
    _ = x.mail o p + e ::ₘ ∑ q ∈ P, (Function.update st p x q).mail o q := by
        rw [hmail, Multiset.cons_add, Multiset.add_cons]

/-- A message to each peer of the chief is one to each of the others. -/
theorem sum_peers (hc : o.chief ∈ M.members) (f : NodeId → Envelope) :
    ∑ q ∈ others M o, ({f q} : Multiset Envelope) = ((M.peersOf o.chief).map f : List Envelope) := by
  have hothers : others M o = (M.peersOf o.chief).toFinset := by
    ext q
    rw [others, List.mem_toFinset, M.mem_peersOf _ hc, Finset.mem_erase, and_comm]
  rw [hothers, Finset.sum, List.toFinset_val, (M.nodup o.chief).dedup, Multiset.map_coe, Multiset.sum_coe]
  induction M.peersOf o.chief with
  | nil => rfl
  | cons q ps ih =>
    rw [List.map_cons, List.map_cons, List.sum_cons, ih, Multiset.singleton_add, Multiset.cons_coe]

end Sums

section Stages
variable {P : Finset NodeId} {st : NodeId → Stage}

theorem Follows.congr {f : Feed} {m' : RaftNode D} (h : Follows o m p f)
    (hnext : m'.nextIndex.lookup p = m.nextIndex.lookup p) (hmatch : m'.matchIndex.lookup p = m.matchIndex.lookup p) :
    Follows o m' p f := by
  cases f with
  | idle => exact h
  | sent | refused => exact ⟨hnext.trans h.1, h.2⟩
  | accepted => trivial
  | done => exact ⟨hnext.trans h.1, hmatch.trans h.2⟩

theorem Subject.recorded [FloatText] (h : Subject M o p x n) (hv : y.poll = .asked → x.poll = .asked)
    (hheard : y.feed.heard = true → x.feed.heard = true) (hholds : y.feed.holds = true → x.feed.holds = true) :
    Subject M o p y n :=
  { h with
    vote := fun hy => h.vote (hv hy)
    heard := fun hy => h.heard (hheard hy)
    holds := fun hy => h.holds (hholds hy) }

theorem update_cases {Q : NodeId → Stage → Prop} (hp : Q p x) (hrest : ∀ q, q ∈ P → q ≠ p → Q q (st q)) :
    ∀ q ∈ P, Q q (Function.update st p x q) := by
  intro q hq
  by_cases hqp : q = p
  · subst hqp
    rwa [Function.update_self]
  · rw [Function.update_of_ne hqp]
    exact hrest q hq hqp

theorem Chief.counted (h : Chief o P st m) (hp : p ∈ P) (hx : (st p).poll = .counted) (hr : m.role = .candidate) :
    p ∈ m.votesReceived := by
  rcases h.acts with hs | hl
  · exact hs.counted p hp hx
  · exact absurd (hr.symm.trans hl.role) (by decide)

/-- What it has sent is no longer with the chief, and what a crash would leave does not matter. -/
theorem Chief.silent (h : Chief o P st m) (points : List (CrashPoint D)) :
    Chief o P st { m with outbox := [], crashPoints := points } where
  outbox := rfl
  term := h.term
  log := h.log
  commit := h.commit
  acts := h.acts.imp (fun hs => ⟨hs.role, hs.self, hs.few, hs.idle, hs.counted⟩)
    fun hl => ⟨hl.role, hl.leader, fun p hp => (hl.follows p hp).congr rfl rfl, hl.applied⟩

theorem Chief.waits (h : Chief o P st m) (hp : p ∈ P)
    (hpoll : x.poll = .counted → m.role = .candidate → p ∈ m.votesReceived)
    (hidle : (st p).feed = .idle → x.feed = .idle) (hfollows : Follows o m p (st p).feed → Follows o m p x.feed)
    (hdone : x.feed = .done → (st p).feed = .done) : Chief o P (Function.update st p x) m := by
  refine { h with acts := h.acts.imp (fun hs => ?_) fun hl => ?_ }
  · exact { hs with
      idle := update_cases (Q := fun _ x => x.feed = .idle) (hidle (hs.idle p hp)) fun q hq _ => hs.idle q hq
      counted := update_cases (Q := fun q x => x.poll = .counted → q ∈ m.votesReceived)
        (fun hx => hpoll hx hs.role) fun q hq _ => hs.counted q hq }
  · refine { hl with
      follows := update_cases (Q := fun q x => Follows o m q x.feed) (hfollows (hl.follows p hp))
        fun q hq _ => hl.follows q hq
      applied := fun hall => hl.applied fun q hq => ?_ }
    have hq' := hall q hq
    by_cases hqp : q = p
    · subst hqp
      rw [Function.update_self] at hq'
      exact hdone hq'
    · rwa [Function.update_of_ne hqp] at hq'

end Stages

section Chiefs
variable [FloatText] {P : Finset NodeId} {st : NodeId → Stage} {a : State NodeId LogEntry} {now : Instant}

def Chief.Takes [Bincode] (M : Membership) (o : Office) (st : NodeId → Stage) (m : RaftNode D)
    (message : Message) (now : Instant) : Prop :=
  ∃ m' st', m.process (.message message) now = some m' ∧ Chief o (others M o) st' { m' with outbox := [] } ∧
    Advance o (others M o) (o.chief, message) m'.outbox st st' ∧
    ∀ q ∈ others M o, ∀ n : RaftNode D, Subject M o q (st q) n → Subject M o q (st' q) n

theorem mem_peers (hok : NodeOk M config a o.chief m) : p ∈ m.peers ↔ p ∈ others M o := by
  rw [hok.peers_eq, M.mem_peersOf _ hok.mem, others, Finset.mem_erase, and_comm]

theorem majority_le_card (hok : NodeOk M config a o.chief m) : m.majority ≤ (others M o).card + 1 := by
  have hpeers : m.peers.length + 1 = (others M o).card + 1 := by
    rw [hok.peers_eq, M.length_peersOf hok.mem, others, Finset.card_erase_add_one hok.mem]
  rw [RaftNode.majority]
  omega

omit [FloatText] in
theorem card_le_replicated {i : Nat} (hall : ∀ q ∈ P, m.matchIndex.lookup q = some i) :
    P.card + 1 ≤ m.replicated i := by
  have hsub : P ⊆ ((m.matchIndex.entries.filter fun p => i ≤ p.2).map Sigma.fst).toFinset := by
    intro q hq
    refine List.mem_toFinset.mpr (List.mem_map.mpr ⟨⟨q, i⟩, List.mem_filter.mpr ⟨?_, by simp⟩, rfl⟩)
    exact AList.mem_lookup_iff.mp (hall q hq)
  rw [RaftNode.replicated]
  refine Nat.succ_le_succ ?_
  calc P.card ≤ _ := Finset.card_le_card hsub
    _ ≤ ((m.matchIndex.entries.filter fun p => i ≤ p.2).map Sigma.fst).length := List.toFinset_card_le _
    _ = _ := List.length_map ..

def started (o : Office) (commit : Nat) (st : NodeId → Stage) : NodeId → Stage :=
  fun q => ⟨(st q).poll, .sent o.log.length commit⟩

omit [FloatText] in
theorem mail_started (hc : o.chief ∈ M.members) (commit : Nat) (hidle : ∀ q ∈ others M o, (st q).feed = .idle) :
    (((M.peersOf o.chief).map fun q => (q, .appendEntries (appendFrom o.term o.chief o.log o.log.length commit)) :
      List Envelope) : Multiset Envelope) + ∑ q ∈ others M o, (st q).mail o q =
      ∑ q ∈ others M o, (started o commit st q).mail o q := by
  rw [← sum_peers hc, ← Finset.sum_add_distrib]
  refine Finset.sum_congr rfl fun q hq => ?_
  rw [Stage.mail, hidle q hq]
  change {_} + ((st q).poll.mail o q + 0) = (st q).poll.mail o q + {_}
  rw [add_zero, add_comm]

omit [FloatText] in
theorem cost_started (commit : Nat) (hidle : ∀ q ∈ others M o, (st q).feed = .idle) :
    ∑ q ∈ others M o, (started o commit st q).cost o q = ∑ q ∈ others M o, (st q).cost o q := by
  refine Finset.sum_congr rfl fun q hq => ?_
  unfold Stage.cost
  rw [hidle q hq]
  rfl

theorem Chief.takes_vote [Bincode] (h : Chief o (others M o) st m) (hok : NodeOk M config a o.chief m)
    (hmem : p ∈ others M o) (hx : (st p).poll = .answered) (now : Instant) :
    Chief.Takes M o st m (.requestVoteResponse ⟨o.term, p, true⟩) now := by
  have hcount : Advance o (others M o) (o.chief, .requestVoteResponse ⟨o.term, p, true⟩) [] st
      (Function.update st p ⟨.counted, (st p).feed⟩) := by
    refine .update hmem ?_ ?_
    · rw [Stage.mail, hx]
      change (0 : Multiset Envelope) + ({_} + (st p).feed.mail o p) = _ ::ₘ (0 + (st p).feed.mail o p)
      rw [zero_add, zero_add, Multiset.singleton_add]
    · unfold Stage.cost
      rw [hx]
      change 0 + (st p).feed.cost o p < 1 + (st p).feed.cost o p
      omega
  have hsubs : ∀ q ∈ others M o, ∀ n : RaftNode D, Subject M o q (st q) n →
      Subject M o q (Function.update st p ⟨.counted, (st p).feed⟩ q) n :=
    update_cases (Q := fun q x => ∀ n : RaftNode D, Subject M o q (st q) n → Subject M o q x n)
      (fun n hn => hn.recorded (fun hy => by cases hy) (fun hy => hy) fun hy => hy) fun q _ _ n hn => hn
  rcases h.acts with hs | hl
  · by_cases henough : m.majority ≤ (insert p m.votesReceived).card
    · -- now the log is sent to all of them
      obtain ⟨next, mat, hlead, hnext⟩ := becomeLeader_sends
        (n := { m with votesReceived := insert p m.votesReceived, crashPoints := [] }) hok.logOk.length_pos now
      have hidle : ∀ q ∈ others M o, (Function.update st p ⟨.counted, (st p).feed⟩ q).feed = .idle :=
        update_cases (Q := fun _ x => x.feed = .idle) (hs.idle p hmem) fun q hq _ => hs.idle q hq
      have hn' := (vote_elects (n := { m with crashPoints := [] }) h.term hs.role henough now).trans hlead
      have hout : m.outbox ++ m.peers.map (fun q =>
          ((q, .appendEntries (appendFrom m.currentTerm m.id m.log m.log.length m.commitIndex)) : Envelope)) =
          (M.peersOf o.chief).map fun q =>
            (q, .appendEntries (appendFrom o.term o.chief o.log o.log.length m.commitIndex)) := by
        rw [h.outbox, h.term, h.log, hok.id_eq, hok.peers_eq]
        rfl
      refine ⟨_, started o m.commitIndex (Function.update st p ⟨.counted, (st p).feed⟩), hn', ?_, ?_, ?_⟩
      · refine ⟨rfl, h.term, h.log, h.commit, Or.inr ⟨rfl, congrArg some hok.id_eq, fun q hq => ?_, fun hall => ?_⟩⟩
        · have hlog := hnext q ((mem_peers hok).mpr hq)
          have hcommit := hok.commit_lt
          rw [h.log] at hcommit
          exact ⟨hlog.trans (congrArg (fun ℓ => some (List.length ℓ)) h.log), by omega, le_rfl, h.commit, hcommit⟩
        · cases hall p hmem
      · change Advance o _ _ (m.outbox ++ _) st _
        rw [hout]
        refine ⟨?_, (cost_started m.commitIndex hidle).trans_lt hcount.cost⟩
        have hmail := hcount.mail
        rw [Multiset.coe_nil, zero_add] at hmail
        rw [hmail, Multiset.add_cons, mail_started hok.mem m.commitIndex hidle]
      · intro q hq n hn
        exact (hsubs q hq n hn).recorded (fun hy => hy) (fun hy => by cases hy) fun hy => by cases hy
    · have hn' := vote_counted (n := { m with crashPoints := [] }) h.term hs.role henough now
      have hmore : Chief o (others M o) st { m with votesReceived := insert p m.votesReceived } := by
        refine ⟨h.outbox, h.term, h.log, h.commit, Or.inl ⟨hs.role, Finset.mem_insert_of_mem hs.self,
          not_le.mp henough, hs.idle, fun q hq hy => Finset.mem_insert_of_mem (hs.counted q hq hy)⟩⟩
      have hwaits := hmore.waits (x := ⟨.counted, (st p).feed⟩) hmem (fun _ _ => Finset.mem_insert_self ..)
        (fun hy => hy) (fun hy => hy) fun hy => hy
      refine ⟨_, _, hn', hwaits.silent [], ?_, hsubs⟩
      change Advance o _ _ m.outbox st _
      rw [h.outbox]
      exact hcount
  · have hr : m.role ≠ .candidate := by
      rw [hl.role]
      decide
    have hn' := vote_ignored (n := { m with crashPoints := [] }) p h.term hr now
    have hwaits := h.waits (x := ⟨.counted, (st p).feed⟩) hmem (fun _ hc => absurd hc hr) (fun hy => hy) (fun hy => hy)
      fun hy => hy
    refine ⟨_, _, hn', hwaits.silent [], ?_, hsubs⟩
    change Advance o _ _ m.outbox st _
    rw [h.outbox]
    exact hcount

theorem Chief.takes_refusal [Bincode] (h : Chief o (others M o) st m) (hok : NodeOk M config a o.chief m)
    (hp : m.pendingRequests = ∅) (hmem : p ∈ others M o) {k hint : Nat} (hx : (st p).feed = .refused k hint)
    (hpos : 1 ≤ o.shared p) (now : Instant) :
    Chief.Takes M o st m (.appendEntriesResponse ⟨o.term, p, false, hint⟩) now := by
  rcases h.acts with hs | hl
  · cases (hs.idle p hmem).symm.trans hx
  · have hf := hl.follows p hmem
    rw [hx] at hf
    obtain ⟨hnext, hlt, hle⟩ := hf
    obtain ⟨j, rfl⟩ : ∃ j, k = j + 1 := ⟨k - 1, by omega⟩
    have hn' := refusal_answered (n := { m with crashPoints := [] }) ⟨hp, h.outbox⟩ h.term hl.role hnext (by omega)
      (show j ≤ m.log.length by rw [h.log]; omega) hint now
    have hcommit := hok.commit_lt
    rw [h.log] at hcommit
    refine ⟨_, Function.update st p ⟨(st p).poll, .sent j m.commitIndex⟩, hn', ?_, ?_, ?_⟩
    · refine ⟨rfl, h.term, h.log, h.commit, Or.inr ⟨hl.role, hl.leader, ?_, fun hall => ?_⟩⟩
      · exact update_cases (Q := fun q x => Follows o _ q x.feed)
          ⟨AList.lookup_insert .., by omega, by omega, h.commit, hcommit⟩
          fun q hq hqp => (hl.follows q hq).congr (AList.lookup_insert_ne hqp) rfl
      · have hdone := hall p hmem
        rw [Function.update_self] at hdone
        cases hdone
    · change Advance o _ _ [(p, .appendEntries (appendFrom m.currentTerm m.id m.log j m.commitIndex))] st _
      rw [hok.id_eq, h.log, h.term]
      refine .update hmem ?_ ?_
      · rw [Stage.mail, hx, Multiset.coe_singleton]
        change {_} + ((st p).poll.mail o p + {_}) = _ ::ₘ ((st p).poll.mail o p + {_})
        rw [← Multiset.singleton_add]
        abel
      · unfold Stage.cost
        rw [hx]
        change (st p).poll.cost + (2 * (j - o.shared p) + 2) < (st p).poll.cost + (2 * (j + 1 - o.shared p) + 1)
        omega
    · exact update_cases (Q := fun q x => ∀ n : RaftNode D, Subject M o q (st q) n → Subject M o q x n)
        (fun n hn => hn.recorded (fun hy => hy) (fun hy => by cases hy) fun hy => by cases hy) fun q _ _ n hn => hn

/-- A consent is recorded, and the last one commits the log if that ends in an entry of the chief's own. -/
theorem Chief.takes_consent [Bincode] (h : Chief o (others M o) st m) (hdb : Storage.NeverPanics D)
    (hok : NodeOk M config a o.chief m) (hp : m.pendingRequests = ∅) (hmem : p ∈ others M o)
    (hx : (st p).feed = .accepted) (now : Instant) :
    Chief.Takes M o st m (.appendEntriesResponse ⟨o.term, p, true, o.log.length - 1⟩) now := by
  rcases h.acts with hs | hl
  · cases (hs.idle p hmem).symm.trans hx
  · have hterm : ({ m with crashPoints := [] } : RaftNode D).currentTerm = o.term := h.term
    have hpos := hok.logOk.length_pos
    obtain ⟨commit, db, store, points, hn', hle, hlast⟩ := success_recorded (n := { m with crashPoints := [] }) (f := p)
      (k := o.log.length - 1) hdb ⟨hp, h.outbox⟩ h.term hl.role (hok.commands.of_logOk hok.logOk) hok.commit_lt now
    have hself : o.log.length - 1 + 1 = o.log.length := by
      rw [← h.log]
      omega
    refine ⟨_, Function.update st p ⟨(st p).poll, .done⟩, hn', ?_, ?_, ?_⟩
    · refine ⟨rfl, h.term, h.log, h.commit.trans hle, Or.inr ⟨hl.role, hl.leader, ?_, fun hall hown => ?_⟩⟩
      · refine update_cases (Q := fun q x => Follows o _ q x.feed) ⟨?_, AList.lookup_insert ..⟩
          fun q hq hqp => (hl.follows q hq).congr (AList.lookup_insert_ne hqp) (AList.lookup_insert_ne hqp)
        exact (AList.lookup_insert ..).trans (congrArg some hself)
      · -- now the leader knows of everybody
        have hknown : ∀ q ∈ others M o, ({ m with matchIndex := m.matchIndex.insert p (o.log.length - 1) } :
            RaftNode D).matchIndex.lookup q = some (m.log.length - 1) := by
          intro q hq
          rw [h.log]
          by_cases hqp : q = p
          · rw [hqp]
            exact AList.lookup_insert ..
          · have hdone := hall q hq
            rw [Function.update_of_ne hqp] at hdone
            have hf := hl.follows q hq
            rw [hdone] at hf
            exact (AList.lookup_insert_ne hqp).trans hf.2
        have hcommit := hlast ((majority_le_card hok).trans (card_le_replicated hknown)) (by
          obtain ⟨e, he, ht⟩ := hok.logOk.last
          change (m.log[m.log.length - 1]?.map LogEntry.term) = some m.currentTerm
          rw [he, h.term, ← hown]
          have hchief : o.lastTerm = M.setting.lastTerm m.log := by
            rw [h.log]
            rfl
          rw [hchief, ht]
          rfl)
        change o.log.length ≤ commit + 1 ∧ o.log.length ≤ max m.lastApplied commit + 1
        have hlen : commit = m.log.length - 1 := hcommit
        rw [h.log] at hlen
        omega
    · change Advance o _ _ m.outbox st _
      rw [h.outbox]
      refine .update hmem ?_ ?_
      · rw [Stage.mail, hx]
        change (0 : Multiset Envelope) + ((st p).poll.mail o p + {_}) = _ ::ₘ ((st p).poll.mail o p + 0)
        rw [zero_add, add_zero, ← Multiset.singleton_add, add_comm]
      · unfold Stage.cost
        rw [hx]
        exact Nat.lt_succ_self _
    · exact update_cases (Q := fun q x => ∀ n : RaftNode D, Subject M o q (st q) n → Subject M o q x n)
        (fun n hn => hn.recorded (fun hy => hy) (fun _ => by rw [hx]; rfl) fun _ => by rw [hx]; rfl)
        fun q _ _ n hn => hn

end Chiefs

/-! A delivery. -/

section Deliveries
variable {st st' : NodeId → Stage} {e : Envelope} {out : List Envelope} {s t : Simulation D}

theorem stage_mail_ne_timeout (he : e ∈ x.mail o p) : e.2 ≠ .timeout := by
  rcases Multiset.mem_add.mp he with he | he
  · cases hv : x.poll with
    | counted =>
      rw [hv] at he
      cases he
    | asked | answered =>
      rw [hv] at he
      obtain rfl := Multiset.mem_singleton.mp he
      exact fun h => by cases h
  · cases hf : x.feed with
    | idle | done =>
      rw [hf] at he
      cases he
    | sent | refused | accepted =>
      rw [hf] at he
      obtain rfl := Multiset.mem_singleton.mp he
      exact fun h => by cases h

theorem mail_ne_timeout {P : Finset NodeId} (st : NodeId → Stage) (he : e ∈ ∑ p ∈ P, (st p).mail o p) :
    e.2 ≠ .timeout := by
  obtain ⟨p, -, he⟩ := Multiset.mem_sum.mp he
  exact stage_mail_ne_timeout he

variable [FloatText]

theorem InOffice.sent (h : InOffice M o st s) (hmail : s.mail = e ::ₘ t.mail)
    (hadv : Advance o (others M o) e out st st') :
    (out : Multiset Envelope) + t.mail = ∑ p ∈ others M o, (st' p).mail o p ∧ ∀ x ∈ out, x.2 ≠ .timeout := by
  have hsum := hadv.mail
  rw [← h.mail, hmail, Multiset.add_cons] at hsum
  have heq := (Multiset.cons_inj_right e).mp hsum
  refine ⟨heq, fun x hx => mail_ne_timeout (o := o) (P := others M o) st' ?_⟩
  rw [← heq]
  exact Multiset.mem_add.mpr (Or.inl (Multiset.mem_coe.mpr hx))

def Proceeds (M : Membership) (o : Office) (st : NodeId → Stage) (x : Option (Simulation D)) : Prop :=
  ∃ st' s', x = some s' ∧ InOffice M o st' s' ∧
    ∑ p ∈ others M o, (st' p).cost o p < ∑ p ∈ others M o, (st p).cost o p

theorem InOffice.chief_takes [Bincode] [Platform] (h : InOffice M o st s) {message : Message}
    (hmail : s.mail = (o.chief, message) ::ₘ t.mail) (ht : t.Healthy) (hnodes : t.nodes = s.nodes)
    (hm : s.nodes.lookup o.chief = some m) (htakes : Chief.Takes M o st m message t.now) :
    Proceeds M o st (t.turn o.chief (RaftNode.process · (.message message))) := by
  obtain ⟨m', st', hm', hchief, hadv, hsubs⟩ := htakes
  obtain ⟨hsent, hout⟩ := h.sent hmail hadv
  obtain ⟨s', hs', hturned⟩ := Simulation.turn_of_healthy ht (RaftNode.process · (.message message))
    (hnodes ▸ hm) hm' hout
  refine ⟨st', s', hs', ⟨hturned.healthy, ⟨_, hturned.self, hchief⟩, fun q hq => ?_, hturned.mail.trans hsent⟩,
    hadv.cost⟩
  obtain ⟨n, hn, hsub⟩ := h.subjects q hq
  refine ⟨n, ?_, hsubs q hq n hsub⟩
  rw [hturned.others q (Finset.ne_of_mem_erase hq), hnodes]
  exact hn

theorem InOffice.subject_takes [Bincode] [Platform] (h : InOffice M o st s) {message : Message}
    (hmail : s.mail = (p, message) ::ₘ t.mail)
    (ht : t.Healthy) (hnodes : t.nodes = s.nodes) (hmem : p ∈ others M o) (hn : s.nodes.lookup p = some n)
    {n' : RaftNode D} (hn' : n.process (.message message) t.now = some n')
    (hsub : Subject M o p x { n' with outbox := [] })
    (hadv : Advance o (others M o) (p, message) n'.outbox st (Function.update st p x))
    (hchief : ∀ m : RaftNode D, Chief o (others M o) st m → Chief o (others M o) (Function.update st p x) m) :
    Proceeds M o st (t.turn p (RaftNode.process · (.message message))) := by
  obtain ⟨hsent, hout⟩ := h.sent hmail hadv
  obtain ⟨s', hs', hturned⟩ := Simulation.turn_of_healthy ht (RaftNode.process · (.message message))
    (hnodes ▸ hn) hn' hout
  obtain ⟨m, hm, hc⟩ := h.chief
  refine ⟨_, s', hs', ⟨hturned.healthy, ⟨m, ?_, hchief m hc⟩, ?_, hturned.mail.trans hsent⟩, hadv.cost⟩
  · rw [hturned.others _ (Finset.ne_of_mem_erase hmem).symm, hnodes]
    exact hm
  · refine update_cases (Q := fun q x => ∃ n, s'.nodes.lookup q = some n ∧ Subject M o q x n) ⟨_, hturned.self, hsub⟩
      fun q hq hqp => ?_
    rw [hturned.others q hqp, hnodes]
    exact h.subjects q hq

/-- A node is asked for its vote. -/
theorem InOffice.asked_takes [Bincode] [Platform] {a : State NodeId LogEntry} (h : InOffice M o st s)
    (hmail : s.mail = (p, .requestVote o.request) ::ₘ t.mail) (ht : t.Healthy) (hnodes : t.nodes = s.nodes)
    (hp : p ∈ others M o) (hn : s.nodes.lookup p = some n) (hok : NodeOk M config a p n)
    (hpending : n.pendingRequests = ∅) (hv : (st p).poll = .asked) :
    Proceeds M o st (t.turn p (RaftNode.process · (.message (.requestVote o.request)))) := by
  obtain ⟨n₁, hn₁, hsub⟩ := h.subjects p hp
  obtain rfl := Option.some.inj (hn₁.symm.trans hn)
  have hstage : st p = ⟨.asked, (st p).feed⟩ := by rw [← hv]
  rw [hstage] at hsub
  obtain ⟨n', hn', hout, hsub'⟩ := hsub.votes hok hpending t.now
  refine h.subject_takes hmail ht hnodes hp hn hn' hsub' ?_ fun m hm => ?_
  · rw [hout]
    refine .update hp ?_ ?_
    · rw [Stage.mail, hv, Multiset.coe_singleton]
      change {_} + ({_} + (st p).feed.mail o p) = _ ::ₘ ({_} + (st p).feed.mail o p)
      rw [← Multiset.singleton_add]
      exact add_left_comm ..
    · unfold Stage.cost
      rw [hv]
      change 1 + (st p).feed.cost o p < 2 + (st p).feed.cost o p
      omega
  · exact hm.waits hp (fun hy => by cases hy) (fun hy => hy) (fun hy => hy) fun hy => hy

/-- A node is sent entries, and refuses them or takes them over. -/
theorem InOffice.sent_takes [Bincode] [Platform] {a : State NodeId LogEntry} {k commit : Nat}
    (h : InOffice M o st s) (hdb : Storage.NeverPanics D)
    (hmail : s.mail = (p, .appendEntries (appendFrom o.term o.chief o.log k commit)) ::ₘ t.mail) (ht : t.Healthy)
    (hnodes : t.nodes = s.nodes) (hm : s.nodes.lookup o.chief = some m) (hmok : NodeOk M config a o.chief m)
    (hp : p ∈ others M o) (hn : s.nodes.lookup p = some n) (hok : NodeOk M config a p n)
    (hpending : n.pendingRequests = ∅) (hf : (st p).feed = .sent k commit) :
    Proceeds M o st
      (t.turn p (RaftNode.process · (.message (.appendEntries (appendFrom o.term o.chief o.log k commit))))) := by
  obtain ⟨m₁, hm₁, hchief⟩ := h.chief
  obtain rfl := Option.some.inj (hm₁.symm.trans hm)
  obtain ⟨n₁, hn₁, hsub⟩ := h.subjects p hp
  obtain rfl := Option.some.inj (hn₁.symm.trans hn)
  obtain ⟨-, hpos, hle, hcommit, hlt⟩ : Follows o m₁ p (.sent k commit) := by
    rcases hchief.acts with hstands | hleads
    · cases (hstands.idle p hp).symm.trans hf
    · exact hf ▸ hleads.follows p hp
  have hstage : st p = ⟨(st p).poll, .sent k commit⟩ := by rw [← hf]
  rw [hstage] at hsub
  obtain ⟨n', f, hn', hcases, hout, hsub'⟩ := hsub.follows hdb hok hpending (hchief.log ▸ hmok.logOk) hpos hle
    hcommit hlt t.now
  refine h.subject_takes hmail ht hnodes hp hn hn' hsub' ?_ fun m hm => ?_
  · refine .update hp ?_ ?_
    · rw [hout, Stage.mail, hf]
      change f.mail o p + ((st p).poll.mail o p + {_}) = _ ::ₘ ((st p).poll.mail o p + f.mail o p)
      rw [← Multiset.singleton_add]
      abel
    · unfold Stage.cost
      rw [hf]
      change (st p).poll.cost + f.cost o p < (st p).poll.cost + (2 * (k - o.shared p) + 2)
      rcases hcases with ⟨hint, rfl, -⟩ | rfl
      · exact Nat.lt_succ_self _
      · change _ + 1 < _
        omega
  · refine hm.waits hp (fun hy hr => hm.counted hp hy hr) (fun hy => ?_) (fun hy => ?_) fun hy => ?_
    · cases hf.symm.trans hy
    · rw [hf] at hy
      rcases hcases with ⟨hint, rfl, hfar⟩ | rfl
      · exact ⟨hy.1, hfar, hy.2.2.1⟩
      · trivial
    · rcases hcases with ⟨hint, rfl, -⟩ | rfl
      · cases hy
      · cases hy

theorem Sane.node (hs : Sane M config s) : ∃ a, Inv M.setting a ∧
    ∀ id n, s.nodes.lookup id = some n → NodeOk M config a id n ∧ n.pendingRequests = ∅ := by
  obtain ⟨a, ha⟩ := hs.orderly.safe
  exact ⟨a, ha.inv, fun id n hn => ⟨ha.nodes id n hn, (hs.clientless.nodes id n hn).pending⟩⟩

/-- With messages in flight the next delivery is one of them, and brings the stages on. -/
theorem InOffice.deliverNext [Bincode] [Platform] (h : InOffice M o st s) (hdb : Storage.NeverPanics D)
    (hs : Sane M config s) (hne : s.events ≠ []) : ∃ st' s', s.deliverNext = some (true, s') ∧ InOffice M o st' s' ∧
      ∑ p ∈ others M o, (st' p).cost o p < ∑ p ∈ others M o, (st p).cost o p := by
  obtain ⟨event, rest, hperm, ht, hnext⟩ := Simulation.deliverNext_of_healthy h.healthy hne
  have hmail := Simulation.taking_mail hperm
  have hnodes : (s.taking event rest).nodes = s.nodes := rfl
  generalize s.taking event rest = t at hmail ht hnext hnodes
  suffices hproceeds : Proceeds M o st (t.turn event.dest (RaftNode.process · (.message event.message))) by
    obtain ⟨st', s', hs', hoffice, hcost⟩ := hproceeds
    exact ⟨st', s', by rw [hnext, hs']; rfl, hoffice, hcost⟩
  change Proceeds M o st (t.turn event.envelope.1 (RaftNode.process · (.message event.envelope.2)))
  obtain ⟨a, hnode⟩ := hs.node
  obtain ⟨m, hm, hchief⟩ := h.chief
  obtain ⟨hmok, hmp⟩ := hnode.2 _ m hm
  have hmem : event.envelope ∈ ∑ p ∈ others M o, (st p).mail o p := by
    rw [← h.mail, hmail]
    exact Multiset.mem_cons_self ..
  obtain ⟨p, hp, he⟩ := Multiset.mem_sum.mp hmem
  obtain ⟨n, hn, hsub⟩ := h.subjects p hp
  obtain ⟨hok, hpending⟩ := hnode.2 p n hn
  rcases Multiset.mem_add.mp he with he | he
  · cases hv : (st p).poll with
    | asked =>
      rw [hv] at he
      rw [Multiset.mem_singleton.mp he] at hmail ⊢
      exact h.asked_takes hmail ht hnodes hp hn hok hpending hv
    | answered =>
      rw [hv] at he
      rw [Multiset.mem_singleton.mp he] at hmail ⊢
      exact h.chief_takes hmail ht hnodes hm (hchief.takes_vote hmok hp hv t.now)
    | counted =>
      rw [hv] at he
      cases he
  · cases hf : (st p).feed with
    | idle | done =>
      rw [hf] at he
      cases he
    | sent k commit =>
      rw [hf] at he
      rw [Multiset.mem_singleton.mp he] at hmail ⊢
      exact h.sent_takes hdb hmail ht hnodes hm hmok hp hn hok hpending hf
    | refused k hint =>
      rw [hf] at he
      rw [Multiset.mem_singleton.mp he] at hmail ⊢
      exact h.chief_takes hmail ht hnodes hm (hchief.takes_refusal hmok hmp hp hf hsub.shared_pos t.now)
    | accepted =>
      rw [hf] at he
      rw [Multiset.mem_singleton.mp he] at hmail ⊢
      exact h.chief_takes hmail ht hnodes hm (hchief.takes_consent hdb hmok hmp hp hf t.now)

end Deliveries
end KvRaft.Simulator
