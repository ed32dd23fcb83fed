import KvRaft.Raft.Cluster
import KvRaft.Lib.LeaderCompleteness

/-! How a running cluster of fixed membership stands to the abstract replicated log, and what
each part of a handler does to that relation. -/

namespace KvRaft
open ReplicatedLog

structure Core (D : Type) where
  id : NodeId
  peers : List NodeId
  currentTerm : Nat
  votedFor : Option NodeId
  log : List LogEntry
  commitIndex : Nat
  lastApplied : Nat
  matchIndex : AList (fun _ : NodeId => Nat)
  role : Role
  votesReceived : Finset NodeId
  db : D

def RaftNode.core {D : Type} [Storage D] (n : RaftNode D) : Core D :=
  ⟨n.id, n.peers, n.currentTerm, n.votedFor, n.log, n.commitIndex, n.lastApplied, n.matchIndex,
    n.role, n.votesReceived, n.db⟩

/-- The store commands among the entries of a log at indices `1..=k`. -/
def commandsUpTo (log : List LogEntry) (k : Nat) : List Command :=
  ((log.take (k + 1)).drop 1).filterMap LogEntry.command?

theorem commandsUpTo_of_take {log log' : List LogEntry} {k : Nat}
    (h : log.take (k + 1) = log'.take (k + 1)) : commandsUpTo log k = commandsUpTo log' k := by
  rw [commandsUpTo, h, commandsUpTo]

@[simp] theorem commandsUpTo_zero (log : List LogEntry) : commandsUpTo log 0 = [] := by
  cases log with
  | nil => rfl
  | cons e log => rfl

theorem commandsUpTo_succ {log : List LogEntry} {k : Nat} {e : LogEntry}
    (h : log[k + 1]? = some e) :
    commandsUpTo log (k + 1) = commandsUpTo log k ++ e.command?.toList := by
  obtain ⟨hlt, rfl⟩ := List.getElem?_eq_some_iff.mp h
  rw [commandsUpTo, commandsUpTo, List.take_succ_eq_append_getElem hlt,
    List.drop_append_of_le_length (by rw [List.length_take]; omega), List.filterMap_append]
  cases hc : (log[k + 1]).command? with
  | none => simp [hc]
  | some c => simp [hc]

variable [FloatText]

def Membership.setting (M : Membership) : Setting NodeId LogEntry where
  members := M.members
  term := LogEntry.term
  root := sentinel
  term_root := rfl

variable (M : Membership) {D : Type} [Storage D] (config : Config)

/-- No leader ever proposed a membership change. -/
def CommandsOnly (a : State NodeId LogEntry) : Prop :=
  ∀ t c L, a.led t = some (c, L) → ∀ e ∈ L, ∃ r, e.payload = .command r

structure NodeSim (a : State NodeId LogEntry) (id : NodeId) (r : Core D) : Prop where
  id_eq : r.id = id
  peers_eq : r.peers = M.peersOf id
  term_eq : a.term id = r.currentTerm
  log_eq : a.log id = r.log
  vote_eq : r.votedFor = (a.vote id r.currentTerm).map Prod.fst
  candidate : r.role = .candidate → a.stood id r.currentTerm = some r.log ∧
    (∀ q ∈ r.votesReceived, ∃ ℓ, a.vote q r.currentTerm = some (id, ℓ)) ∧
    ∀ L, a.led r.currentTerm ≠ some (id, L)
  leader : r.role = .leader → a.led r.currentTerm = some (id, r.log) ∧
    a.acked id r.currentTerm (r.log.length - 1) ∧
    ∀ p m, r.matchIndex.lookup p = some m → m = 0 ∨ a.acked p r.currentTerm m
  tracked : ∀ p ∈ r.matchIndex, p ∈ M.peersOf id
  commit : Committed M.setting a r.currentTerm r.log r.commitIndex
  applied : Committed M.setting a r.currentTerm r.log r.lastApplied
  db_eq : r.db = Storage.runAll (Storage.fresh config) (commandsUpTo r.log r.lastApplied)

def MsgOk (a : State NodeId LogEntry) : Envelope → Prop
  | (_, .requestVote r) => ∃ ℓ, a.stood r.candidateId r.term = some ℓ ∧
      r.lastLogIndex = ℓ.length - 1 ∧ r.lastLogTerm = M.setting.lastTerm ℓ
  | (dest, .requestVoteResponse r) => r.voteGranted = true →
      ∃ ℓ, a.vote r.voterId r.term = some (dest, ℓ)
  | (dest, .appendEntries ae) => ∃ L, a.led ae.term = some (ae.leaderId, L) ∧ dest ≠ ae.leaderId ∧
      ae.prevLogIndex + ae.entries.length < L.length ∧
      (L[ae.prevLogIndex]?.map LogEntry.term) = some ae.prevLogTerm ∧
      (L.drop (ae.prevLogIndex + 1)).take ae.entries.length = ae.entries ∧
      ae.leaderCommit ≤ ae.prevLogIndex + ae.entries.length ∧
      Committed M.setting a ae.term L ae.leaderCommit
  | (dest, .appendEntriesResponse r) => r.followerId ∈ M.members ∧ r.followerId ≠ dest ∧
      (r.success = true → a.acked r.followerId r.term r.matchIndex)
  | (_, .addNode ..) => False
  | (_, .removeNode _) => False
  | _ => True

structure NodeOk (a : State NodeId LogEntry) (id : NodeId) (n : RaftNode D) : Prop where
  inv : Inv M.setting a
  commands : CommandsOnly a
  mem : id ∈ M.members
  sim : NodeSim M config a id n.core
  outbox : ∀ e ∈ n.outbox, MsgOk M a e

structure Evolves (id : NodeId) (a a' : State NodeId LogEntry) : Prop where
  run : Run M.setting a a'
  hist : Extends a a'
  term : ∀ n, n ≠ id → a'.term n = a.term n
  log : ∀ n, n ≠ id → a'.log n = a.log n
  vote : ∀ n, n ≠ id → a'.vote n = a.vote n
  stood : ∀ n, n ≠ id → a'.stood n = a.stood n
  led : ∀ n t L, n ≠ id → (a'.led t = some (n, L) ↔ a.led t = some (n, L))

section Evolves
variable {M} {id : NodeId} {a a' a'' : State NodeId LogEntry}

theorem Evolves.refl : Evolves M id a a :=
  ⟨.refl, Extends.refl a, fun _ _ => rfl, fun _ _ => rfl, fun _ _ => rfl, fun _ _ => rfl,
    fun _ _ _ _ => Iff.rfl⟩

theorem Evolves.trans (h : Evolves M id a a') (h' : Evolves M id a' a'') : Evolves M id a a'' :=
  ⟨h.run.trans h'.run, h.hist.trans h'.hist, fun n hn => (h'.term n hn).trans (h.term n hn),
    fun n hn => (h'.log n hn).trans (h.log n hn), fun n hn => (h'.vote n hn).trans (h.vote n hn),
    fun n hn => (h'.stood n hn).trans (h.stood n hn),
    fun n t L hn => (h'.led n t L hn).trans (h.led n t L hn)⟩

theorem Evolves.advance (hinv : Inv M.setting a) {t : ℕ} (h : a.term id < t) :
    Evolves M id a (a.advance id t) := by
  have hs := Step.advance (S := M.setting) a id t h
  exact ⟨.single hs, hs.extends hinv, fun n hn => State.advance_term_of_ne hn, fun _ _ => rfl,
    fun _ _ => rfl, fun _ _ => rfl, fun _ _ _ _ => Iff.rfl⟩

theorem Evolves.stand (hinv : Inv M.setting a) (hid : id ∈ M.members) :
    Evolves M id a (a.stand id) := by
  have hs := Step.stand (S := M.setting) a id hid
  exact ⟨.single hs, hs.extends hinv, fun n hn => State.stand_term_of_ne hn, fun _ _ => rfl,
    fun n hn => funext fun _ => set2_of_left hn, fun n hn => funext fun _ => set2_of_left hn,
    fun _ _ _ _ => Iff.rfl⟩

theorem Evolves.grant (hinv : Inv M.setting a) {c : NodeId} {ℓ : List LogEntry}
    (hid : id ∈ M.members) (hv : a.vote id (a.term id) = none) (hs : a.stood c (a.term id) = some ℓ)
    (hu : M.setting.UpToDate ℓ (a.log id)) : Evolves M id a (a.grant id c) := by
  have hs := Step.grant (S := M.setting) a id c ℓ hid hv hs hu
  exact ⟨.single hs, hs.extends hinv, fun _ _ => rfl, fun _ _ => rfl,
    fun n hn => funext fun _ => set2_of_left hn, fun _ _ => rfl, fun _ _ _ _ => Iff.rfl⟩

theorem Evolves.elect (hinv : Inv M.setting a) {Q : Finset NodeId}
    (hs : a.stood id (a.term id) = some (a.log id)) (hQ : M.setting.Majority Q)
    (hv : ∀ q ∈ Q, ∃ ℓ, a.vote q (a.term id) = some (id, ℓ)) (hn : a.led (a.term id) = none)
    (hid : id ∈ M.members) : Evolves M id a (a.elect id) := by
  have hs := Step.elect (S := M.setting) a id Q hs hQ hv hn hid
  refine ⟨.single hs, hs.extends hinv, fun _ _ => rfl, fun _ _ => rfl, fun _ _ => rfl,
    fun _ _ => rfl, fun n t L hne => ?_⟩
  by_cases ht : t = a.term id
  · subst ht
    rw [State.elect_led, hn]
    exact ⟨fun h => absurd (Prod.mk.inj (Option.some.inj h)).1.symm hne, fun h => nomatch h⟩
  · rw [State.elect_led_of_ne ht]

theorem Evolves.propose (hinv : Inv M.setting a) {e : LogEntry}
    (hl : a.led (a.term id) = some (id, a.log id)) (he : e.term = a.term id)
    (hid : id ∈ M.members) : Evolves M id a (a.propose id e) := by
  have hs := Step.propose (S := M.setting) a id e hl he hid
  refine ⟨.single hs, hs.extends hinv, fun _ _ => rfl, fun n hn => State.propose_log_of_ne hn,
    fun _ _ => rfl, fun _ _ => rfl, fun n t L hne => ?_⟩
  by_cases ht : t = a.term id
  · subst ht
    rw [State.propose_led, hl]
    exact ⟨fun h => absurd (Prod.mk.inj (Option.some.inj h)).1.symm hne,
      fun h => absurd (Prod.mk.inj (Option.some.inj h)).1.symm hne⟩
  · rw [State.propose_led_of_ne ht]

theorem Evolves.accept (hinv : Inv M.setting a) {c : NodeId} {L ℓ : List LogEntry} {m : ℕ}
    (hid : id ∈ M.members) (hl : a.led (a.term id) = some (c, L)) (hm : m < L.length)
    (hc : id ≠ c) (hℓ : Accepts L m (a.log id) ℓ) : Evolves M id a (a.accept id m ℓ) := by
  have hs := Step.accept (S := M.setting) a id c L m ℓ hid hl hm hc hℓ
  exact ⟨.single hs, hs.extends hinv, fun _ _ => rfl, fun n hn => State.accept_log_of_ne hn,
    fun _ _ => rfl, fun _ _ => rfl, fun _ _ _ _ => Iff.rfl⟩

end Evolves

section Frame
variable {M config} {id : NodeId} {a a' : State NodeId LogEntry}

theorem MsgOk.mono {e : Envelope} (h : MsgOk M a e) (hx : Extends a a') : MsgOk M a' e := by
  obtain ⟨dest, m⟩ := e
  cases m with
  | requestVote r =>
    obtain ⟨ℓ, hs, h1, h2⟩ := h
    exact ⟨ℓ, hx.stood _ _ _ hs, h1, h2⟩
  | requestVoteResponse r =>
    intro hg
    obtain ⟨ℓ, hv⟩ := h hg
    exact ⟨ℓ, hx.vote _ _ _ hv⟩
  | appendEntries ae =>
    obtain ⟨L, hl, hd, hlen, hprev, hent, hlc, hcm⟩ := h
    obtain ⟨L', hl', hp⟩ := hx.led _ _ _ hl
    refine ⟨L', hl', hd, hlen.trans_le hp.length_le, ?_, ?_, hlc, hcm.mono hx le_rfl hp⟩
    · rwa [prefix_getElem? hp (by omega)]
    · obtain ⟨r, rfl⟩ := hp
      rw [List.drop_append_of_le_length (by omega),
        List.take_append_of_le_length (by rw [List.length_drop]; omega)]
      exact hent
  | appendEntriesResponse r => exact ⟨h.1, h.2.1, fun hg => hx.acked _ _ _ (h.2.2 hg)⟩
  | addNode => exact h
  | removeNode => exact h
  | clientCommand => trivial
  | clientRequest => trivial
  | clientQuery => trivial
  | statusQuery => trivial
  | clientResponse => trivial
  | timeout => trivial

theorem NodeSim.frame {n : NodeId} {r : Core D} (h : NodeSim M config a n r)
    (he : Evolves M id a a') (hn : n ≠ id) : NodeSim M config a' n r where
  id_eq := h.id_eq
  peers_eq := h.peers_eq
  term_eq := (he.term n hn).trans h.term_eq
  log_eq := (he.log n hn).trans h.log_eq
  vote_eq := by rw [he.vote n hn]; exact h.vote_eq
  candidate hr := by
    obtain ⟨h1, h2, h3⟩ := h.candidate hr
    refine ⟨by rw [he.stood n hn]; exact h1, fun q hq => ?_, fun L hl => h3 L ((he.led n _ L hn).mp hl)⟩
    obtain ⟨ℓ, hv⟩ := h2 q hq
    exact ⟨ℓ, he.hist.vote _ _ _ hv⟩
  leader hr := by
    obtain ⟨h1, h2, h3⟩ := h.leader hr
    exact ⟨(he.led n _ _ hn).mpr h1, he.hist.acked _ _ _ h2,
      fun p m hm => (h3 p m hm).imp_right (he.hist.acked _ _ _)⟩
  tracked := h.tracked
  commit := h.commit.mono he.hist le_rfl List.prefix_rfl
  applied := h.applied.mono he.hist le_rfl List.prefix_rfl
  db_eq := h.db_eq

end Frame
end KvRaft
