import KvRaft.Raft.Clients

/-! What keeps a handler from panicking: a leader knows a usable `next_index` for each of its peers, and
what the messages in flight say about a leader's log is within that log. -/

namespace KvRaft
variable {D : Type} [Storage D]

/-- No call of the database panics. -/
def Storage.NeverPanics (D : Type) [Storage D] : Prop :=
  ∀ (d : D) (c : Command) (m : String), (Storage.run d c).1 ≠ .error (.panic m)

def Message.replicates : Message → Bool
  | .appendEntries _ | .appendEntriesResponse _ => true
  | _ => false

namespace RaftNode

structure Steady (n : RaftNode D) : Prop where
  commit_lt : n.commitIndex < n.log.length
  tracked : n.role = .leader → ∀ p ∈ n.peers, ∃ k, n.nextIndex.lookup p = some k ∧ 1 ≤ k ∧ k ≤ n.log.length
  keys : ∀ p ∈ n.nextIndex, p ∈ n.peers ∨ p = n.id

/-- As leader of term `t` the node has had an entry at index `k`; it may have gone on since. -/
def Backs (n : RaftNode D) (t k : Nat) : Prop :=
  t < n.currentTerm ∨ (t = n.currentTerm ∧ n.role ≠ .candidate ∧ (n.role = .leader → k < n.log.length))

/-- What a node sends while it processes `input`, as far as leaders rely on it. -/
inductive Sends (input : Input) (n : RaftNode D) : Envelope → Prop
  | appendEntries {dest : NodeId} {ae : AppendEntries} (hid : ae.leaderId = n.id)
      (h : n.Backs ae.term (ae.prevLogIndex + ae.entries.length)) : Sends input n (dest, .appendEntries ae)
  | accepted {ae : AppendEntries} {r : AppendEntriesResponse} (hi : input = .message (.appendEntries ae))
      (ht : r.term = ae.term) (hm : r.matchIndex = ae.prevLogIndex + ae.entries.length) :
      Sends input n (ae.leaderId, .appendEntriesResponse r)
  | rejected {dest : NodeId} {r : AppendEntriesResponse} (h : r.success = false) :
      Sends input n (dest, .appendEntriesResponse r)
  | other {dest : NodeId} {m : Message} (h : m.replicates = false) : Sends input n (dest, m)

structure Onward (input : Input) (n n' : RaftNode D) : Prop where
  id_eq : n'.id = n.id
  backs : ∀ t k, n.Backs t k → n'.Backs t k
  sent : ∀ e ∈ n'.outbox, e ∈ n.outbox ∨ Sends input n' e

def Goes (input : Input) (n : RaftNode D) (x : Option (RaftNode D)) : Prop :=
  ∃ n', x = some n' ∧ n'.Steady ∧ Onward input n n'

end RaftNode
open RaftNode

section Onward
variable {x : Input} {n m n' : RaftNode D}

theorem Envelope.isResponse.sends {e : Envelope} (h : e.isResponse) : Sends x n e := by
  obtain ⟨dest, m⟩ := e
  obtain ⟨r, rfl⟩ : ∃ r, m = .clientResponse r := h
  exact .other rfl

namespace RaftNode

theorem Onward.refl (n : RaftNode D) : Onward x n n := ⟨rfl, fun _ _ h => h, fun _ he => Or.inl he⟩

theorem Sends.mono {e : Envelope} (h : Sends x n e) (hid : n'.id = n.id)
    (hb : ∀ t k, n.Backs t k → n'.Backs t k) : Sends x n' e := by
  cases h with
  | appendEntries h1 h2 => exact .appendEntries (h1.trans hid.symm) (hb _ _ h2)
  | accepted hi ht hm => exact .accepted hi ht hm
  | rejected h => exact .rejected h
  | other h => exact .other h

theorem Onward.trans (h : Onward x n m) (h' : Onward x m n') : Onward x n n' := by
  refine ⟨h'.id_eq.trans h.id_eq, fun t k hb => h'.backs t k (h.backs t k hb), fun e he => ?_⟩
  rcases h'.sent e he with hm | hs
  · exact (h.sent e hm).imp_right fun hs => hs.mono h'.id_eq h'.backs
  · exact Or.inr hs

theorem Onward.same (hid : n'.id = n.id) (hterm : n'.currentTerm = n.currentTerm) (hrole : n'.role = n.role)
    (hlog : n.log.length ≤ n'.log.length) (hout : ∀ e ∈ n'.outbox, e ∈ n.outbox ∨ Sends x n' e) :
    Onward x n n' := by
  refine ⟨hid, fun t k hb => ?_, hout⟩
  unfold Backs at hb ⊢
  rw [hterm, hrole]
  rcases hb with hlt | ⟨ht, hc, hl⟩
  · exact Or.inl hlt
  · exact Or.inr ⟨ht, hc, fun hr => (hl hr).trans_le hlog⟩

theorem Onward.heartbeat (n : RaftNode D) (ms : Nat) : Onward x n { n with heartbeatDeadline := ms } :=
  .same rfl rfl rfl le_rfl fun _ he => Or.inl he

theorem Onward.follower (hid : n'.id = n.id) (hterm : n.currentTerm ≤ n'.currentTerm)
    (hrole : n'.role = .follower) (hout : ∀ e ∈ n'.outbox, e ∈ n.outbox ∨ Sends x n' e) :
    Onward x n n' := by
  refine ⟨hid, fun t k hb => ?_, hout⟩
  unfold Backs at hb ⊢
  rw [hrole]
  have hle : t ≤ n'.currentTerm := by
    rcases hb with hlt | ⟨rfl, -⟩
    · exact (hlt.trans_le hterm).le
    · exact hterm
  rcases hle.lt_or_eq with hlt | heq
  · exact Or.inl hlt
  · exact Or.inr ⟨heq, nofun, nofun⟩

theorem Onward.later (hid : n'.id = n.id) (hterm : n.currentTerm < n'.currentTerm)
    (hout : ∀ e ∈ n'.outbox, e ∈ n.outbox ∨ Sends x n' e) : Onward x n n' := by
  refine ⟨hid, fun t k hb => Or.inl ?_, hout⟩
  rcases hb with hlt | ⟨rfl, -⟩
  · exact hlt.trans hterm
  · exact hterm

theorem Goes.of_onward {y : Option (RaftNode D)} (h : Onward x n m) (hy : Goes x m y) :
    Goes x n y := by
  obtain ⟨n', hn', hs, ho⟩ := hy
  exact ⟨n', hn', hs, h.trans ho⟩

/-- A change that neither the log nor the membership nor the progress of the peers sees. -/
theorem Steady.congr (h : n.Steady) (hid : n'.id = n.id) (hpeers : n'.peers = n.peers)
    (hlog : n'.log = n.log) (hcommit : n'.commitIndex = n.commitIndex) (hnext : n'.nextIndex = n.nextIndex)
    (hrole : n'.role = .leader → n.role = .leader) : n'.Steady := by
  refine ⟨by rw [hcommit, hlog]; exact h.commit_lt, fun hr => ?_, ?_⟩
  · rw [hpeers, hnext, hlog]
    exact h.tracked (hrole hr)
  · rw [hnext, hpeers, hid]
    exact h.keys

theorem Goes.some {m : RaftNode D} (hs : m.Steady) (ho : Onward x n m) : Goes x n (some m) :=
  ⟨m, rfl, hs, ho⟩

theorem Steady.goes (h : n.Steady) : Goes x n (Option.some n) := .some h (.refl n)

end RaftNode
end Onward

section Leader
variable {x : Input} {n n' : RaftNode D}

theorem sendAppendEntries_tracked (hr : n.role = .leader) {p : NodeId} {k : Nat}
    (hk : n.nextIndex.lookup p = some k) (hpos : 1 ≤ k) (hle : k ≤ n.log.length) :
    ∃ out, n.sendAppendEntries p = some { n with outbox := out } ∧
      Onward x n { n with outbox := out } := by
  have hlt : k - 1 < n.log.length := by omega
  have hnot : n.role ≠ .candidate := by
    rw [hr]
    decide
  have hmake : n.makeAppendEntries p = some ⟨n.currentTerm, n.id, k - 1, (n.log[k - 1]).term, n.log.drop k,
      n.commitIndex⟩ := by
    simp [makeAppendEntries, hk, hpos, hle, List.getElem?_eq_getElem hlt]
  refine ⟨n.outbox ++ [_], by rw [sendAppendEntries, hmake]; rfl, .same rfl rfl rfl le_rfl fun e he => ?_⟩
  refine (List.mem_append.mp he).imp_right fun he => ?_
  rw [List.mem_singleton.mp he]
  refine .appendEntries rfl (Or.inr ⟨rfl, hnot, fun _ => ?_⟩)
  change k - 1 + (n.log.drop k).length < n.log.length
  rw [List.length_drop]
  omega

theorem sendAppendEntries_goes (h : n.Steady) (hr : n.role = .leader) {p : NodeId} (hp : p ∈ n.peers) :
    Goes x n (n.sendAppendEntries p) := by
  obtain ⟨k, hk, hpos, hle⟩ := h.tracked hr p hp
  obtain ⟨out, hs, ho⟩ := sendAppendEntries_tracked (x := x) hr hk hpos hle
  exact ⟨_, hs, h.congr rfl rfl rfl rfl rfl fun hr => hr, ho⟩

theorem foldlM_send_tracked (hr : n.role = .leader) (ps : List NodeId)
    (hps : ∀ p ∈ ps, ∃ k, n.nextIndex.lookup p = some k ∧ 1 ≤ k ∧ k ≤ n.log.length) :
    ∃ out, ps.foldlM sendAppendEntries n = some { n with outbox := out } ∧
      Onward x n { n with outbox := out } := by
  induction ps generalizing n with
  | nil => exact ⟨n.outbox, rfl, .refl n⟩
  | cons p ps ih =>
    obtain ⟨k, hk, hpos, hle⟩ := hps p List.mem_cons_self
    obtain ⟨out, hs, ho⟩ := sendAppendEntries_tracked (x := x) hr hk hpos hle
    obtain ⟨out', hs', ho'⟩ := ih (n := { n with outbox := out }) hr
      fun q hq => hps q (List.mem_cons_of_mem p hq)
    exact ⟨out', by rw [List.foldlM_cons, hs]; exact hs', ho.trans ho'⟩

theorem sendHeartbeats_goes (h : n.Steady) (hr : n.role = .leader) :
    Goes x n n.sendHeartbeats := by
  obtain ⟨out, hs, ho⟩ := foldlM_send_tracked (x := x) hr n.peers (h.tracked hr)
  exact ⟨_, hs, h.congr rfl rfl rfl rfl rfl fun hr => hr, ho⟩

theorem foldlM_welcomePeer (hr : n.role = .leader) (hpos : 0 < n.log.length) (ps : List NodeId) :
    ∃ next mat out, ps.foldlM welcomePeer n =
        some { n with nextIndex := next, matchIndex := mat, outbox := out } ∧
      (∀ p, p ∈ ps ∨ n.nextIndex.lookup p = some n.log.length → next.lookup p = some n.log.length) ∧
      (∀ p ∈ next, p ∈ n.nextIndex ∨ p ∈ ps) ∧
      Onward x n { n with nextIndex := next, matchIndex := mat, outbox := out } := by
  induction ps generalizing n with
  | nil =>
    refine ⟨n.nextIndex, n.matchIndex, n.outbox, rfl, fun p hp => ?_, fun p hp => Or.inl hp, .refl n⟩
    exact hp.resolve_left List.not_mem_nil
  | cons p ps ih =>
    obtain ⟨out, hs, ho⟩ := sendAppendEntries_tracked (x := x) (n := { n with
      nextIndex := n.nextIndex.insert p n.log.length
      matchIndex := n.matchIndex.insert p 0 }) hr (AList.lookup_insert n.nextIndex) hpos le_rfl
    have hfirst : Onward x n { n with
        nextIndex := n.nextIndex.insert p n.log.length
        matchIndex := n.matchIndex.insert p 0 } := .same rfl rfl rfl le_rfl fun _ he => Or.inl he
    obtain ⟨next, mat, out', hs', hset, hkeys, ho'⟩ := ih (n := { n with
      nextIndex := n.nextIndex.insert p n.log.length
      matchIndex := n.matchIndex.insert p 0
      outbox := out }) hr hpos
    refine ⟨next, mat, out', ?_, fun q hq => hset q ?_, fun q hq => ?_, (hfirst.trans ho).trans ho'⟩
    · rw [List.foldlM_cons, welcomePeer, hs]
      exact hs'
    · rcases hq with hq | hq
      · rcases List.mem_cons.mp hq with rfl | hq
        · exact Or.inr (AList.lookup_insert n.nextIndex)
        · exact Or.inl hq
      · right
        by_cases hqp : q = p
        · rw [hqp]
          exact AList.lookup_insert n.nextIndex
        · exact (AList.lookup_insert_ne hqp).trans hq
    · rcases hkeys q hq with hq | hq
      · rcases (AList.mem_insert n.nextIndex).mp hq with rfl | hq
        · exact Or.inr List.mem_cons_self
        · exact Or.inl hq
      · exact Or.inr (List.mem_cons_of_mem p hq)

theorem becomeLeader_goes (h : n.Steady) (hr : n.role = .candidate) (now : Instant) :
    Goes x n (n.becomeLeader now) := by
  have hpos : 0 < n.log.length := Nat.zero_lt_of_lt h.commit_lt
  obtain ⟨next, mat, out, hs, hset, hkeys, ho⟩ := foldlM_welcomePeer (x := x)
    (n := { n with role := .leader, leaderId := some n.id }) rfl hpos n.peers
  -- a candidate has not sent any entries of its term yet
  have hlead : Onward x n { n with role := .leader, leaderId := some n.id } := by
    refine ⟨rfl, fun t k hb => ?_, fun _ he => Or.inl he⟩
    exact hb.elim Or.inl fun hb => absurd hr hb.2.1
  have hsteady : ({ n with
      role := .leader, leaderId := some n.id, nextIndex := next, matchIndex := mat, outbox := out } :
      RaftNode D).Steady := by
    refine ⟨h.commit_lt, fun _ p hp => ⟨n.log.length, hset p (Or.inl hp), hpos, le_rfl⟩, fun p hp => ?_⟩
    rcases hkeys p hp with hp | hp
    · exact h.keys p hp
    · exact Or.inl hp
  have hall := hlead.trans ho
  generalize ({ n with role := .leader, leaderId := some n.id, nextIndex := next, matchIndex := mat, outbox := out } :
    RaftNode D) = b at hs hsteady hall
  refine ⟨{ b with heartbeatDeadline := now.ns + 100000000 }, ?_, hsteady.congr rfl rfl rfl rfl rfl fun hr => hr,
    hall.trans (.heartbeat b _)⟩
  rw [becomeLeader]
  exact Option.bind_eq_some_iff.mpr ⟨b, hs, rfl⟩

end Leader

section Apply
variable {x : Input} {n n' : RaftNode D}

theorem lookup_orInsert {m : AList (fun _ : NodeId => Nat)} {p id : NodeId} {k v : Nat} {c : Prop} [Decidable c]
    (h : m.lookup p = some k) : (if c ∧ id ∉ m then m.insert id v else m).lookup p = some k := by
  split_ifs with hc
  · have hne : p ≠ id := by
      rintro rfl
      exact hc.2 (AList.lookup_isSome.mp (Option.isSome_of_eq_some h))
    rw [AList.lookup_insert_ne hne, h]
  · exact h

theorem addNode_steady (h : n.Steady) (id : NodeId) (addr : String) :
    (n.applyPayload (.addNode id addr)).2.Steady := by
  refine ⟨h.commit_lt, fun hr p hp => ?_, fun p hp => ?_⟩
  · have hr : n.role = .leader := hr
    change p ∈ (if id ≠ n.id ∧ id ∉ n.peers then n.peers ++ [id] else n.peers) at hp
    change ∃ k, (if n.role = .leader ∧ id ∉ n.nextIndex then n.nextIndex.insert id n.log.length
      else n.nextIndex).lookup p = some k ∧ 1 ≤ k ∧ k ≤ n.log.length
    have hold : p ∈ n.peers ∨ (p = id ∧ id ≠ n.id ∧ id ∉ n.peers) := by
      split_ifs at hp with hnew
      · exact (List.mem_append.mp hp).imp_right fun hp => ⟨List.mem_singleton.mp hp, hnew⟩
      · exact Or.inl hp
    rcases hold with hp | ⟨rfl, hself, hpeer⟩
    · obtain ⟨k, hk, hpos, hle⟩ := h.tracked hr p hp
      exact ⟨k, lookup_orInsert hk, hpos, hle⟩
    · -- nothing is left over from a time before
      have hnone : p ∉ n.nextIndex := fun hmem => (h.keys p hmem).elim hpeer hself
      rw [if_pos ⟨hr, hnone⟩, AList.lookup_insert]
      exact ⟨n.log.length, rfl, Nat.succ_le_of_lt (Nat.zero_lt_of_lt h.commit_lt), le_rfl⟩
  · change p ∈ (if n.role = .leader ∧ id ∉ n.nextIndex then n.nextIndex.insert id n.log.length
      else n.nextIndex) at hp
    change p ∈ (if id ≠ n.id ∧ id ∉ n.peers then n.peers ++ [id] else n.peers) ∨ p = n.id
    have hold : p ∈ n.nextIndex ∨ p = id := by
      split_ifs at hp with hnew
      · exact ((AList.mem_insert n.nextIndex).mp hp).symm
      · exact Or.inl hp
    split_ifs with hnew
    · rcases hold with hp | rfl
      · exact (h.keys p hp).imp_left (List.mem_append_left [id])
      · exact Or.inl (List.mem_append_right n.peers (List.mem_singleton_self p))
    · rcases hold with hp | rfl
      · exact h.keys p hp
      · exact (not_and_or.mp hnew).symm.imp not_not.mp not_not.mp

theorem removeNode_steady (h : n.Steady) (id : NodeId) : (n.applyPayload (.removeNode id)).2.Steady := by
  refine ⟨h.commit_lt, fun hr p hp => ?_, fun p hp => ?_⟩
  · obtain ⟨hp, hne⟩ := List.mem_filter.mp hp
    obtain ⟨k, hk, hpos, hle⟩ := h.tracked hr p hp
    exact ⟨k, (AList.lookup_erase_ne (of_decide_eq_true hne)).trans hk, hpos, hle⟩
  · obtain ⟨hne, hp⟩ := AList.mem_erase.mp hp
    exact (h.keys p hp).imp_left fun hp => List.mem_filter.mpr ⟨hp, decide_eq_true hne⟩

theorem applyPayload_onward (h : n.Steady) (p : EntryPayload) :
    (n.applyPayload p).2.Steady ∧ Onward x n (n.applyPayload p).2 := by
  cases p with
  | command r =>
    exact ⟨h.congr rfl rfl rfl rfl rfl fun hr => hr, .same rfl rfl rfl le_rfl fun _ he => Or.inl he⟩
  | addNode id addr => exact ⟨addNode_steady h id addr, .same rfl rfl rfl le_rfl fun _ he => Or.inl he⟩
  | removeNode id => exact ⟨removeNode_steady h id, .same rfl rfl rfl le_rfl fun _ he => Or.inl he⟩

theorem resolvePending_onward (h : n.Steady) (index term : Nat) (result : Except Fault Unit) :
    (n.resolvePending index term result).Steady ∧ Onward x n (n.resolvePending index term result) := by
  unfold RaftNode.resolvePending
  cases n.pendingRequests.lookup (index, term) with
  | none => exact ⟨h, .refl n⟩
  | some responder =>
    refine ⟨h.congr rfl rfl rfl rfl rfl fun hr => hr, .same rfl rfl rfl le_rfl fun e he => ?_⟩
    exact (Responder.send_outbox responder _ _ _ _ _ _ _ _ _ e he).imp_right (·.sends)

theorem applyNext_onward (h : n.Steady) (hs : n.applyNext = some n') :
    n'.Steady ∧ Onward x n n' := by
  obtain ⟨e, -, rfl⟩ := applyNext_eq_some hs
  obtain ⟨hsteady, ho⟩ := applyPayload_onward (x := x) h e.payload
  generalize n.applyPayload e.payload = p at hsteady ho ⊢
  obtain ⟨result, b⟩ := p
  dsimp only at hsteady ho ⊢
  have hnext : Onward x b { b with lastApplied := n.lastApplied + 1 } :=
    .same rfl rfl rfl le_rfl fun _ he => Or.inl he
  obtain ⟨hsteady', ho'⟩ := resolvePending_onward (x := x)
    (n := { b with lastApplied := n.lastApplied + 1 }) (hsteady.congr rfl rfl rfl rfl rfl fun hr => hr)
    (n.lastApplied + 1) e.term result
  exact ⟨hsteady', (ho.trans hnext).trans ho'⟩

variable (hdb : Storage.NeverPanics D)
include hdb

theorem exists_applyNext {e : LogEntry} (he : n.log[n.lastApplied + 1]? = some e) :
    ∃ n', n.applyNext = some n' := by
  -- only the database can panic here
  have hno : ∀ m, (n.applyPayload e.payload).1 ≠ .error (.panic m) := by
    intro m
    cases e.payload with
    | command r => exact hdb n.db r.command m
    | addNode id addr => exact nofun
    | removeNode id => exact nofun
  unfold RaftNode.applyNext
  simp only [he, Option.bind_eq_bind, Option.bind_some]
  generalize n.applyPayload e.payload = p at hno
  obtain ⟨result, b⟩ := p
  dsimp only at hno ⊢
  exact ⟨_, rfl⟩

theorem applyLoop_goes (h : n.Steady) {k : Nat} (hk : n.lastApplied + k ≤ n.commitIndex) :
    Goes x n (n.applyLoop k) := by
  induction k generalizing n with
  | zero => exact h.goes
  | succ k ih =>
    have hlt : n.lastApplied + 1 < n.log.length := by
      have := h.commit_lt
      omega
    obtain ⟨b, hb⟩ := exists_applyNext hdb (List.getElem?_eq_getElem hlt)
    obtain ⟨hsteady, ho⟩ := applyNext_onward (x := x) h hb
    obtain ⟨e, points, -, hkernel, -⟩ := applyNext_kernel hb
    have happ : b.lastApplied = n.lastApplied + 1 := congrArg Kernel.lastApplied hkernel
    have hcom : b.commitIndex = n.commitIndex := congrArg Kernel.commitIndex hkernel
    rw [RaftNode.applyLoop, hb, Option.bind_some]
    exact .of_onward ho (ih hsteady (by omega))

theorem applyCommittedEntries_goes (h : n.Steady) : Goes x n n.applyCommittedEntries := by
  rw [RaftNode.applyCommittedEntries]
  by_cases hle : n.commitIndex ≤ n.lastApplied
  · rw [Nat.sub_eq_zero_of_le hle]
    exact h.goes
  · exact applyLoop_goes hdb h (by omega)

theorem settle_goes {k : Nat} (hk : k < n.log.length) (htracked : n.role = .leader → ∀ p ∈ n.peers, ∃ k,
      n.nextIndex.lookup p = some k ∧ 1 ≤ k ∧ k ≤ n.log.length)
    (hkeys : ∀ p ∈ n.nextIndex, p ∈ n.peers ∨ p = n.id) :
    Goes x n ({ n with commitIndex := k } : RaftNode D).persistMeta.applyCommittedEntries := by
  have hsaved : Onward x n ({ n with commitIndex := k } : RaftNode D).persistMeta :=
    .same rfl rfl rfl le_rfl fun _ he => Or.inl he
  have hsteady : ({ n with commitIndex := k } : RaftNode D).persistMeta.Steady := ⟨hk, htracked, hkeys⟩
  exact .of_onward hsaved (applyCommittedEntries_goes hdb hsteady)

theorem updateCommitIndex_goes (h : n.Steady) : Goes x n n.updateCommitIndex := by
  have hpos := h.commit_lt
  refine settle_goes hdb ?_ h.tracked h.keys
  rcases foldl_commitAt_le n (List.range' (n.commitIndex + 1) (n.log.length - (n.commitIndex + 1)))
    (Or.inl rfl) with heq | hle
  · rw [heq]
    exact h.commit_lt
  · omega

theorem replicate_goes (h : n.Steady) (hr : n.role = .leader) : Goes x n n.replicate := by
  rw [RaftNode.replicate]
  split_ifs
  · exact updateCommitIndex_goes hdb h
  · exact sendHeartbeats_goes h hr

end Apply

section Handlers
variable {x : Input} {n n' : RaftNode D} (now : Instant) (hdb : Storage.NeverPanics D)

theorem pushLogEntry_onward [Bincode] (h : n.Steady) (e : LogEntry) :
    (n.pushLogEntry e).Steady ∧ Onward x n (n.pushLogEntry e) := by
  have hlen : n.log.length ≤ (n.pushLogEntry e).log.length := by
    rw [pushLogEntry_log, List.length_append]
    exact Nat.le_add_right ..
  refine ⟨⟨h.commit_lt.trans_le hlen, fun hr p hp => ?_, h.keys⟩, .same rfl rfl rfl hlen fun _ he => Or.inl he⟩
  obtain ⟨k, hk, hpos, hle⟩ := h.tracked hr p hp
  exact ⟨k, hk, hpos, hle.trans hlen⟩

theorem stepDown_onward (h : n.Steady) {t : Nat} (ht : n.currentTerm < t) :
    (n.stepDown t now).Steady ∧ Onward x n (n.stepDown t now) :=
  ⟨h.congr rfl rfl rfl rfl rfl fun hr => (nomatch hr),
    .later rfl ht fun e he => (stepDown_outbox n t now e he).imp_right (·.sends)⟩

theorem observeTerm_onward (h : n.Steady) (t : Nat) :
    (n.observeTerm t now).Steady ∧ Onward x n (n.observeTerm t now) := by
  rw [RaftNode.observeTerm]
  split_ifs with ht
  · exact stepDown_onward now h ht
  · exact ⟨h, .refl n⟩

theorem respond_goes (h : n.Steady) (r : Responder) (success : Bool) (value : Option Value) (message : String)
    (leader : Option NodeId) (term : Nat) :
    Goes x n (some (n.respond r success value message leader term)) :=
  .some (h.congr rfl rfl rfl rfl rfl fun hr => hr) (.same rfl rfl rfl le_rfl fun e he =>
    (Responder.send_outbox r _ _ _ _ _ _ _ _ _ e he).imp_right (·.sends))

theorem forward_goes (h : n.Steady) {m : Message} (hm : m.replicates = false) : Goes x n (some (n.forward m)) := by
  unfold RaftNode.forward
  split
  · refine .some (h.congr rfl rfl rfl rfl rfl fun hr => hr) (.same rfl rfl rfl le_rfl fun e he => ?_)
    refine (List.mem_append.mp he).imp_right fun he => ?_
    rw [List.mem_singleton.mp he]
    exact .other hm
  · exact h.goes

theorem exists_last (h : n.Steady) : ∃ last, n.log[n.log.length - 1]? = some last := by
  have hlt : n.log.length - 1 < n.log.length := Nat.sub_lt (Nat.zero_lt_of_lt h.commit_lt) Nat.one_pos
  exact ⟨_, List.getElem?_eq_getElem hlt⟩

theorem handleRequestVote_goes (h : n.Steady) (request : RequestVote) :
    ∃ n' response, n.handleRequestVote request now = some (n', response) ∧ n'.Steady ∧ Onward x n n' := by
  unfold RaftNode.handleRequestVote
  split_ifs
  · exact ⟨_, _, rfl, h, .refl n⟩
  obtain ⟨hsteady, ho⟩ := observeTerm_onward (x := x) now h request.term
  obtain ⟨last, hlast⟩ := exists_last hsteady
  dsimp only
  generalize n.observeTerm request.term now = b at hsteady ho hlast
  split_ifs
  · exact ⟨_, _, rfl, hsteady, ho⟩
  simp only [hlast, Option.bind_eq_bind, Option.bind_some]
  split_ifs
  · exact ⟨_, _, rfl, hsteady, ho⟩
  · have hgrant : Onward x b (b.grantVote request.candidateId now) :=
      .same rfl rfl rfl le_rfl fun _ he => Or.inl he
    exact ⟨_, _, rfl, hsteady.congr rfl rfl rfl rfl rfl fun hr => hr, ho.trans hgrant⟩

theorem startElection_goes (h : n.Steady) : Goes x n (n.startElection now) := by
  have hstand : Onward x n n.stand := .later rfl (Nat.lt_succ_self _) fun _ he => Or.inl he
  have hsteady : n.stand.Steady := h.congr rfl rfl rfl rfl rfl fun hr => (nomatch hr)
  have hrole : n.stand.role = .candidate := rfl
  unfold RaftNode.startElection
  dsimp only
  generalize n.stand = b at hstand hsteady hrole
  split_ifs
  · exact .of_onward hstand (becomeLeader_goes hsteady hrole now)
  · obtain ⟨last, hlast⟩ := exists_last hsteady
    have hreq : (b.resetElectionTimeout now).voteRequest = some ⟨b.currentTerm, b.id, b.log.length - 1, last.term⟩ := by
      unfold voteRequest
      exact Option.bind_eq_some_iff.mpr ⟨last, hlast, rfl⟩
    unfold RaftNode.requestVotes
    simp only [hreq, Option.bind_eq_bind, Option.bind_some]
    refine .some (hsteady.congr rfl rfl rfl rfl rfl fun hr => hr)
      (hstand.trans (.same rfl rfl rfl le_rfl fun e he => ?_))
    refine (List.mem_append.mp he).imp_right fun he => ?_
    obtain ⟨p, -, rfl⟩ := List.mem_map.mp he
    exact .other rfl

theorem handleVoteResponse_goes (h : n.Steady) (response : RequestVoteResponse) :
    Goes x n (n.handleVoteResponse response now) := by
  unfold RaftNode.handleVoteResponse
  dsimp only
  split_ifs with h1 h2 h3 h4 h5 h6
  · obtain ⟨hsteady, ho⟩ := stepDown_onward (x := x) now h h1
    exact .some hsteady ho
  · exact h.goes
  · exact h.goes
  · have hcount : Onward x n { n with votesReceived := insert response.voterId n.votesReceived } :=
      .same rfl rfl rfl le_rfl fun _ he => Or.inl he
    have hsteady : ({ n with votesReceived := insert response.voterId n.votesReceived } : RaftNode D).Steady :=
      h.congr rfl rfl rfl rfl rfl fun hr => hr
    exact .of_onward hcount (becomeLeader_goes hsteady (not_not.mp h3) now)
  · exact .some (h.congr rfl rfl rfl rfl rfl fun hr => hr) (.same rfl rfl rfl le_rfl fun _ he => Or.inl he)
  · exact becomeLeader_goes h (not_not.mp h3) now
  · exact h.goes

theorem appendLoop_nextIndex [Bincode] (n : RaftNode D) (i : Nat) (es : List LogEntry) :
    (n.appendLoop i es).nextIndex = n.nextIndex := by
  induction es generalizing n i with
  | nil => rfl
  | cons e es ih =>
    rw [RaftNode.appendLoop]
    split
    · split_ifs
      · exact ih _ (i + 1)
      · exact ih n (i + 1)
    · exact ih _ (i + 1)

theorem appendLoop_log_pos [Bincode] {i : Nat} (hi : 0 < i) (es : List LogEntry) (hpos : 0 < n.log.length) :
    0 < (n.appendLoop i es).log.length := by
  induction es generalizing n i with
  | nil => exact hpos
  | cons e es ih =>
    have hpush : ∀ b : RaftNode D, 0 < (b.pushLogEntry e).log.length := fun b => by
      rw [pushLogEntry_log, List.length_append]
      exact Nat.succ_pos _
    rw [RaftNode.appendLoop]
    split
    · split_ifs
      · exact ih (Nat.succ_pos i) (hpush _)
      · exact ih (Nat.succ_pos i) hpos
    · exact ih (Nat.succ_pos i) (hpush _)

include hdb

theorem acceptAppend_goes [Bincode] (h : n.Steady) (hr : n.role = .follower) (ae : AppendEntries) :
    ∃ n' response, n.acceptAppend ae = some (n', response) ∧ n'.Steady ∧ Onward x n n' ∧
      response.term = n.currentTerm ∧ response.matchIndex = ae.prevLogIndex + ae.entries.length := by
  have hpos := appendLoop_log_pos (Nat.succ_pos ae.prevLogIndex) ae.entries (Nat.zero_lt_of_lt h.commit_lt)
  have hnext := appendLoop_nextIndex n (ae.prevLogIndex + 1) ae.entries
  obtain ⟨hcore, hout⟩ := n.appendLoop_core (ae.prevLogIndex + 1) ae.entries
  unfold RaftNode.acceptAppend
  dsimp only
  generalize n.appendLoop (ae.prevLogIndex + 1) ae.entries = b at hpos hnext hcore hout
  have hid : b.id = n.id := congrArg Core.id hcore
  have hpeers : b.peers = n.peers := congrArg Core.peers hcore
  have hterm : b.currentTerm = n.currentTerm := congrArg Core.currentTerm hcore
  have hrole : b.role = .follower := (congrArg Core.role hcore).trans hr
  have hloop : Onward x n b := .follower hid hterm.ge hrole fun _ he => Or.inl (hout ▸ he)
  have hkeys : ∀ p ∈ b.nextIndex, p ∈ b.peers ∨ p = b.id := by
    rw [hnext, hpeers, hid]
    exact h.keys
  have hlt : min ae.leaderCommit (b.log.length - 1) < b.log.length := by omega
  obtain ⟨n', hn', hsteady, ho⟩ := settle_goes (x := x) hdb hlt
    (fun hl => nomatch hrole.symm.trans hl) hkeys
  have hterm' : n'.currentTerm = b.currentTerm :=
    (applyCommittedEntries_induct (I := fun c => c.currentTerm = b.currentTerm) hn' rfl fun c c' hc _ _ hs => by
      obtain ⟨e, points, -, hk, -⟩ := applyNext_kernel hs
      exact (congrArg Kernel.currentTerm hk).trans hc).1
  exact ⟨n', _, Option.map_eq_some_iff.mpr ⟨n', hn', rfl⟩, hsteady, hloop.trans ho, hterm'.trans hterm, rfl⟩

theorem handleAppendEntries_goes [Bincode] (h : n.Steady) (ae : AppendEntries) :
    ∃ n' response, n.handleAppendEntries ae now = some (n', response) ∧ n'.Steady ∧ Onward x n n' ∧
      (response.success = true → response.term = ae.term ∧
        response.matchIndex = ae.prevLogIndex + ae.entries.length) := by
  have hreject : ∀ b : RaftNode D, b.rejectAppend.success = true → b.rejectAppend.term = ae.term ∧
      b.rejectAppend.matchIndex = ae.prevLogIndex + ae.entries.length := fun b hb => nomatch hb
  unfold RaftNode.handleAppendEntries
  split_ifs with hold
  · exact ⟨_, _, rfl, h, .refl n, hreject n⟩
  obtain ⟨hsteady, ho⟩ := observeTerm_onward (x := x) now h ae.term
  have hterm := observeTerm_currentTerm (Nat.not_lt.mp hold) now
  dsimp only
  have hfollow : Onward x (n.observeTerm ae.term now)
      ((n.observeTerm ae.term now).followLeader ae.leaderId now) :=
    .follower rfl le_rfl rfl fun _ he => Or.inl he
  have hsteady' : ((n.observeTerm ae.term now).followLeader ae.leaderId now).Steady :=
    hsteady.congr rfl rfl rfl rfl rfl fun hr => (nomatch hr)
  have hterm' : ((n.observeTerm ae.term now).followLeader ae.leaderId now).currentTerm = ae.term := hterm
  have hrole : ((n.observeTerm ae.term now).followLeader ae.leaderId now).role = .follower := rfl
  have hboth := ho.trans hfollow
  generalize (n.observeTerm ae.term now).followLeader ae.leaderId now = b at hsteady' hterm' hrole hboth
  split
  · exact ⟨_, _, rfl, hsteady', hboth, hreject b⟩
  · split_ifs
    · exact ⟨_, _, rfl, hsteady', hboth, hreject b⟩
    · obtain ⟨n', response, hs, hn', ho', ht, hm⟩ := acceptAppend_goes (x := x) hdb hsteady' hrole ae
      exact ⟨n', response, hs, hn', hboth.trans ho', fun _ => ⟨ht.trans hterm', hm⟩⟩

theorem advance_goes (h : n.Steady) {p : NodeId} (hp : p ∈ n.peers) {k : Nat} (hk : k < n.log.length) :
    Goes x n ({ n with
      matchIndex := n.matchIndex.insert p k
      nextIndex := n.nextIndex.insert p (k + 1) } : RaftNode D).updateCommitIndex := by
  have hnote : Onward x n { n with
      matchIndex := n.matchIndex.insert p k
      nextIndex := n.nextIndex.insert p (k + 1) } := .same rfl rfl rfl le_rfl fun _ he => Or.inl he
  refine .of_onward hnote (updateCommitIndex_goes hdb ⟨h.commit_lt, fun hr q hq => ?_, fun q hq => ?_⟩)
  · by_cases hqp : q = p
    · rw [hqp]
      exact ⟨k + 1, AList.lookup_insert n.nextIndex, Nat.succ_pos k, hk⟩
    · obtain ⟨k', hk', hpos, hle⟩ := h.tracked hr q hq
      exact ⟨k', (AList.lookup_insert_ne hqp).trans hk', hpos, hle⟩
  · rcases (AList.mem_insert n.nextIndex).mp hq with rfl | hq
    · exact Or.inl hp
    · exact h.keys q hq

omit hdb in
theorem retry_goes (h : n.Steady) (hr : n.role = .leader) {p : NodeId} (hp : p ∈ n.peers) :
    Goes x n (do
      let nextIndex ← n.nextIndex.lookup p
      let n := if 1 < nextIndex
        then { n with nextIndex := n.nextIndex.insert p (nextIndex - 1) } else n
      n.sendAppendEntries p) := by
  obtain ⟨k, hk, hpos, hle⟩ := h.tracked hr p hp
  simp only [hk, Option.bind_eq_bind, Option.bind_some]
  split_ifs with hlt
  · have hback : Onward x n { n with nextIndex := n.nextIndex.insert p (k - 1) } :=
      .same rfl rfl rfl le_rfl fun _ he => Or.inl he
    have hsteady : ({ n with nextIndex := n.nextIndex.insert p (k - 1) } : RaftNode D).Steady := by
      refine ⟨h.commit_lt, fun hr q hq => ?_, fun q hq => ?_⟩
      · by_cases hqp : q = p
        · rw [hqp]
          exact ⟨k - 1, AList.lookup_insert n.nextIndex, by omega, (Nat.sub_le k 1).trans hle⟩
        · obtain ⟨k', hk', hpos', hle'⟩ := h.tracked hr q hq
          exact ⟨k', (AList.lookup_insert_ne hqp).trans hk', hpos', hle'⟩
      · rcases (AList.mem_insert n.nextIndex).mp hq with rfl | hq
        · exact Or.inl hp
        · exact h.keys q hq
    exact .of_onward hback (sendAppendEntries_goes hsteady hr hp)
  · exact sendAppendEntries_goes h hr hp

/-- A response of the leader's own term must come from a peer and say no more than the leader has. -/
theorem handleAppendEntriesResponse_goes (h : n.Steady) {response : AppendEntriesResponse}
    (hpeer : n.role = .leader → response.term = n.currentTerm → response.followerId ∈ n.peers)
    (hbacks : response.success = true → n.Backs response.term response.matchIndex) :
    Goes x n (n.handleAppendEntriesResponse response now) := by
  unfold RaftNode.handleAppendEntriesResponse
  split_ifs with hlater hrole hold hok
  · obtain ⟨hsteady, ho⟩ := stepDown_onward (x := x) now h hlater
    exact .some hsteady ho
  · exact h.goes
  · exact h.goes
  · have hterm : response.term = n.currentTerm := by omega
    refine advance_goes hdb h (hpeer (not_not.mp hrole) hterm) ?_
    rcases hbacks hok with hlt | ⟨-, -, hlt⟩
    · exact absurd hlt hold
    · exact hlt (not_not.mp hrole)
  · exact retry_goes h (not_not.mp hrole) (hpeer (not_not.mp hrole) (by omega))

theorem append_goes [Bincode] (h : n.Steady) (hr : n.role = .leader) (e : LogEntry) :
    Goes x n (n.pushLogEntry e).replicate := by
  obtain ⟨hsteady, ho⟩ := pushLogEntry_onward (x := x) h e
  exact .of_onward ho (replicate_goes hdb hsteady hr)

theorem appendCommand_goes [FloatText] [Bincode] (h : n.Steady) (hr : n.role = .leader) (c : Command) :
    ∃ n' index, n.appendCommand c = some (n', index) ∧ n'.Steady ∧ Onward x n n' := by
  obtain ⟨n', hs, hsteady, ho⟩ := append_goes (x := x) hdb h hr
    ⟨n.currentTerm, .command (LogRecord.new 0 c)⟩
  refine ⟨n', n.log.length, ?_, hsteady, ho⟩
  simp [RaftNode.appendCommand, hr, hs]

theorem appendMembershipChange_goes [Bincode] (h : n.Steady) (payload : EntryPayload) :
    Goes x n (n.appendMembershipChange payload) := by
  rw [RaftNode.appendMembershipChange]
  split_ifs with hr
  · exact h.goes
  · exact append_goes hdb h (not_not.mp hr) _

theorem submitStoreWrite_goes [FloatText] [Bincode] (h : n.Steady) (c : Command) (r : Responder) :
    Goes x n (n.submitStoreWrite c r) := by
  rw [RaftNode.submitStoreWrite]
  split_ifs with hr
  · exact respond_goes h ..
  · obtain ⟨b, index, hs, hsteady, ho⟩ := appendCommand_goes (x := x) hdb h (not_not.mp hr) c
    obtain ⟨hindex, hlog⟩ := appendCommand_log hs
    have hentry : b.log[index]? = some ⟨n.currentTerm, .command (LogRecord.new 0 c)⟩ := by
      rw [hindex, hlog, List.getElem?_concat_length]
    simp only [hs, hentry, Option.bind_eq_bind, Option.bind_some]
    split_ifs
    · exact .of_onward ho (respond_goes hsteady ..)
    · have hwait : Onward x b { b with
          pendingRequests := b.pendingRequests.insert (index, n.currentTerm) r } :=
        .same rfl rfl rfl le_rfl fun _ he => Or.inl he
      exact .some (hsteady.congr rfl rfl rfl rfl rfl fun hr => hr) (ho.trans hwait)

theorem handleStoreRequest_goes [FloatText] [Bincode] (h : n.Steady) (request : StoreRequest) :
    Goes x n (n.handleStoreRequest request) := by
  unfold RaftNode.handleStoreRequest
  split
  · exact submitStoreWrite_goes hdb h _ _
  · exact submitStoreWrite_goes hdb h _ _
  · exact respond_goes h ..
  · exact respond_goes h ..

theorem handleMessage_goes [FloatText] [Bincode] (h : n.Steady) {m : Message} (hi : x = .message m)
    (hpeer : ∀ r, m = .appendEntriesResponse r → n.role = .leader → r.term = n.currentTerm →
      r.followerId ∈ n.peers)
    (hbacks : ∀ r, m = .appendEntriesResponse r → r.success = true → n.Backs r.term r.matchIndex) :
    Goes x n (n.handleMessage m now) := by
  cases m with
  | requestVote request =>
    obtain ⟨b, response, hs, hsteady, ho⟩ := handleRequestVote_goes (x := x) now h request
    refine ⟨_, Option.map_eq_some_iff.mpr ⟨_, hs, rfl⟩, hsteady.congr rfl rfl rfl rfl rfl fun hr => hr,
      ho.trans (.same rfl rfl rfl le_rfl fun e he => ?_)⟩
    refine (List.mem_append.mp he).imp_right fun he => ?_
    rw [List.mem_singleton.mp he]
    exact .other rfl
  | requestVoteResponse response => exact handleVoteResponse_goes now h response
  | appendEntries ae =>
    obtain ⟨b, response, hs, hsteady, ho, hok⟩ := handleAppendEntries_goes (x := x) now hdb h ae
    refine ⟨_, Option.map_eq_some_iff.mpr ⟨_, hs, rfl⟩, hsteady.congr rfl rfl rfl rfl rfl fun hr => hr,
      ho.trans (.same rfl rfl rfl le_rfl fun e he => ?_)⟩
    refine (List.mem_append.mp he).imp_right fun he => ?_
    rw [List.mem_singleton.mp he]
    cases hsucc : response.success with
    | true => exact .accepted hi (hok hsucc).1 (hok hsucc).2
    | false => exact .rejected hsucc
  | appendEntriesResponse response =>
    exact handleAppendEntriesResponse_goes now hdb h (hpeer response rfl) (hbacks response rfl)
  | clientCommand cmd =>
    rw [RaftNode.handleMessage]
    split_ifs with hr
    · obtain ⟨b, index, hs, hsteady, ho⟩ := appendCommand_goes (x := x) hdb h hr cmd
      exact ⟨b, Option.map_eq_some_iff.mpr ⟨_, hs, rfl⟩, hsteady, ho⟩
    · exact forward_goes h rfl
  | clientRequest => exact handleStoreRequest_goes hdb h _
  | clientQuery requestId clientId key =>
    exact handleStoreRequest_goes hdb h ⟨.get key, .raftClient clientId requestId⟩
  | statusQuery requestId clientId =>
    exact handleStoreRequest_goes hdb h ⟨.status, .raftClient clientId requestId⟩
  | addNode id addr =>
    rw [RaftNode.handleMessage]
    split_ifs
    · exact forward_goes h rfl
    · exact appendMembershipChange_goes hdb h _
  | removeNode id =>
    rw [RaftNode.handleMessage]
    split_ifs
    · exact forward_goes h rfl
    · exact appendMembershipChange_goes hdb h _
  | clientResponse => exact h.goes
  | timeout => exact startElection_goes now h

omit hdb in
theorem tick_goes (h : n.Steady) : Goes x n (n.tick now) := by
  unfold RaftNode.tick
  split
  · next hr =>
    split_ifs
    · obtain ⟨b, hs, hsteady, ho⟩ := sendHeartbeats_goes (x := x) h hr
      exact ⟨_, Option.map_eq_some_iff.mpr ⟨b, hs, rfl⟩, hsteady.congr rfl rfl rfl rfl rfl fun hr => hr,
        ho.trans (.heartbeat b _)⟩
    · exact h.goes
  · split_ifs
    · exact startElection_goes now h
    · exact h.goes

theorem process_goes [FloatText] [Bincode] (h : n.Steady)
    (hpeer : ∀ r, x = .message (.appendEntriesResponse r) → n.role = .leader → r.term = n.currentTerm →
      r.followerId ∈ n.peers)
    (hbacks : ∀ r, x = .message (.appendEntriesResponse r) → r.success = true →
      n.Backs r.term r.matchIndex) : Goes x n (n.process x now) := by
  have hsteady : ({ n with crashPoints := [] } : RaftNode D).Steady := h.congr rfl rfl rfl rfl rfl fun hr => hr
  have ho : Onward x n { n with crashPoints := [] } := .same rfl rfl rfl le_rfl fun _ he => Or.inl he
  refine .of_onward ho ?_
  cases x with
  | message m =>
    exact handleMessage_goes now hdb hsteady rfl (fun r hr => hpeer r (congrArg _ hr))
      fun r hr => hbacks r (congrArg _ hr)
  | tick => exact tick_goes now hsteady
  | request r => exact handleStoreRequest_goes hdb hsteady r

end Handlers
end KvRaft
