import KvRaft.Lsm.Faults
import KvRaft.Raft.BincodeFormat
import KvRaft.Raft.Tracking

/-! A follower catches up: the leader's AppendEntries and the answers to them, back and forth, until one
is accepted. -/

namespace KvRaft
open RaftNode hiding id
open ReplicatedLog

section General
variable {D : Type} [Storage D]

/-- The leader's message `ae` reaches the follower and the answer reaches the leader, which on a rejection
has put its retry last in the outbox. Ends with the first success and counts the rejections before it. -/
def exchange [FloatText] [Bincode] (clock : Nat → Instant) :
    Nat → RaftNode D → RaftNode D → AppendEntries → Option (RaftNode D × RaftNode D × Nat)
  | 0, _, _, _ => none
  | fuel + 1, leader, follower, ae => do
    let follower ← follower.handleMessage (.appendEntries ae) (clock fuel)
    match follower.outbox.getLast? with
    | some (_, .appendEntriesResponse response) =>
      let leader ← leader.handleMessage (.appendEntriesResponse response) (clock fuel)
      if response.success then return (leader, follower, 0)
      else match leader.outbox.getLast? with
        | some (_, .appendEntries retry) =>
          let (leader, follower, rejections) ← exchange clock fuel leader follower retry
          return (leader, follower, rejections + 1)
        | _ => none
    | _ => none

def LogMatching (a b : List LogEntry) : Prop :=
  ∀ (j : Nat) (x y : LogEntry), a[j]? = some x → b[j]? = some y → x.term = y.term → ∀ i ≤ j, a[i]? = b[i]?

/-- A leader and a follower as they may stand to each other, the leader's next message starting at `k`. That
a commit index lies within the log is so in every node that runs. -/
structure Lagging [FloatText] (leader follower : RaftNode D) (k : Nat) : Prop where
  leads : leader.role = .leader
  next : leader.nextIndex.lookup follower.id = some k
  pos : 1 ≤ k
  le : k ≤ leader.log.length
  commit : leader.commitIndex < leader.log.length
  root : leader.log[0]? = some sentinel
  root' : follower.log[0]? = some sentinel
  matching : LogMatching follower.log leader.log
  term : follower.currentTerm ≤ leader.currentTerm

section Apply
variable {n n' : RaftNode D}

theorem exists_applyCommittedEntries (hdb : Storage.NeverPanics D) (hc : n.commitIndex < n.log.length) :
    ∃ n', n.applyCommittedEntries = some n' := by
  suffices hloop : ∀ k (b : RaftNode D), b.lastApplied + k < b.log.length → ∃ n', b.applyLoop k = some n' by
    by_cases hle : n.commitIndex ≤ n.lastApplied
    · rw [RaftNode.applyCommittedEntries, Nat.sub_eq_zero_of_le hle]
      exact ⟨n, rfl⟩
    · exact hloop _ n (by omega)
  intro k
  induction k with
  | zero => exact fun b _ => ⟨b, rfl⟩
  | succ k ih =>
    intro b hb
    obtain ⟨b', hb'⟩ := exists_applyNext hdb (List.getElem?_eq_getElem (show b.lastApplied + 1 < b.log.length by omega))
    obtain ⟨e, points, -, hk, -⟩ := applyNext_kernel hb'
    have hlog : b'.log = b.log := congrArg Kernel.log hk
    have happ : b'.lastApplied = b.lastApplied + 1 := congrArg Kernel.lastApplied hk
    obtain ⟨n', hn'⟩ := ih b' (by rw [hlog, happ]; omega)
    exact ⟨n', by rw [RaftNode.applyLoop, hb', Option.bind_some, hn']⟩

/-- What a leader knows of a follower is lost only when the follower is removed. -/
theorem applyNext_matchIndex {f : NodeId} {m : Nat} (hm : n.matchIndex.lookup f = some m) {e : LogEntry}
    (he : n.log[n.lastApplied + 1]? = some e) (hne : e.payload ≠ .removeNode f)
    (hs : n.applyNext = some n') : n'.matchIndex.lookup f = some m := by
  obtain ⟨e', he', rfl⟩ := applyNext_eq_some hs
  obtain rfl := Option.some.inj (he.symm.trans he')
  have hpayload : (n.applyPayload e.payload).2.matchIndex.lookup f = some m := by
    cases hp : e.payload with
    | command r => exact hm
    | addNode id addr =>
      simp only [RaftNode.applyPayload]
      split_ifs with h
      · have hid : f ≠ id := by
          rintro rfl
          exact h.2 (AList.lookup_isSome.mp (by simp [hm]))
        rw [AList.lookup_insert_ne hid, hm]
      · exact hm
    | removeNode id =>
      have hid : f ≠ id := by
        rintro rfl
        exact hne hp
      simp only [RaftNode.applyPayload]
      rw [AList.lookup_erase_ne hid, hm]
  rw [← hpayload]
  unfold RaftNode.resolvePending
  split
  · rfl
  · rfl

theorem applyCommittedEntries_matchIndex {f : NodeId} {m : Nat} (hs : n.applyCommittedEntries = some n')
    (hm : n.matchIndex.lookup f = some m)
    (hne : ∀ i e, n.lastApplied < i → i ≤ n'.lastApplied → n.log[i]? = some e → e.payload ≠ .removeNode f) :
    n'.matchIndex.lookup f = some m := by
  obtain ⟨-, happ, -⟩ := applyCommittedEntries_induct hs (I := fun _ => True) trivial fun _ _ _ _ _ _ => trivial
  refine (applyCommittedEntries_induct hs (I := fun b => b.matchIndex.lookup f = some m ∧ b.log = n.log ∧
    b.commitIndex = n.commitIndex ∧ n.lastApplied ≤ b.lastApplied) ⟨hm, rfl, rfl, le_rfl⟩ ?_).1.1
  rintro b b' ⟨hb, hlog, hcom, hle⟩ - hlt hs
  obtain ⟨e, points, he, hk, -⟩ := applyNext_kernel hs
  refine ⟨applyNext_matchIndex hb he (hne _ e (by omega) (by omega) (hlog ▸ he)) hs,
    (congrArg Kernel.log hk).trans hlog, (congrArg Kernel.commitIndex hk).trans hcom, ?_⟩
  have hnext : b'.lastApplied = b.lastApplied + 1 := congrArg Kernel.lastApplied hk
  omega

end Apply

theorem LogMatching.take {a b : List LogEntry} (h : LogMatching a b) {j : Nat} {x y : LogEntry}
    (hx : a[j]? = some x) (hy : b[j]? = some y) (ht : x.term = y.term) : a.take (j + 1) = b.take (j + 1) := by
  apply List.ext_getElem?
  intro i
  by_cases hi : i < j + 1
  · rw [List.getElem?_take_of_lt hi, List.getElem?_take_of_lt hi]
    exact h j x y hx hy ht i (Nat.le_of_lt_succ hi)
  · rw [List.getElem?_take_eq_none (not_lt.mp hi), List.getElem?_take_eq_none (not_lt.mp hi)]

section Follower
variable {n : RaftNode D} {ae : AppendEntries}

theorem followed_frame (ht : n.currentTerm ≤ ae.term) (now : Instant) :
    ((n.observeTerm ae.term now).followLeader ae.leaderId now).log = n.log ∧
    ((n.observeTerm ae.term now).followLeader ae.leaderId now).id = n.id ∧
    ((n.observeTerm ae.term now).followLeader ae.leaderId now).currentTerm = ae.term := by
  obtain ⟨hid, hlog, -, -⟩ := observeTerm_frame n ae.term now
  exact ⟨hlog, hid, observeTerm_currentTerm ht now⟩

theorem follower_rejects [FloatText] [Bincode] (now : Instant) (ht : n.currentTerm ≤ ae.term)
    (hno : ∀ prev, n.log[ae.prevLogIndex]? = some prev → prev.term ≠ ae.prevLogTerm) :
    ∃ b m, n.handleMessage (.appendEntries ae) now = some b ∧
      b.outbox.getLast? = some (ae.leaderId, .appendEntriesResponse ⟨ae.term, n.id, false, m⟩) ∧
      b.log = n.log ∧ b.id = n.id ∧ b.currentTerm = ae.term := by
  obtain ⟨hlog, hid, hterm⟩ := followed_frame ht now
  rw [RaftNode.handleMessage, RaftNode.handleAppendEntries, if_neg (not_lt.mpr ht)]
  dsimp only
  generalize (n.observeTerm ae.term now).followLeader ae.leaderId now = b at hlog hid hterm
  have hanswer : b.rejectAppend = ⟨ae.term, n.id, false, n.log.length - 1⟩ := by
    rw [RaftNode.rejectAppend, hlog, hid, hterm]
  rw [hlog, hanswer]
  split
  · exact ⟨_, _, rfl, List.getLast?_concat .., hlog, hid, hterm⟩
  · next prev hprev =>
    rw [if_pos (hno prev hprev)]
    exact ⟨_, _, rfl, List.getLast?_concat .., hlog, hid, hterm⟩

theorem splice_length_pos {ℓ es : List LogEntry} {i : Nat} (h : 0 < ℓ.length) : 0 < (splice ℓ i es).length := by
  induction es generalizing ℓ i with
  | nil => exact h
  | cons e es ih =>
    rw [splice]
    split
    · split_ifs
      · exact ih (by simp)
      · exact ih h
    · exact ih (by simp)

theorem follower_accepts [FloatText] [Bincode] (hdb : Storage.NeverPanics D) (now : Instant)
    (ht : n.currentTerm ≤ ae.term) {prev : LogEntry}
    (hprev : n.log[ae.prevLogIndex]? = some prev) (hpt : prev.term = ae.prevLogTerm) :
    ∃ b, n.handleMessage (.appendEntries ae) now = some b ∧
      b.outbox.getLast? = some (ae.leaderId, .appendEntriesResponse
        ⟨ae.term, n.id, true, ae.prevLogIndex + ae.entries.length⟩) ∧
      b.log = splice n.log (ae.prevLogIndex + 1) ae.entries := by
  obtain ⟨hlog, hid, hterm⟩ := followed_frame ht now
  rw [RaftNode.handleMessage, RaftNode.handleAppendEntries, if_neg (not_lt.mpr ht)]
  dsimp only
  generalize (n.observeTerm ae.term now).followLeader ae.leaderId now = b at hlog hid hterm
  rw [hlog, hprev]
  dsimp only
  rw [if_neg (not_not.mpr hpt), RaftNode.acceptAppend]
  obtain ⟨hcore, -⟩ := b.appendLoop_core (ae.prevLogIndex + 1) ae.entries
  generalize b.appendLoop (ae.prevLogIndex + 1) ae.entries = c at hcore
  have hclog : c.log = splice n.log (ae.prevLogIndex + 1) ae.entries := hlog ▸ congrArg Core.log hcore
  have hpos : 0 < c.log.length := by
    rw [hclog]
    exact splice_length_pos (Nat.zero_lt_of_lt (List.getElem?_eq_some_iff.mp hprev).1)
  -- a database that never panics applies whatever is committed
  obtain ⟨d, hd⟩ := exists_applyCommittedEntries hdb (n :=
    ({ c with commitIndex := min ae.leaderCommit (c.log.length - 1) } : RaftNode D).persistMeta)
    (show min ae.leaderCommit (c.log.length - 1) < c.log.length by omega)
  obtain ⟨hdid, hdterm, -, hdlog, -⟩ := applyCommittedEntries_frame hd
  have hid' : d.id = n.id := hdid.trans ((congrArg Core.id hcore).trans hid)
  have hterm' : d.currentTerm = ae.term := hdterm.trans ((congrArg Core.currentTerm hcore).trans hterm)
  rw [hd]
  refine ⟨_, rfl, ?_, hdlog.trans hclog⟩
  rw [List.getLast?_concat]
  dsimp only
  rw [hid', hterm']

end Follower

section Leader
variable {n : RaftNode D} {f : NodeId} {k : Nat}

theorem exists_makeAppendEntries (hk : n.nextIndex.lookup f = some k) (hpos : 1 ≤ k) (hle : k ≤ n.log.length) :
    ∃ prev, n.log[k - 1]? = some prev ∧
      n.makeAppendEntries f = some ⟨n.currentTerm, n.id, k - 1, prev.term, n.log.drop k, n.commitIndex⟩ := by
  have hlt : k - 1 < n.log.length := by omega
  refine ⟨n.log[k - 1], List.getElem?_eq_getElem hlt, ?_⟩
  simp [RaftNode.makeAppendEntries, hk, hpos, hle, hlt, guard]

theorem exists_updateCommitIndex (hdb : Storage.NeverPanics D) (hc : n.commitIndex < n.log.length) :
    ∃ b, n.updateCommitIndex = some b ∧ b.log = n.log ∧ ∀ f m, n.matchIndex.lookup f = some m →
      (∀ i e, n.lastApplied < i → i ≤ b.lastApplied → n.log[i]? = some e → e.payload ≠ .removeNode f) →
      b.matchIndex.lookup f = some m := by
  rw [RaftNode.updateCommitIndex]
  have hcommit : (List.range' (n.commitIndex + 1) (n.log.length - (n.commitIndex + 1))).foldl n.commitAt
      n.commitIndex < n.log.length := by
    rcases foldl_commitAt_le n (List.range' (n.commitIndex + 1) (n.log.length - (n.commitIndex + 1)))
      (Or.inl rfl) with h | h
    · rw [h]
      exact hc
    · omega
  generalize (List.range' (n.commitIndex + 1) (n.log.length - (n.commitIndex + 1))).foldl n.commitAt
    n.commitIndex = commit at hcommit
  obtain ⟨b, hb⟩ := exists_applyCommittedEntries hdb (n := ({ n with commitIndex := commit } : RaftNode D).persistMeta)
    hcommit
  obtain ⟨-, -, -, hlog, -⟩ := applyCommittedEntries_frame hb
  exact ⟨b, hb, hlog, fun f m hm hne => applyCommittedEntries_matchIndex hb hm hne⟩

theorem leader_records [FloatText] [Bincode] (hdb : Storage.NeverPanics D) (now : Instant) (hr : n.role = .leader)
    (hc : n.commitIndex < n.log.length)
    (m : Nat) :
    ∃ b, n.handleMessage (.appendEntriesResponse ⟨n.currentTerm, f, true, m⟩) now = some b ∧ b.log = n.log ∧
      ((∀ i e, n.lastApplied < i → i ≤ b.lastApplied → n.log[i]? = some e → e.payload ≠ .removeNode f) →
        b.matchIndex.lookup f = some m) := by
  obtain ⟨b, hb, hlog, hmatch⟩ := exists_updateCommitIndex hdb (n := { n with
    matchIndex := n.matchIndex.insert f m
    nextIndex := n.nextIndex.insert f (m + 1) }) hc
  refine ⟨b, ?_, hlog, hmatch f m (AList.lookup_insert _)⟩
  rw [RaftNode.handleMessage, RaftNode.handleAppendEntriesResponse, if_neg (lt_irrefl _),
    if_neg (not_not.mpr hr), if_neg (lt_irrefl _)]
  exact hb

theorem leader_retries [FloatText] [Bincode] (now : Instant) (hr : n.role = .leader)
    (hk : n.nextIndex.lookup f = some (k + 1)) (hpos : 1 ≤ k) (hle : k ≤ n.log.length) (m : Nat) :
    ∃ ae, n.handleMessage (.appendEntriesResponse ⟨n.currentTerm, f, false, m⟩) now = some { n with
        nextIndex := n.nextIndex.insert f k
        outbox := n.outbox ++ [(f, .appendEntries ae)] } ∧
      ({ n with nextIndex := n.nextIndex.insert f k } : RaftNode D).makeAppendEntries f = some ae := by
  obtain ⟨prev, -, hae⟩ := exists_makeAppendEntries (n := { n with nextIndex := n.nextIndex.insert f k })
    (AList.lookup_insert _) hpos hle
  refine ⟨_, ?_, hae⟩
  rw [RaftNode.handleMessage, RaftNode.handleAppendEntriesResponse, if_neg (lt_irrefl _),
    if_neg (not_not.mpr hr), if_neg (lt_irrefl _)]
  dsimp only
  rw [if_neg Bool.false_ne_true, hk, Option.bind_eq_bind, Option.bind_some, if_pos (Nat.lt_succ_of_le hpos),
    Nat.add_sub_cancel, RaftNode.sendAppendEntries, hae]
  rfl

end Leader

section Exchange
variable {leader follower : RaftNode D} {k : Nat}

theorem Lagging.retry [FloatText] (h : Lagging leader follower (k + 1)) (hpos : 1 ≤ k) {b : RaftNode D}
    (hlog : b.log = follower.log)
    (hid : b.id = follower.id) (hterm : b.currentTerm = leader.currentTerm) (out : List Envelope) :
    Lagging { leader with nextIndex := leader.nextIndex.insert follower.id k, outbox := out } b k where
  leads := h.leads
  next := by
    rw [hid]
    exact AList.lookup_insert _
  pos := hpos
  le := (Nat.le_succ k).trans h.le
  commit := h.commit
  root := h.root
  root' := hlog ▸ h.root'
  matching := hlog ▸ h.matching
  term := hterm.le

theorem exchange_ends [FloatText] [Bincode] (hdb : Storage.NeverPanics D) (clock : Nat → Instant) {ae : AppendEntries}
    {fuel : Nat}
    (h : Lagging leader follower k) (hae : leader.makeAppendEntries follower.id = some ae) (hfuel : k ≤ fuel) :
    ∃ leader' follower' rejections,
      exchange clock fuel leader follower ae = some (leader', follower', rejections) ∧ rejections ≤ k - 1 ∧
      leader'.log = leader.log ∧ (∀ i < leader.log.length, follower'.log[i]? = leader.log[i]?) ∧
      ((∀ i e, leader.lastApplied < i → i ≤ leader'.lastApplied → leader.log[i]? = some e →
        e.payload ≠ .removeNode follower.id) →
        leader'.matchIndex.lookup follower.id = some (leader.log.length - 1)) := by
  induction k generalizing leader follower ae fuel with
  | zero => exact absurd h.pos (by decide)
  | succ k ih =>
    obtain ⟨fuel, rfl⟩ : ∃ g, fuel = g + 1 := ⟨fuel - 1, by omega⟩
    obtain ⟨prev, hprev, hmake⟩ := exists_makeAppendEntries h.next h.pos h.le
    obtain rfl := Option.some.inj (hmake.symm.trans hae)
    rw [Nat.add_sub_cancel] at hprev hmake ⊢
    rw [exchange]
    by_cases hhas : ∃ x, follower.log[k]? = some x ∧ x.term = prev.term
    · -- the follower has the entry before: it takes the rest of the log, and the leader takes note
      obtain ⟨x, hx, hxt⟩ := hhas
      have hlast : k + (leader.log.drop (k + 1)).length = leader.log.length - 1 := by
        have := h.le
        rw [List.length_drop]
        omega
      have haccepts : Accepts leader.log (leader.log.length - 1) follower.log
          (splice follower.log (k + 1) (leader.log.drop (k + 1))) := by
        apply splice_accepts_of_matching (fun j x y hx hy ht => h.matching.take hx hy ht) _ hlast.symm
        · exact Nat.sub_lt (Nat.zero_lt_of_lt h.commit) Nat.one_pos
        · exact List.take_length
        · exact (List.getElem?_eq_some_iff.mp hx).1
        · exact h.matching.take hx hprev hxt
      have hterm : follower.currentTerm ≤ (⟨leader.currentTerm, leader.id, k, prev.term, leader.log.drop (k + 1),
          leader.commitIndex⟩ : AppendEntries).term := h.term
      obtain ⟨b, hb, hout, hblog⟩ := follower_accepts hdb (clock fuel) hterm hx hxt
      obtain ⟨c, hc, hclog, hmatch⟩ := leader_records (f := follower.id) hdb (clock fuel) h.leads h.commit
        (k + (leader.log.drop (k + 1)).length)
      refine ⟨c, b, 0, ?_, Nat.zero_le _, hclog, fun i hi => ?_, hlast ▸ hmatch⟩
      · rw [hb, Option.bind_eq_bind, Option.bind_some, hout]
        dsimp only
        rw [hc]
        rfl
      · have hwhole : leader.log.take (leader.log.length - 1 + 1) = leader.log :=
          List.take_of_length_le (by omega)
        have hpre := haccepts.take_prefix
        rw [hwhole, ← hblog] at hpre
        exact prefix_getElem? hpre hi
    · -- The two logs have the same first entry, so there is one further back to try.
      have hk : 1 ≤ k := by
        by_contra hzero
        obtain rfl : k = 0 := by omega
        obtain rfl := Option.some.inj (hprev.symm.trans h.root)
        exact hhas ⟨sentinel, h.root', rfl⟩
      obtain ⟨b, m, hb, hout, hblog, hbid, hbterm⟩ := follower_rejects (clock fuel) (show follower.currentTerm ≤
        (⟨leader.currentTerm, leader.id, k, prev.term, leader.log.drop (k + 1), leader.commitIndex⟩ :
          AppendEntries).term from h.term) fun x hx hxt => hhas ⟨x, hx, hxt⟩
      obtain ⟨ae, hretry, hmake⟩ := leader_retries (clock fuel) h.leads h.next hk ((Nat.le_succ k).trans h.le) m
      have hagain := h.retry hk hblog hbid hbterm (leader.outbox ++ [(follower.id, .appendEntries ae)])
      obtain ⟨leader', follower', r, hrest, hr, hlog, hagree, hmatch⟩ := ih hagain (by rw [hbid]; exact hmake)
        (Nat.le_of_succ_le_succ hfuel)
      refine ⟨leader', follower', r + 1, ?_, by omega, hlog, hagree, hbid ▸ hmatch⟩
      rw [hb, Option.bind_eq_bind, Option.bind_some, hout]
      dsimp only
      rw [hretry, Option.bind_some, if_neg Bool.false_ne_true, List.getLast?_concat]
      dsimp only
      rw [hrest]
      rfl

end Exchange
end General

section Database
variable [FloatText] [Xxh3] [BloomSizing] [Bincode]

/-- Catch-up ends: after at most `k - 1` rejections the follower accepts, has the leader's log, and the leader
knows that it has, unless what the leader applies on that success removes the follower. -/
theorem catch_up_ends {leader follower : RaftNode Database} {k : Nat} (h : Lagging leader follower k)
    (clock : Nat → Instant) {fuel : Nat} (hfuel : k ≤ fuel) :
    ∃ ae leader' follower' rejections, leader.makeAppendEntries follower.id = some ae ∧
      exchange clock fuel leader follower ae = some (leader', follower', rejections) ∧ rejections ≤ k - 1 ∧
      (∀ i < leader.log.length, follower'.log[i]? = leader.log[i]?) ∧ leader'.log = leader.log ∧
      ((∀ i e, leader.lastApplied < i → i ≤ leader'.lastApplied → leader.log[i]? = some e →
        e.payload ≠ .removeNode follower.id) →
        leader'.matchIndex.lookup follower.id = some (leader.log.length - 1)) := by
  obtain ⟨prev, -, hae⟩ := exists_makeAppendEntries h.next h.pos h.le
  obtain ⟨leader', follower', r, hrun, hr, hlog, hagree, hmatch⟩ :=
    exchange_ends database_never_panics clock h hae hfuel
  exact ⟨_, leader', follower', r, hae, hrun, hr, hagree, hlog, hmatch⟩

end Database

section Concrete
open scoped Concrete

/-- A leader of term 2 and a follower with an entry of term 1 in the place of the leader's. -/
def divergedPair : Option (RaftNode Database × RaftNode Database) := do
  let n ← RaftNode.newInDir .empty 1 [2, 3] .default ⟨0, 0⟩
  let m ← RaftNode.newInDir .empty 2 [1, 3] .default ⟨0, 0⟩
  return ({ n with
    role := .leader
    currentTerm := 2
    log := [sentinel, ⟨2, .command (LogRecord.new 0 (.delete "a"))⟩]
    nextIndex := AList.singleton 2 2 },
    { m with
      currentTerm := 1
      log := [sentinel, ⟨1, .command (LogRecord.new 0 (.delete "b"))⟩] })

theorem logMatching_diverged {x y : LogEntry} (h : x.term ≠ y.term) : LogMatching [sentinel, x] [sentinel, y] := by
  intro j a b ha hb ht i hi
  match j with
  | 0 =>
    obtain rfl : i = 0 := by omega
    rfl
  | 1 =>
    obtain rfl := Option.some.inj ha
    obtain rfl := Option.some.inj hb
    exact absurd ht h
  | j + 2 => cases ha

/-- One rejection, and the leader's entry takes the place of the follower's. -/
theorem catch_up_ends_diverged : ∃ (leader follower leader' follower' : RaftNode Database) (ae : AppendEntries)
    (r : Nat),
    divergedPair = some (leader, follower) ∧ Lagging leader follower 2 ∧
    exchange (fun _ => ⟨0, 0⟩) 2 leader follower ae = some (leader', follower', r) ∧ r ≤ 1 ∧
    follower'.log[1]? = leader.log[1]? := by
  have hrun : (divergedPair.map fun (leader, follower) =>
      decide (leader.role = .leader ∧ leader.nextIndex.lookup follower.id = some 2 ∧
        leader.log = [sentinel, ⟨2, .command (LogRecord.new 0 (.delete "a"))⟩] ∧ leader.commitIndex = 0 ∧
        follower.log = [sentinel, ⟨1, .command (LogRecord.new 0 (.delete "b"))⟩] ∧
        follower.currentTerm ≤ leader.currentTerm)) = some true := by
    decide +kernel
  obtain ⟨⟨leader, follower⟩, hpair, hrun⟩ := Option.map_eq_some_iff.mp hrun
  obtain ⟨hrole, hnext, hlog, hcommit, hflog, hterm⟩ := of_decide_eq_true hrun
  have hlag : Lagging leader follower 2 := {
    leads := hrole
    next := hnext
    pos := by decide
    le := by simp [hlog]
    commit := by simp [hlog, hcommit]
    root := by simp [hlog]
    root' := by simp [hflog]
    matching := by
      rw [hflog, hlog]
      exact logMatching_diverged (by decide)
    term := hterm }
  obtain ⟨ae, leader', follower', r, -, hex, hr, hagree, -⟩ := catch_up_ends hlag (fun _ => ⟨0, 0⟩) le_rfl
  exact ⟨leader, follower, leader', follower', ae, r, hpair, hlag, hex, hr, hagree 1 (by simp [hlog])⟩

/-- The leader of a cluster of two has proposed to remove the other node. -/
def removesOther : Option (RaftNode Database × RaftNode Database) := do
  let n ← RaftNode.newInDir .empty 1 [2] .default ⟨0, 0⟩
  let n ← n.process (.message .timeout) ⟨0, 0⟩
  let n ← n.process (.message (.requestVoteResponse ⟨1, 2, true⟩)) ⟨0, 0⟩
  let n ← n.process (.message (.removeNode 2)) ⟨0, 0⟩
  let m ← RaftNode.newInDir .empty 2 [1] .default ⟨0, 0⟩
  return (n, m)

theorem logMatching_root {ℓ : List LogEntry} (h : ℓ[0]? = some sentinel) : LogMatching [sentinel] ℓ := by
  intro j x y hx hy ht i hi
  have hj : j < 1 := (List.getElem?_eq_some_iff.mp hx).1
  obtain rfl : i = 0 := by omega
  exact h.symm

/-- Once the other node has the entry that removes it, the leader forgets what it has. -/
theorem caught_up_then_removed : ∃ (leader follower leader' follower' : RaftNode Database) (ae : AppendEntries),
    Lagging leader follower 1 ∧ leader.makeAppendEntries follower.id = some ae ∧
    exchange (fun _ => ⟨0, 0⟩) 1 leader follower ae = some (leader', follower', 0) ∧
    leader'.matchIndex.lookup follower.id ≠ some (leader.log.length - 1) := by
  have hrun : (removesOther.bind fun (leader, follower) => (leader.makeAppendEntries follower.id).bind fun ae =>
      (exchange (fun _ => ⟨0, 0⟩) 1 leader follower ae).map fun (leader', _, r) =>
        decide (leader.role = .leader ∧ leader.nextIndex.lookup follower.id = some 1 ∧
          leader.log = [sentinel, ⟨1, .removeNode 2⟩] ∧ leader.commitIndex = 0 ∧ follower.log = [sentinel] ∧
          follower.currentTerm ≤ leader.currentTerm ∧ r = 0 ∧ leader'.matchIndex.lookup follower.id = none)) =
      some true := by
    decide +kernel
  obtain ⟨⟨leader, follower⟩, -, hrun⟩ := Option.bind_eq_some_iff.mp hrun
  obtain ⟨ae, hae, hrun⟩ := Option.bind_eq_some_iff.mp hrun
  obtain ⟨⟨leader', follower', r⟩, hex, hrun⟩ := Option.map_eq_some_iff.mp hrun
  obtain ⟨hrole, hnext, hlog, hcommit, hflog, hterm, rfl, hmatch⟩ := of_decide_eq_true hrun
  refine ⟨leader, follower, leader', follower', ae, ?_, hae, hex, by simp [hmatch]⟩
  exact {
    leads := hrole
    next := hnext
    pos := le_rfl
    le := by simp [hlog]
    commit := by simp [hlog, hcommit]
    root := by simp [hlog]
    root' := by simp [hflog]
    matching := hflog ▸ logMatching_root (by simp [hlog])
    term := hterm }

end Concrete
end KvRaft
