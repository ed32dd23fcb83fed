import KvRaft.Lsm.RecordSpec
import KvRaft.Raft.Clients

/-! The database calls that a handler makes, in which order and with what results, and the answers that
are given on their account. -/

namespace KvRaft
open RaftNode

/-- The store commands among the entries of a log at indices `i + 1..=j`. -/
def commandsBetween (log : List LogEntry) (i j : Nat) : List Command :=
  ((log.take (j + 1)).drop (i + 1)).filterMap LogEntry.command?

theorem commandsBetween_self (log : List LogEntry) (i : Nat) : commandsBetween log i i = [] := by
  rw [commandsBetween, List.drop_eq_nil_of_le (by rw [List.length_take]; omega), List.filterMap_nil]

theorem commandsBetween_succ {log : List LogEntry} {i j : Nat} {e : LogEntry} (hij : i ≤ j)
    (he : log[j + 1]? = some e) :
    commandsBetween log i (j + 1) = commandsBetween log i j ++ e.command?.toList := by
  obtain ⟨hlt, rfl⟩ := List.getElem?_eq_some_iff.mp he
  rw [commandsBetween, commandsBetween, List.take_succ_eq_append_getElem hlt,
    List.drop_append_of_le_length (by rw [List.length_take]; omega), List.filterMap_append]
  cases hc : (log[j + 1]).command? with
  | none => simp [hc]
  | some c => simp [hc]

variable {D : Type} [Storage D]

/-- The result of the database call that applying a payload makes, if it makes one. -/
def Storage.resultOf (d : D) (e : LogEntry) : Except Fault Unit :=
  match e.command? with
  | some c => (Storage.run d c).1
  | none => .ok ()

namespace RaftNode

/-- The database when the entry at index `i` of `log` is about to be applied. -/
def dbAt (n : RaftNode D) (log : List LogEntry) (i : Nat) : D :=
  Storage.runAll n.db (commandsBetween log n.lastApplied (i - 1))

/-- No entry of an AppendEntries conflicts with one that is applied. -/
def Input.KeepsApplied (n : RaftNode D) : Input → Prop
  | .message (.appendEntries ae) => ∀ j e old, ae.entries[j]? = some e →
      n.log[ae.prevLogIndex + 1 + j]? = some old → ae.prevLogIndex + 1 + j ≤ n.lastApplied →
      old.term = e.term
  | _ => True

/-- A handler applies entries of its log in order, and leaves those in place that were applied. -/
structure Applies (input : Input) (n n' : RaftNode D) : Prop where
  le : n.lastApplied ≤ n'.lastApplied
  db : n'.db = Storage.runAll n.db (commandsBetween n'.log n.lastApplied n'.lastApplied)
  kept : n.lastApplied < n.log.length → input.KeepsApplied n →
    n'.log.take (n.lastApplied + 1) = n.log.take (n.lastApplied + 1) ∧ n'.lastApplied < n'.log.length

/-- An answer to a request that waited for the entry `e` at index `i`, applied on the way from `n` to `n'`
without an error of the database. -/
def Backed (n n' : RaftNode D) (i : Nat) (e : LogEntry) (a : Answer) : Prop :=
  a.message = appliedAt i ∧ n.lastApplied < i ∧ i ≤ n'.lastApplied ∧ n'.log[i]? = some e ∧
    Storage.resultOf (n.dbAt n'.log i) e = .ok ()

/-- Successes are reported for requests that waited, each backed by the database. -/
structure Reports (n n' : RaftNode D) : Prop where
  pending : ∀ key r, n'.pendingRequests.lookup key = some r → n.pendingRequests.lookup key = some r
  answered : ∃ given, n'.answered = n.answered + given ∧ ∀ a ∈ given, a.success = true →
    ∃ i e, Backed n n' i e a ∧ n.pendingRequests.lookup (i, e.term) = some a.responder

end RaftNode

section Apply
variable {n n' : RaftNode D}

theorem applyNext_answers (hs : n.applyNext = some n') : ∃ e, n.log[n.lastApplied + 1]? = some e ∧
    n'.log = n.log ∧ n'.lastApplied = n.lastApplied + 1 ∧
    n'.db = Storage.runAll n.db e.command?.toList ∧
    (∀ key r, n'.pendingRequests.lookup key = some r → n.pendingRequests.lookup key = some r) ∧
    ∃ given, n'.answered = n.answered + given ∧ ∀ a ∈ given, a.success = true →
      a.message = appliedAt (n.lastApplied + 1) ∧ Storage.resultOf n.db e = .ok () ∧
      n.pendingRequests.lookup (n.lastApplied + 1, e.term) = some a.responder := by
  obtain ⟨e, he, rfl⟩ := applyNext_eq_some hs
  have hresult : (n.applyPayload e.payload).1 = Storage.resultOf n.db e := by
    unfold Storage.resultOf LogEntry.command?
    cases e.payload <;> rfl
  have hdb : (n.applyPayload e.payload).2.db = Storage.runAll n.db e.command?.toList := by
    unfold LogEntry.command?
    cases e.payload <;> rfl
  obtain ⟨hcalm, hlog⟩ := calm_applyPayload n e.payload
  generalize n.applyPayload e.payload = p at hcalm hlog hresult hdb ⊢
  obtain ⟨result, b⟩ := p
  dsimp only at hcalm hlog hresult hdb ⊢
  refine ⟨e, he, ?_⟩
  unfold RaftNode.resolvePending
  dsimp only
  cases hkey : b.pendingRequests.lookup (n.lastApplied + 1, e.term) with
  | none =>
    exact ⟨hlog, rfl, hdb, fun key r hr => hcalm.pending ▸ hr, 0, by rw [add_zero]; exact hcalm.answered,
      fun a ha => absurd ha (Multiset.notMem_zero a)⟩
  | some r =>
    have hpending : ∀ key r', (b.pendingRequests.erase (n.lastApplied + 1, e.term)).lookup key = some r' →
        n.pendingRequests.lookup key = some r' := by
      intro key r' hr'
      rw [← hcalm.pending]
      by_cases hk : key = (n.lastApplied + 1, e.term)
      · rw [hk, AList.lookup_erase] at hr'
        cases hr'
      · rwa [AList.lookup_erase_ne hk] at hr'
    refine ⟨hlog, rfl, hdb, hpending, _, (Responder.send_all ..).trans (congrArg (· + _) hcalm.answered), ?_⟩
    intro a ha hsuccess
    obtain rfl := Multiset.mem_singleton.mp ha
    cases result with
    | error err => cases hsuccess
    | ok => exact ⟨rfl, hresult.symm, hcalm.pending ▸ hkey⟩

theorem RaftNode.Backed.mono {m : RaftNode D} {i : Nat} {e : LogEntry} {a : Answer} (h : Backed n m i e a)
    (hlog : n'.log = m.log) (hle : m.lastApplied ≤ n'.lastApplied) : Backed n n' i e a := by
  obtain ⟨hmsg, hlt, hi, he, hok⟩ := h
  exact ⟨hmsg, hlt, hi.trans hle, hlog ▸ he, hlog ▸ hok⟩

theorem RaftNode.Reports.next {m : RaftNode D} (h : Reports n m) (hle : n.lastApplied ≤ m.lastApplied)
    (hdb : m.db = Storage.runAll n.db (commandsBetween m.log n.lastApplied m.lastApplied))
    (hs : m.applyNext = some n') : Reports n n' := by
  obtain ⟨e, he, hlog, happ, -, hpending, given', hgiven', hsome⟩ := applyNext_answers hs
  obtain ⟨given, hgiven, hbacked⟩ := h.answered
  refine ⟨fun key r hr => h.pending key r (hpending key r hr), given + given',
    by rw [hgiven', hgiven, add_assoc], fun a ha hsuccess => ?_⟩
  rcases Multiset.mem_add.mp ha with ha | ha
  · obtain ⟨i, e', hb, hwait⟩ := hbacked a ha hsuccess
    exact ⟨i, e', hb.mono hlog (by omega), hwait⟩
  · obtain ⟨hmsg, hok, hwait⟩ := hsome a ha hsuccess
    refine ⟨m.lastApplied + 1, e, ⟨hmsg, by omega, happ.ge, hlog ▸ he, ?_⟩, h.pending _ _ hwait⟩
    rw [RaftNode.dbAt, Nat.add_sub_cancel, hlog, ← hdb]
    exact hok

theorem applyCommittedEntries_reports (hs : n.applyCommittedEntries = some n') :
    n'.log = n.log ∧ n.lastApplied ≤ n'.lastApplied ∧
      n'.db = Storage.runAll n.db (commandsBetween n.log n.lastApplied n'.lastApplied) ∧
      (n.lastApplied < n.log.length → n'.lastApplied < n.log.length) ∧ Reports n n' := by
  refine (applyCommittedEntries_induct (I := fun b => b.log = n.log ∧ n.lastApplied ≤ b.lastApplied ∧
    b.db = Storage.runAll n.db (commandsBetween n.log n.lastApplied b.lastApplied) ∧
    (n.lastApplied < n.log.length → b.lastApplied < n.log.length) ∧ Reports n b) hs ?_ ?_).1
  · refine ⟨rfl, le_rfl, by rw [commandsBetween_self]; rfl, fun h => h, fun _ _ h => h, 0,
      by rw [add_zero], fun a ha => absurd ha (Multiset.notMem_zero a)⟩
  · rintro b b' ⟨hlog, hle, hdb, -, hreports⟩ - - hb
    have hnext := hreports.next hle (hlog ▸ hdb) hb
    obtain ⟨e, he, hlog', happ, hdb', -⟩ := applyNext_answers hb
    rw [hlog] at he
    refine ⟨hlog'.trans hlog, by omega, ?_, fun _ => ?_, hnext⟩
    · rw [hdb', hdb, happ, commandsBetween_succ hle he, Storage.runAll_append]
    · rw [happ]
      exact (List.getElem?_eq_some_iff.mp he).1

end Apply

section Compose
variable {n m n' : RaftNode D} {input : Input}

/-- As far as entries are applied the append loop leaves the log alone. -/
theorem splice_take_of_agree {k : Nat} (es : List LogEntry) {ℓ : List LogEntry} {i : Nat} (hk : k < ℓ.length)
    (h : ∀ j e old, es[j]? = some e → ℓ[i + j]? = some old → i + j ≤ k → old.term = e.term) :
    (splice ℓ i es).take (k + 1) = ℓ.take (k + 1) := by
  induction es generalizing ℓ i with
  | nil => rfl
  | cons e es ih =>
    have hrest : ∀ {ℓ' : List LogEntry}, ℓ'.take (k + 1) = ℓ.take (k + 1) →
        ∀ j x old, es[j]? = some x → ℓ'[i + 1 + j]? = some old → i + 1 + j ≤ k → old.term = x.term := by
      intro ℓ' heq j x old hx hold hle
      have hindex : i + (j + 1) = i + 1 + j := by omega
      have hlt : i + 1 + j < k + 1 := by omega
      refine h (j + 1) x old hx ?_ (by omega)
      rw [hindex, ← List.getElem?_take_of_lt hlt, ← heq, List.getElem?_take_of_lt hlt, hold]
    have hpush : ∀ {ℓ' : List LogEntry} (x : LogEntry), k < ℓ'.length →
        (ℓ' ++ [x]).take (k + 1) = ℓ'.take (k + 1) := fun x hlt =>
      List.take_append_of_le_length hlt
    rw [splice]
    cases hold : ℓ[i]? with
    | none =>
      dsimp only
      rw [ih (by rw [List.length_append]; omega) (hrest (hpush e hk)), hpush e hk]
    | some old =>
      dsimp only
      split_ifs with hne
      · -- a conflict lies behind the applied entries
        have hi : k < i := by
          by_contra hle
          exact hne (h 0 e old rfl hold (by omega))
        have hlt := (List.getElem?_eq_some_iff.mp hold).1
        have hcut : (ℓ.take i ++ [e]).take (k + 1) = ℓ.take (k + 1) := by
          rw [hpush e (by rw [List.length_take]; omega), List.take_take, Nat.min_eq_left (by omega)]
        rw [ih (by rw [List.length_append, List.length_take]; omega) (hrest hcut), hcut]
      · exact ih hk (hrest rfl)

theorem RaftNode.Applies.of_log (h : Applies input m n') (hlog : n.lastApplied < n.log.length →
      input.KeepsApplied n → m.log.take (n.lastApplied + 1) = n.log.take (n.lastApplied + 1) ∧
        m.lastApplied < m.log.length ∧ input.KeepsApplied m)
    (hdb : m.db = n.db) (happ : m.lastApplied = n.lastApplied) : Applies input n n' where
  le := happ ▸ h.le
  db := by rw [← hdb, ← happ]; exact h.db
  kept hlt hkeeps := by
    obtain ⟨htake, hm, hkeeps⟩ := hlog hlt hkeeps
    obtain ⟨htake', hn'⟩ := h.kept hm hkeeps
    rw [happ] at htake'
    exact ⟨htake'.trans htake, hn'⟩

theorem RaftNode.Input.KeepsApplied.congr (h : input.KeepsApplied n)
    (htake : m.log.take (n.lastApplied + 1) = n.log.take (n.lastApplied + 1))
    (happ : m.lastApplied = n.lastApplied) : input.KeepsApplied m := by
  unfold Input.KeepsApplied at h ⊢
  split at h
  · intro j e old he hold hle
    rw [happ] at hle
    have hlt := Nat.lt_succ_of_le hle
    refine h j e old he ?_ hle
    rw [← List.getElem?_take_of_lt hlt, ← htake, List.getElem?_take_of_lt hlt, hold]
  · trivial

theorem applies_composes [Bincode] (input : Input) : Composes (D := D) input (Applies input) where
  still h := ⟨h.applied.ge, by rw [h.applied, h.log, commandsBetween_self]; exact h.db,
    fun hlt _ => ⟨by rw [h.log], by rw [h.applied, h.log]; exact hlt⟩⟩
  after_still h h' := h'.of_log (fun hlt hkeeps => ⟨by rw [h.log], by rw [h.applied, h.log]; exact hlt,
    hkeeps.congr (by rw [h.log]) h.applied⟩) h.db h.applied
  then_still h h' := ⟨h'.applied ▸ h.le, by rw [h'.db, h'.log, h'.applied]; exact h.db,
    by rw [h'.log, h'.applied]; exact h.kept⟩
  stepDown h := h.of_log (fun hlt hkeeps => ⟨rfl, hlt, hkeeps.congr rfl rfl⟩) rfl rfl
  push e h := by
    refine h.of_log (fun hlt hkeeps => ?_) rfl rfl
    have htake : ∀ {k} {ℓ : List LogEntry}, k < ℓ.length → (ℓ ++ [e]).take (k + 1) = ℓ.take (k + 1) :=
      fun hlt => List.take_append_of_le_length hlt
    refine ⟨htake hlt, ?_, hkeeps.congr (htake hlt) rfl⟩
    rw [pushLogEntry_log, List.length_append]
    exact hlt.trans (Nat.lt_succ_self _)
  appendLoop {n n' ae} hi h := by
    have hcore := (n.appendLoop_core (ae.prevLogIndex + 1) ae.entries).1
    have hlog : (n.appendLoop (ae.prevLogIndex + 1) ae.entries).log =
        splice n.log (ae.prevLogIndex + 1) ae.entries := congrArg Core.log hcore
    have happ : (n.appendLoop (ae.prevLogIndex + 1) ae.entries).lastApplied = n.lastApplied :=
      congrArg Core.lastApplied hcore
    refine h.of_log (fun hlt hkeeps => ?_) (congrArg Core.db hcore) happ
    subst hi
    have htake := splice_take_of_agree ae.entries hlt hkeeps
    rw [← hlog] at htake
    refine ⟨htake, ?_, hkeeps.congr htake happ⟩
    have hlen := congrArg List.length htake
    rw [List.length_take, List.length_take] at hlen
    omega
  apply h := by
    obtain ⟨hlog, hle, hdb, hbound, -⟩ := applyCommittedEntries_reports h
    exact ⟨hle, hlog ▸ hdb, fun hlt _ => ⟨by rw [hlog], by rw [hlog]; exact hbound hlt⟩⟩

theorem RaftNode.Backed.of_eq {i : Nat} {e : LogEntry} {a : Answer} (h : Backed m n' i e a)
    (hdb : m.db = n.db) (happ : m.lastApplied = n.lastApplied) : Backed n n' i e a := by
  obtain ⟨hmsg, hlt, hi, he, hok⟩ := h
  rw [RaftNode.dbAt, hdb, happ] at hok
  exact ⟨hmsg, happ ▸ hlt, hi, he, hok⟩

theorem RaftNode.Reports.of_eq (h : Reports m n') (hdb : m.db = n.db) (happ : m.lastApplied = n.lastApplied)
    (hp : m.pendingRequests = n.pendingRequests) (hans : m.answered = n.answered) : Reports n n' := by
  obtain ⟨given, hgiven, hbacked⟩ := h.answered
  refine ⟨hp ▸ h.pending, given, hans ▸ hgiven, fun a ha hsuccess => ?_⟩
  obtain ⟨i, e, hb, hwait⟩ := hbacked a ha hsuccess
  exact ⟨i, e, hb.of_eq hdb happ, hp ▸ hwait⟩

theorem RaftNode.Reports.refl (n : RaftNode D) : Reports n n :=
  ⟨fun _ _ h => h, 0, by rw [add_zero], fun a ha => absurd ha (Multiset.notMem_zero a)⟩

theorem RaftNode.Reports.of_stepDown {t : Nat} {now : Instant} (h : Reports (n.stepDown t now) n') :
    Reports n n' := by
  have hnone : ∀ key, (n.stepDown t now).pendingRequests.lookup key = none := fun key =>
    AList.lookup_empty key
  obtain ⟨given, hgiven, hbacked⟩ := h.answered
  obtain ⟨message, hfail⟩ := stepDown_answered n t now
  refine ⟨fun key r hr => ?_, _, by rw [hgiven, hfail, add_assoc], fun a ha hsuccess => ?_⟩
  · have hr := h.pending key r hr
    rw [hnone] at hr
    cases hr
  · rcases Multiset.mem_add.mp ha with ha | ha
    · obtain ⟨q, -, rfl⟩ := List.mem_map.mp (Multiset.mem_coe.mp ha)
      cases hsuccess
    · obtain ⟨i, e, -, hwait⟩ := hbacked a ha hsuccess
      rw [hnone] at hwait
      cases hwait

theorem reports_composes [Bincode] (input : Input) : Composes (D := D) input Reports where
  still h := ⟨fun key r hr => h.pending ▸ hr, 0, by rw [add_zero, h.answered],
    fun a ha => absurd ha (Multiset.notMem_zero a)⟩
  after_still h h' := h'.of_eq h.db h.applied h.pending h.answered
  then_still {n m n'} h h' := by
    obtain ⟨given, hgiven, hbacked⟩ := h.answered
    refine ⟨fun key r hr => h.pending key r (h'.pending ▸ hr), given, h'.answered.trans hgiven,
      fun a ha hsuccess => ?_⟩
    obtain ⟨i, e, hb, hwait⟩ := hbacked a ha hsuccess
    exact ⟨i, e, hb.mono h'.log h'.applied.ge, hwait⟩
  stepDown h := h.of_stepDown
  push e h := h.of_eq rfl rfl rfl rfl
  appendLoop {n n' ae} _ h := by
    have hcore := (n.appendLoop_core (ae.prevLogIndex + 1) ae.entries).1
    have hcalm := calm_appendLoop n (ae.prevLogIndex + 1) ae.entries
    exact h.of_eq (congrArg Core.db hcore) hcalm.applied hcalm.pending hcalm.answered
  apply h := (applyCommittedEntries_reports h).2.2.2.2

end Compose

section Write
variable {n n' : RaftNode D} {c : Command} {r : Responder}

theorem appliedAt_injective {i j : Nat} (h : appliedAt i = appliedAt j) : i = j := by
  unfold appliedAt at h
  have htext := congrArg String.toList h
  simp only [String.toList_append, List.append_cancel_left_eq, toString_nat_toList] at htext
  have hparse := congrArg parseDigits htext
  rw [parseDigits_toDigits, parseDigits_toDigits] at hparse
  exact Option.some.inj hparse

theorem length_le_commit_of_alone [Bincode] (hpeers : n.peers = []) (e : LogEntry) (he : e.term = n.currentTerm) :
    n.log.length ≤ (List.range' (n.commitIndex + 1) (n.log.length + 1 - (n.commitIndex + 1))).foldl
      (n.pushLogEntry e).commitAt n.commitIndex := by
  rcases Nat.lt_or_ge n.commitIndex n.log.length with hlt | hge
  · have hrange : n.log.length + 1 - (n.commitIndex + 1) = (n.log.length - n.commitIndex - 1) + 1 := by omega
    have hlast : n.commitIndex + 1 + (n.log.length - n.commitIndex - 1) = n.log.length := by omega
    have hentry : (n.pushLogEntry e).log[n.log.length]? = some e := by
      rw [pushLogEntry_log, List.getElem?_concat_length]
    have hmajority : (n.pushLogEntry e).majority ≤ (n.pushLogEntry e).replicated n.log.length := by
      have hone : (n.pushLogEntry e).majority = 1 := by
        change (n.peers.length + 1) / 2 + 1 = 1
        rw [hpeers]
        rfl
      rw [hone, RaftNode.replicated]
      omega
    rw [hrange, List.range'_1_concat, List.foldl_concat, hlast, RaftNode.commitAt, hentry]
    have hterm : e.term = (n.pushLogEntry e).currentTerm := he
    dsimp only
    rw [if_neg (not_not.mpr hterm), if_pos hmajority]
  · rw [Nat.sub_eq_zero_of_le (by omega)]
    exact hge

/-- Without peers a command is applied before `append_command` returns, with peers it is not. -/
theorem appendCommand_applied [FloatText] [Bincode] {index : Nat} (hs : n.appendCommand c = some (n', index)) :
    (n.peers = [] → n.log.length ≤ n'.lastApplied) ∧ (n.peers ≠ [] → n'.lastApplied = n.lastApplied) := by
  simp only [RaftNode.appendCommand, Option.bind_eq_bind, Option.bind_eq_some_iff,
    Option.guard_eq_some', Option.pure_def, Option.some.injEq, Prod.mk.injEq] at hs
  obtain ⟨-, -, b, hb, rfl, -⟩ := hs
  rw [RaftNode.replicate] at hb
  split_ifs at hb with hempty
  · have hpeers : n.peers = [] := List.isEmpty_iff.mp hempty
    refine ⟨fun _ => ?_, fun hne => absurd hpeers hne⟩
    have happ := (applyCommittedEntries_induct (I := fun _ => True) hb trivial fun _ _ _ _ _ _ => trivial).2.1
    have hcommit := length_le_commit_of_alone hpeers ⟨n.currentTerm, .command (LogRecord.new 0 c)⟩ rfl
    rw [happ]
    have hlen : (n.pushLogEntry ⟨n.currentTerm, .command (LogRecord.new 0 c)⟩).log.length =
        n.log.length + 1 := List.length_append ..
    rw [← hlen] at hcommit
    exact le_max_of_le_right hcommit
  · have hpeers : n.peers ≠ [] := fun h => hempty (List.isEmpty_iff.mpr h)
    exact ⟨fun h => absurd h hpeers, fun _ => (still_sendHeartbeats hb).applied⟩

theorem submitStoreWrite_leader [FloatText] [Bincode] (hr : n.role = .leader) (hs : n.submitStoreWrite c r = some n') :
    ∃ b, n.appendCommand c = some (b, n.log.length) ∧
      b.log = n.log ++ [⟨n.currentTerm, .command (LogRecord.new 0 c)⟩] ∧
      n'.log = b.log ∧ n'.db = b.db ∧ n'.lastApplied = b.lastApplied ∧
      ((n.log.length ≤ b.lastApplied ∧
          n'.answered = b.answered + {⟨r, true, none, appliedAt n.log.length⟩}) ∨
        (b.lastApplied < n.log.length ∧ n'.answered = b.answered)) := by
  simp only [RaftNode.submitStoreWrite] at hs
  rw [if_neg (not_not.mpr hr)] at hs
  obtain ⟨⟨b, index⟩, hb, hs⟩ := Option.bind_eq_some_iff.mp hs
  obtain ⟨entry, -, hs⟩ := Option.bind_eq_some_iff.mp hs
  obtain ⟨rfl, hlog⟩ := appendCommand_log hb
  refine ⟨b, hb, hlog, ?_⟩
  split_ifs at hs with hi
  · obtain rfl := Option.some.inj hs
    exact ⟨rfl, rfl, rfl, Or.inl ⟨hi, Responder.send_all ..⟩⟩
  · obtain rfl := Option.some.inj hs
    exact ⟨rfl, rfl, rfl, Or.inr ⟨not_le.mp hi, rfl⟩⟩

end Write

section Process
variable {n n' : RaftNode D} {input : Input} {now : Instant}

theorem RaftNode.Applies.of_eq {b : RaftNode D} (h : Applies input n b) (hlog : n'.log = b.log)
    (hdb : n'.db = b.db) (happ : n'.lastApplied = b.lastApplied) : Applies input n n' :=
  ⟨happ ▸ h.le, by rw [hdb, hlog, happ]; exact h.db, by rw [hlog, happ]; exact h.kept⟩

theorem process_applies [FloatText] [Bincode] (hs : n.process input now = some n') : Applies input n n' := by
  have hc := applies_composes (D := D) input
  cases hr : input.isRead with
  | true =>
    obtain ⟨-, -, happ, hlog, hdb⟩ := process_read hr hs
    exact (hc.refl n).of_eq hlog hdb happ
  | false =>
    cases hw : input.write with
    | none => exact hc.process hw hr hs
    | some w =>
      have hs := process_write hw hs
      have hstill : Still n { n with crashPoints := [] } := .of_eq rfl rfl rfl rfl rfl
      refine hc.after_still hstill ?_
      generalize ({ n with crashPoints := [] } : RaftNode D) = b at hs ⊢
      by_cases hlead : b.role = .leader
      · obtain ⟨d, hd, -, hlog, hdb, happ, -⟩ := submitStoreWrite_leader hlead hs
        exact (hc.appendCommand hd).of_eq hlog hdb happ
      · simp only [RaftNode.submitStoreWrite] at hs
        rw [if_pos hlead] at hs
        obtain rfl := Option.some.inj hs
        exact (hc.refl b).of_eq rfl rfl rfl

end Process
end KvRaft
