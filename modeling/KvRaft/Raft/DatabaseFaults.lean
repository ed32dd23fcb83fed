import KvRaft.Raft.Applying
import KvRaft.Raft.Recovery

/-! Nodes whose database may refuse a write: what the applied index says about the contents of the
database, and what a reported success says about the call. -/

namespace KvRaft
open RaftNode hiding id

/-- A map of which the calls numbered by `fails` are refused, as when the log cannot be written. -/
structure FlakyMap (fails : Nat → Bool) where
  data : AList (fun _ : String => Value)
  calls : Nat

namespace FlakyMap
variable {fails : Nat → Bool}

def refusal : Fault := .io .invalidInput "No space left on device (os error 28)"

def edit (c : Command) (data : AList (fun _ : String => Value)) : AList (fun _ : String => Value) :=
  match c with
  | .set k v => data.insert k v
  | .delete k => data.erase k

def call (d : FlakyMap fails) (c : Command) : Except Fault Unit × FlakyMap fails :=
  if fails d.calls then (.error refusal, ⟨d.data, d.calls + 1⟩) else (.ok (), ⟨edit c d.data, d.calls + 1⟩)

instance : Storage (FlakyMap fails) where
  Disk := AList (fun _ : String => Value)
  emptyDisk := ∅
  fresh _ := ⟨∅, 0⟩
  openInDir disk _ := .ok ⟨disk, 0⟩
  disk d := d.data
  insert d k v := d.call (.set k v)
  delete d k := d.call (.delete k)
  get d k := .ok (d.data.lookup k)
  open_empty _ := rfl

def contents (d : FlakyMap fails) (k : String) : Option Value := d.data.lookup k

end FlakyMap

namespace Storage
variable {D : Type} [Storage D]

def effect (c : Command) (m : String → Option Value) : String → Option Value :=
  match c with
  | .set k v => fun k' => if k' = k then some v else m k'
  | .delete k => fun k' => if k' = k then none else m k'

theorem fold_concat (cs : List Command) (c : Command) : fold (cs ++ [c]) = effect c (fold cs) := by
  rw [fold, List.foldl_concat]
  cases c <;> rfl

/-- A database with these contents, of which a failing call changes nothing. -/
structure Transactional (contents : D → String → Option Value) : Prop where
  fresh : ∀ config, contents (fresh config) = fun _ => none
  run_ok : ∀ d c, (run d c).1 = .ok () → contents (run d c).2 = effect c (contents d)
  run_error : ∀ d c e, (run d c).1 = .error e → contents (run d c).2 = contents d

end Storage

namespace FlakyMap
variable {fails : Nat → Bool}

theorem run_eq (d : FlakyMap fails) (c : Command) : Storage.run d c = d.call c := by
  cases c <;> rfl

theorem lookup_edit (c : Command) (data : AList (fun _ : String => Value)) :
    (fun k => (edit c data).lookup k) = Storage.effect c fun k => data.lookup k := by
  funext k'
  cases c with
  | set k v =>
    rw [Storage.effect, edit]
    dsimp only
    split_ifs with hk
    · rw [hk, AList.lookup_insert]
    · rw [AList.lookup_insert_ne hk]
  | delete k =>
    rw [Storage.effect, edit]
    dsimp only
    split_ifs with hk
    · rw [hk, AList.lookup_erase]
    · rw [AList.lookup_erase_ne hk]

theorem transactional (fails : Nat → Bool) :
    Storage.Transactional (contents : FlakyMap fails → String → Option Value) := by
  refine ⟨fun _ => funext fun k => AList.lookup_empty k, fun d c hok => ?_, fun d c e herr => ?_⟩
  · rw [run_eq, call] at hok ⊢
    split_ifs at hok ⊢
    exact lookup_edit c d.data
  · rw [run_eq, call] at herr ⊢
    split_ifs at herr ⊢
    rfl

end FlakyMap

section General
variable [FloatText] {D : Type} [Storage D]

section Contents
variable {contents : D → String → Option Value} {n n' : RaftNode D} {input : Input}

/-- On the way from `n` to `n'` the database refuses only commands that would change nothing. -/
def RaftNode.HarmlessFailures (contents : D → String → Option Value) (n n' : RaftNode D) : Prop :=
  ∀ i c err, n.lastApplied < i → i ≤ n'.lastApplied → n'.log[i]?.bind LogEntry.command? = some c →
    (Storage.run (n.dbAt n'.log i) c).1 = .error err →
    Storage.effect c (contents (n.dbAt n'.log i)) = contents (n.dbAt n'.log i)

/-- A step neither replaces an applied entry nor meets a failure that matters. -/
def RaftNode.Undisturbed [Bincode] (contents : D → String → Option Value) (n : RaftNode D) (s : Input × Instant) :
    Prop :=
  s.1.KeepsApplied n ∧ ∀ n', n.process s.1 s.2 = some n' → HarmlessFailures contents n n'

/-- The database holds what the applied entries say. -/
structure RaftNode.Faithful (contents : D → String → Option Value) (n : RaftNode D) : Prop where
  bound : n.lastApplied < n.log.length
  contents_eq : contents n.db = Storage.fold (commandsUpTo n.log n.lastApplied)

omit [FloatText] in
theorem Storage.Transactional.step (hD : Storage.Transactional contents) {d : D} {cs : List Command}
    (hd : contents d = Storage.fold cs) {c : Command}
    (hfail : ∀ err, (Storage.run d c).1 = .error err → Storage.effect c (contents d) = contents d) :
    contents (Storage.run d c).2 = Storage.fold (cs ++ [c]) := by
  rw [Storage.fold_concat, ← hd]
  cases hres : (Storage.run d c).1 with
  | ok => exact hD.run_ok d c hres
  | error err => rw [hD.run_error d c err hres, hfail err hres]

omit [FloatText] in
theorem RaftNode.Faithful.applies (h : Faithful contents n) (hD : Storage.Transactional contents)
    (ha : Applies input n n') (hkeeps : input.KeepsApplied n) (hfail : HarmlessFailures contents n n') :
    Faithful contents n' := by
  obtain ⟨htake, hbound⟩ := ha.kept h.bound hkeeps
  refine ⟨hbound, ?_⟩
  -- the database after each of the entries applied on the way
  have hall : ∀ j, n.lastApplied ≤ j → j ≤ n'.lastApplied →
      contents (Storage.runAll n.db (commandsBetween n'.log n.lastApplied j)) =
        Storage.fold (commandsUpTo n'.log j) := by
    intro j hle
    induction j, hle using Nat.le_induction with
    | base =>
      intro _
      rw [commandsBetween_self, commandsUpTo_of_take htake, ← h.contents_eq]
      rfl
    | succ j hle ih =>
      intro hj
      have hlt : j + 1 < n'.log.length := by omega
      have he : n'.log[j + 1]? = some n'.log[j + 1] := List.getElem?_eq_getElem hlt
      rw [commandsBetween_succ hle he, commandsUpTo_succ he]
      cases hc : (n'.log[j + 1]).command? with
      | none =>
        rw [Option.toList_none, List.append_nil, List.append_nil]
        exact ih (by omega)
      | some c =>
        rw [Option.toList_some, Storage.runAll_concat]
        refine hD.step (ih (by omega)) fun err herr => ?_
        exact hfail (j + 1) c err (by omega) hj (by rw [he, Option.bind_some, hc]) herr
  rw [ha.db]
  exact hall _ ha.le le_rfl

/-- What a node has applied is in its database, as long as the database refuses no command that would
change something and no applied entry is replaced. -/
theorem contents_eq_fold [Bincode] (hD : Storage.Transactional contents) {id : NodeId} {ps : List NodeId}
    {config : Config} {now : Instant} (hn : RaftNode.newInDir Dir.empty id ps config now = some n)
    {steps : List (Input × Instant)} (hs : n.exec steps = some n')
    (hsteps : Fold.Along (fun n s => n.process s.1 s.2) (Undisturbed contents) n steps) :
    contents n'.db = Storage.fold (commandsUpTo n'.log n'.lastApplied) := by
  have hfresh : Faithful contents n := by
    simp only [RaftNode.newInDir, Dir.empty, Storage.open_empty, Option.some.injEq] at hn
    subst hn
    exact ⟨Nat.one_pos, hD.fresh config⟩
  refine (Fold.foldlM_along (P := Faithful contents) hs hsteps hfresh ?_).contents_eq
  rintro b ⟨input, now⟩ b' - ⟨hkeeps, hfail⟩ hb hstep
  exact hb.applies hD (process_applies hstep) hkeeps (hfail b' hstep)

end Contents

section Acknowledged
variable {n n' : RaftNode D} {input : Input} {now : Instant}

/-- Every success that a step reports for a write is that of an entry applied in this step, the one the
request waited for or the one just submitted, by a call of the database that returned `Ok`. -/
def RaftNode.HonestAnswers (input : Input) (n n' : RaftNode D) : Prop :=
  ∀ a ∈ n'.answered - n.answered, a.success = true → ∃ i e, Backed n n' i e a ∧
    (n.pendingRequests.lookup (i, e.term) = some a.responder ∨
      ∃ c, input.write = some (a.responder, c) ∧ i = n.log.length ∧
        e = ⟨n.currentTerm, .command (LogRecord.new 0 c)⟩)

/-- A leader to which a write is submitted has not applied past its log, and it has a peer or its database
takes the write when its turn comes. -/
def RaftNode.TakesWrite (input : Input) (n : RaftNode D) : Prop :=
  ∀ r c, input.write = some (r, c) → n.role = .leader → n.lastApplied < n.log.length ∧
    (n.peers ≠ [] ∨ (Storage.run (Storage.runAll n.db
      (commandsBetween n.log n.lastApplied (n.log.length - 1))) c).1 = .ok ())

theorem RaftNode.Reports.honest (h : Reports n n') : HonestAnswers input n n' := by
  obtain ⟨given, hgiven, hbacked⟩ := h.answered
  intro a ha hsuccess
  rw [hgiven, add_tsub_cancel_left] at ha
  obtain ⟨i, e, hb, hwait⟩ := hbacked a ha hsuccess
  exact ⟨i, e, hb, Or.inl hwait⟩

theorem resultOf_appended (n : RaftNode D) (c : Command) (hpos : n.lastApplied < n.log.length) :
    Storage.resultOf (n.dbAt (n.log ++ [⟨n.currentTerm, .command (LogRecord.new 0 c)⟩]) n.log.length)
        ⟨n.currentTerm, .command (LogRecord.new 0 c)⟩ =
      (Storage.run (Storage.runAll n.db
        (commandsBetween n.log n.lastApplied (n.log.length - 1))) c).1 := by
  have hlen : n.log.length - 1 + 1 = n.log.length := by omega
  rw [RaftNode.dbAt, commandsBetween, commandsBetween, hlen, List.take_left, List.take_length]
  rfl

theorem submitStoreWrite_honest_iff [Bincode] {r : Responder} {c : Command} (hw : input.write = some (r, c))
    (hs : n.submitStoreWrite c r = some n') : HonestAnswers input n n' ↔ TakesWrite input n := by
  by_cases hlead : n.role = .leader
  · obtain ⟨b, hb, hlog, hlog', hdb, happ, hcase⟩ := submitStoreWrite_leader hlead hs
    have hreports : Reports n b := (reports_composes input).appendCommand hb
    have hle : n.lastApplied ≤ b.lastApplied := ((applies_composes input).appendCommand hb).le
    obtain ⟨halone, hpeers⟩ := appendCommand_applied hb
    have htakes : TakesWrite input n ↔ n.lastApplied < n.log.length ∧
        (n.peers ≠ [] ∨ (Storage.run (Storage.runAll n.db
          (commandsBetween n.log n.lastApplied (n.log.length - 1))) c).1 = .ok ()) := by
      refine ⟨fun h => h r c hw hlead, fun h r' c' hw' _ => ?_⟩
      rw [hw] at hw'
      obtain ⟨rfl, rfl⟩ := Prod.mk.inj (Option.some.inj hw')
      exact h
    rw [htakes]
    obtain ⟨given, hgiven, hbacked⟩ := hreports.answered
    have hold : ∀ a ∈ given, a.success = true → ∃ i e, Backed n n' i e a ∧
        n.pendingRequests.lookup (i, e.term) = some a.responder := fun a ha hsuccess => by
      obtain ⟨i, e, hba, hwait⟩ := hbacked a ha hsuccess
      exact ⟨i, e, hba.mono hlog' happ.ge, hwait⟩
    rcases hcase with ⟨hi, hans⟩ | ⟨hi, hans⟩
    · have hdiff : n'.answered - n.answered = given + {⟨r, true, none, appliedAt n.log.length⟩} := by
        rw [hans, hgiven, add_assoc, add_tsub_cancel_left]
      constructor
      · intro h
        obtain ⟨i, e, ⟨hmsg, hlt, -, he, hok⟩, -⟩ := h ⟨r, true, none, appliedAt n.log.length⟩
          (hdiff ▸ Multiset.mem_add.mpr (Or.inr (Multiset.mem_singleton_self _))) rfl
        obtain rfl : n.log.length = i := appliedAt_injective hmsg
        rw [hlog', hlog] at he hok
        rw [List.getElem?_concat_length] at he
        obtain rfl := Option.some.inj he
        rw [resultOf_appended n c hlt] at hok
        exact ⟨hlt, Or.inr hok⟩
      · rintro ⟨hlt, hwhy⟩ a ha hsuccess
        rw [hdiff] at ha
        rcases Multiset.mem_add.mp ha with ha | ha
        · obtain ⟨i, e, hba, hwait⟩ := hold a ha hsuccess
          exact ⟨i, e, hba, Or.inl hwait⟩
        · obtain rfl := Multiset.mem_singleton.mp ha
          have hok := hwhy.resolve_left fun hne => by
            have := hpeers hne
            omega
          refine ⟨n.log.length, _, ⟨rfl, hlt, happ ▸ hi, ?_, ?_⟩, Or.inr ⟨c, hw, rfl, rfl⟩⟩
          · rw [hlog', hlog, List.getElem?_concat_length]
          · rw [hlog', hlog, resultOf_appended n c hlt]
            exact hok
    · -- the write waits for its entry
      have hdiff : n'.answered - n.answered = given := by
        rw [hans, hgiven, add_tsub_cancel_left]
      refine iff_of_true (fun a ha hsuccess => ?_) ⟨by omega, Or.inl fun hnil => ?_⟩
      · obtain ⟨i, e, hba, hwait⟩ := hold a (hdiff ▸ ha) hsuccess
        exact ⟨i, e, hba, Or.inl hwait⟩
      · have := halone hnil
        omega
  · refine iff_of_true (fun a ha hsuccess => ?_) fun _ _ _ hr => absurd hr hlead
    rcases submitStoreWrite_serves hs with ⟨-, -, -, message, hans⟩ | ⟨_, _, hr, -⟩
    · rw [hans, add_tsub_cancel_left, Multiset.mem_singleton] at ha
      subst ha
      cases hsuccess
    · exact absurd hr hlead

/-- Successes of writes are honest just when a leader without peers is not refused by its database. -/
theorem honest_answers_iff [Bincode] (hr : input.isRead = false) (hs : n.process input now = some n') :
    HonestAnswers input n n' ↔ TakesWrite input n := by
  cases hw : input.write with
  | none =>
    refine iff_of_true ((reports_composes input).process hw hr hs).honest fun r c hw' => ?_
    rw [hw] at hw'
    cases hw'
  | some w => exact submitStoreWrite_honest_iff (n := { n with crashPoints := [] }) hw (process_write hw hs)

end Acknowledged
end General

section Concrete
open scoped Concrete

theorem FlakyMap.run_ok (d : FlakyMap fun _ => false) (c : Command) : (Storage.run d c).1 = .ok () := by
  rw [run_eq]
  rfl

/-- The first call of the database is refused: it is to delete a key that is not there. -/
theorem contents_eq_fold_refused_delete : ∃ n n' : RaftNode (FlakyMap (· == 0)),
    RaftNode.newInDir Dir.empty 1 [] .default ⟨0, 0⟩ = some n ∧
    n.exec [(.message .timeout, ⟨0, 0⟩), (.message (.clientCommand (.delete "a")), ⟨0, 0⟩),
      (.message (.clientCommand (.set "b" (.int 2))), ⟨0, 0⟩)] = some n' ∧
    (Storage.run n.db (.delete "a")).1 = .error FlakyMap.refusal ∧ n'.lastApplied = 2 ∧
    FlakyMap.contents n'.db = Storage.fold (commandsUpTo n'.log n'.lastApplied) := by
  have hrun : ((RaftNode.newInDir Dir.empty 1 [] .default ⟨0, 0⟩ : Option (RaftNode (FlakyMap (· == 0)))).bind fun n =>
      (n.process (.message .timeout) ⟨0, 0⟩).bind fun n₁ =>
        (n₁.process (.message (.clientCommand (.delete "a"))) ⟨0, 0⟩).bind fun n₂ =>
          (n₂.process (.message (.clientCommand (.set "b" (.int 2)))) ⟨0, 0⟩).map fun n₃ =>
            ([n.lastApplied, n₁.lastApplied, n₂.lastApplied, n₃.lastApplied], (n.db.calls, n₁.db.calls, n₂.db.calls),
              n₁.db.data.entries.length, n₂.log[1]?.bind LogEntry.command?)) =
      some ([0, 0, 1, 2], (0, 0, 1), 0, some (.delete "a")) := by
    decide +kernel
  obtain ⟨n, hn, hrun⟩ := Option.bind_eq_some_iff.mp hrun
  obtain ⟨n₁, h₁, hrun⟩ := Option.bind_eq_some_iff.mp hrun
  obtain ⟨n₂, h₂, hrun⟩ := Option.bind_eq_some_iff.mp hrun
  obtain ⟨n₃, h₃, hrun⟩ := Option.map_eq_some_iff.mp hrun
  simp only [Prod.mk.injEq, List.cons.injEq, and_true] at hrun
  obtain ⟨⟨happ, happ₁, happ₂, happ₃⟩, ⟨hcalls, hcalls₁, hcalls₂⟩, hdata, hentry⟩ := hrun
  have hexec : n.exec [(.message .timeout, ⟨0, 0⟩), (.message (.clientCommand (.delete "a")), ⟨0, 0⟩),
      (.message (.clientCommand (.set "b" (.int 2))), ⟨0, 0⟩)] = some n₃ := by
    simp [RaftNode.exec, h₁, h₂, h₃]
  have hrefused : (Storage.run n.db (.delete "a")).1 = .error FlakyMap.refusal := by
    rw [FlakyMap.run_eq, FlakyMap.call, hcalls]
    rfl
  refine ⟨n, n₃, hn, hexec, hrefused, happ₃, contents_eq_fold (FlakyMap.transactional _) hn hexec ?_⟩
  refine ⟨⟨trivial, fun b hb i c err hi hle => ?_⟩, fun b hb => ⟨⟨trivial, fun b' hb' i c err hi hle hc _ => ?_⟩,
    fun b' hb' => ⟨⟨trivial, fun b'' hb'' i c err hi hle _ herr => ?_⟩, fun _ _ => trivial⟩⟩⟩
  · obtain rfl := Option.some.inj (h₁.symm.trans hb)
    omega
  · obtain rfl := Option.some.inj (h₁.symm.trans hb)
    obtain rfl := Option.some.inj (h₂.symm.trans hb')
    obtain rfl : i = 1 := by omega
    obtain rfl : Command.delete "a" = c := Option.some.inj (hentry.symm.trans hc)
    have hdb : n₁.dbAt n₂.log 1 = n₁.db := by
      rw [RaftNode.dbAt, happ₁, commandsBetween_self]
      rfl
    have hnone : n₁.db.data = ∅ := AList.ext (List.length_eq_zero_iff.mp hdata)
    rw [hdb]
    funext k
    simp [Storage.effect, FlakyMap.contents, hnone]
  · obtain rfl := Option.some.inj (h₁.symm.trans hb)
    obtain rfl := Option.some.inj (h₂.symm.trans hb')
    obtain rfl := Option.some.inj (h₃.symm.trans hb'')
    obtain rfl : i = 2 := by omega
    have hdb : n₂.dbAt n₃.log 2 = n₂.db := by
      rw [RaftNode.dbAt, happ₂, commandsBetween_self]
      rfl
    rw [hdb, FlakyMap.run_eq, FlakyMap.call, hcalls₂] at herr
    cases herr

/-- The only call of the database is refused, and its entry counts as applied. -/
theorem refused_write_applied : ∃ n n' : RaftNode (FlakyMap fun _ => true),
    RaftNode.newInDir Dir.empty 1 [] .default ⟨0, 0⟩ = some n ∧
    n.exec [(.message .timeout, ⟨0, 0⟩), (.message (.clientCommand (.set "a" (.int 1))), ⟨0, 0⟩)] = some n' ∧
    n'.lastApplied = 1 ∧
    FlakyMap.contents n'.db ≠ Storage.fold (commandsUpTo n'.log n'.lastApplied) := by
  have hrun : ((RaftNode.newInDir Dir.empty 1 [] .default ⟨0, 0⟩ :
      Option (RaftNode (FlakyMap fun _ => true))).bind fun n =>
      (n.exec [(.message .timeout, ⟨0, 0⟩), (.message (.clientCommand (.set "a" (.int 1))), ⟨0, 0⟩)]).map
        fun n' => (n'.lastApplied, FlakyMap.contents n'.db "a",
          Storage.fold (commandsUpTo n'.log n'.lastApplied) "a")) = some (1, none, some (.int 1)) := by
    decide +kernel
  obtain ⟨n, hn, hrun⟩ := Option.bind_eq_some_iff.mp hrun
  obtain ⟨n', hs, hrun⟩ := Option.map_eq_some_iff.mp hrun
  simp only [Prod.mk.injEq] at hrun
  obtain ⟨happ, hheld, hfold⟩ := hrun
  refine ⟨n, n', hn, hs, happ, fun heq => ?_⟩
  rw [heq, hfold] at hheld
  cases hheld

def aloneLeader (fails : Nat → Bool) : Option (RaftNode (FlakyMap fails)) :=
  (RaftNode.newInDir Dir.empty 1 [] .default ⟨0, 0⟩).bind fun n => n.process (.message .timeout) ⟨0, 0⟩

theorem taken_write_honest : ∃ n n', aloneLeader (fun _ => false) = some n ∧
    n.process (.request ⟨.set "a" (.int 1), .oneshot 0⟩) ⟨0, 0⟩ = some n' ∧
    HonestAnswers (.request ⟨.set "a" (.int 1), .oneshot 0⟩) n n' := by
  have hrun : ((aloneLeader fun _ => false).bind fun n =>
      (n.process (.request ⟨.set "a" (.int 1), .oneshot 0⟩) ⟨0, 0⟩).map fun _ =>
        (n.lastApplied, n.log.length)) = some (0, 1) := by
    decide +kernel
  obtain ⟨n, hn, hrun⟩ := Option.bind_eq_some_iff.mp hrun
  obtain ⟨n', hs, hrun⟩ := Option.map_eq_some_iff.mp hrun
  obtain ⟨happ, hlen⟩ := Prod.mk.inj hrun
  refine ⟨n, n', hn, hs, (honest_answers_iff rfl hs).mpr fun r c _ _ => ⟨by omega, Or.inr ?_⟩⟩
  exact FlakyMap.run_ok _ c

/-- The database refuses the write, and the client is told of a success. -/
theorem refused_write_acknowledged : ∃ n n', aloneLeader (fun _ => true) = some n ∧
    n.process (.request ⟨.set "a" (.int 1), .oneshot 0⟩) ⟨0, 0⟩ = some n' ∧
    n'.replies.map (fun p => (p.1, p.2.success)) = [(0, true)] ∧
    ¬ HonestAnswers (.request ⟨.set "a" (.int 1), .oneshot 0⟩) n n' := by
  have hrun : ((aloneLeader fun _ => true).bind fun n =>
      (n.process (.request ⟨.set "a" (.int 1), .oneshot 0⟩) ⟨0, 0⟩).map fun n' =>
        (n.role, n.peers, n'.replies.map fun p => (p.1, p.2.success))) = some (.leader, [], [(0, true)]) := by
    decide +kernel
  obtain ⟨n, hn, hrun⟩ := Option.bind_eq_some_iff.mp hrun
  obtain ⟨n', hs, hrun⟩ := Option.map_eq_some_iff.mp hrun
  simp only [Prod.mk.injEq] at hrun
  obtain ⟨hrole, hpeers, hreplies⟩ := hrun
  refine ⟨n, n', hn, hs, hreplies, fun h => ?_⟩
  have htakes := (submitStoreWrite_honest_iff (n := { n with crashPoints := [] }) rfl
    (process_write rfl hs)).mp h
  obtain ⟨-, hwhy⟩ := htakes _ _ rfl hrole
  have hrefused := hwhy.resolve_left (not_not.mpr hpeers)
  rw [FlakyMap.run_eq, FlakyMap.call, if_pos rfl] at hrefused
  cases hrefused

end Concrete
end KvRaft
