import KvRaft.Raft.Moves

/-! What a handler does for the clients of a node: the requests that wait for an answer, and the
answers that were given. -/

namespace KvRaft

structure Answer where
  responder : Responder
  success : Bool
  value : Option Value
  message : String
  deriving DecidableEq, Repr

namespace Answer

def ofReply (p : Nat × ServiceResponse) : Answer := ⟨.oneshot p.1, p.2.success, p.2.value, p.2.message⟩

def ofEnvelope : Envelope → Option Answer
  | (client, .clientResponse r) => some ⟨.raftClient client r.requestId, r.success, r.value, r.message⟩
  | _ => none

end Answer

def Answers.all (out : Answers) : Multiset Answer :=
  (out.replies.map Answer.ofReply : List Answer) + (out.outbox.filterMap Answer.ofEnvelope : List Answer)

@[simp] theorem Responder.send_all (r : Responder) (success : Bool) (value : Option Value)
    (message : String) (leader : Option NodeId) (term : Nat) (self : NodeId) (role : Role)
    (peers : List NodeId) (out : Answers) :
    (r.send success value message leader term self role peers out).all =
      out.all + {⟨r, success, value, message⟩} := by
  cases r with
  | oneshot tx =>
    rw [Responder.send, Answers.all, Answers.all, List.map_append, ← Multiset.coe_add, add_right_comm]
    rfl
  | raftClient clientId requestId =>
    rw [Responder.send, Answers.all, Answers.all, List.filterMap_append, ← Multiset.coe_add, ← add_assoc]
    rfl

abbrev Pending := AList (fun _ : Nat × Nat => Responder)

def appliedAt (index : Nat) : String := s!"Write committed and applied at log index {index}"

/-- Requests that wait are answered one by one. A success is reported for an entry of `log` that is
applied and has the term the request waits for. -/
inductive Serves (log : List LogEntry) (applied : Nat) : Pending → Pending → Multiset Answer → Prop
  | refl (p : Pending) : Serves log applied p p 0
  | answer {p p' : Pending} {given : Multiset Answer} {key : Nat × Nat} {r : Responder} {success : Bool}
      {message : String} (h : Serves log applied p p' given) (hkey : p'.lookup key = some r)
      (hok : success = true → key.1 ≤ applied ∧ 0 < key.1 ∧
        log[key.1]?.map LogEntry.term = some key.2 ∧ message = appliedAt key.1) :
      Serves log applied p (p'.erase key) (given + {⟨r, success, none, message⟩})

namespace Serves
variable {log : List LogEntry} {applied : Nat}

theorem mono {p p' : Pending} {given : Multiset Answer} (h : Serves log applied p p' given)
    {applied' : Nat} (hle : applied ≤ applied') : Serves log applied' p p' given := by
  induction h with
  | refl => exact .refl _
  | answer _ hkey hok ih =>
    refine .answer ih hkey fun hs => ?_
    obtain ⟨h1, h2⟩ := hok hs
    exact ⟨h1.trans hle, h2⟩

theorem trans {p p' p'' : Pending} {given given' : Multiset Answer} (h : Serves log applied p p' given)
    (h' : Serves log applied p' p'' given') : Serves log applied p p'' (given + given') := by
  induction h' with
  | refl => rwa [add_zero]
  | answer _ hkey hok ih =>
    rw [← add_assoc]
    exact .answer ih hkey hok

theorem one {p : Pending} {key : Nat × Nat} {r : Responder} {success : Bool} {message : String}
    (hkey : p.lookup key = some r) (hok : success = true → key.1 ≤ applied ∧ 0 < key.1 ∧
      log[key.1]?.map LogEntry.term = some key.2 ∧ message = appliedAt key.1) :
    Serves log applied p (p.erase key) {⟨r, success, none, message⟩} := by
  have h := Serves.answer (.refl p) hkey hok
  rwa [zero_add] at h

theorem fail_all (p : Pending) (message : String) : Serves log applied p ∅
    (p.entries.map fun q => (⟨q.2, false, none, message⟩ : Answer) : List Answer) := by
  obtain ⟨entries, hnodup⟩ := p
  induction entries with
  | nil => exact .refl _
  | cons q entries ih =>
    obtain ⟨key, r⟩ := q
    have hfirst : Serves log applied ⟨⟨key, r⟩ :: entries, hnodup⟩
        (AList.erase key ⟨⟨key, r⟩ :: entries, hnodup⟩) {⟨r, false, none, message⟩} :=
      .one (List.dlookup_cons_eq ..) fun h => absurd h Bool.false_ne_true
    have herase : AList.erase key ⟨⟨key, r⟩ :: entries, hnodup⟩ =
        (⟨entries, (List.nodupKeys_cons.mp hnodup).2⟩ : Pending) :=
      AList.ext (List.kerase_cons_eq rfl)
    rw [herase] at hfirst
    exact hfirst.trans (ih (List.nodupKeys_cons.mp hnodup).2)

end Serves

variable {D : Type} [Storage D]

namespace RaftNode
variable [Bincode]

def answered (n : RaftNode D) : Multiset Answer := n.answers.all

structure Calm (n n' : RaftNode D) : Prop where
  pending : n'.pendingRequests = n.pendingRequests
  answered : n'.answered = n.answered
  applied : n'.lastApplied = n.lastApplied

structure Still (n n' : RaftNode D) : Prop extends Calm n n' where
  log : n'.log = n.log
  db : n'.db = n.db

def ServesTo (n n' : RaftNode D) : Prop :=
  n.lastApplied ≤ n'.lastApplied ∧ ∃ given, n'.answered = n.answered + given ∧
    Serves n'.log n'.lastApplied n.pendingRequests n'.pendingRequests given

/-- A relation between a node before and after the steps that handlers are made of. -/
structure Composes (input : Input) (R : RaftNode D → RaftNode D → Prop) : Prop where
  still : ∀ {n n'}, Still n n' → R n n'
  after_still : ∀ {n m n'}, Still n m → R m n' → R n n'
  then_still : ∀ {n m n'}, R n m → Still m n' → R n n'
  stepDown : ∀ {n n' t now}, R (n.stepDown t now) n' → R n n'
  push : ∀ {n n'} e, R (n.pushLogEntry e) n' → R n n'
  appendLoop : ∀ {n n' ae}, input = .message (.appendEntries ae) →
    R (n.appendLoop (ae.prevLogIndex + 1) ae.entries) n' → R n n'
  apply : ∀ {n n'}, n.applyCommittedEntries = some n' → R n n'

def Input.write : Input → Option (Responder × Command)
  | .request ⟨.set key value, r⟩ => some (r, .set key value)
  | .request ⟨.delete key, r⟩ => some (r, .delete key)
  | .message (.clientRequest requestId clientId command) => some (.raftClient clientId requestId, command)
  | _ => none

def Input.isRead : Input → Bool
  | .request ⟨.get _, _⟩ | .request ⟨.status, _⟩ | .message (.clientQuery ..) | .message (.statusQuery ..) =>
    true
  | _ => false

end RaftNode
open RaftNode

section Still
variable {n m n' : RaftNode D} {now : Instant}

theorem RaftNode.Still.of_eq (hp : n'.pendingRequests = n.pendingRequests) (ha : n'.answered = n.answered)
    (hi : n'.lastApplied = n.lastApplied) (hl : n'.log = n.log) (hd : n'.db = n.db) : Still n n' :=
  ⟨⟨hp, ha, hi⟩, hl, hd⟩

theorem RaftNode.Still.refl (n : RaftNode D) : Still n n := .of_eq rfl rfl rfl rfl rfl

theorem RaftNode.Still.trans (h : Still n m) (h' : Still m n') : Still n n' :=
  .of_eq (h'.pending.trans h.pending) (h'.answered.trans h.answered) (h'.applied.trans h.applied)
    (h'.log.trans h.log) (h'.db.trans h.db)

theorem still_enqueue (n : RaftNode D) (es : List Envelope) (h : ∀ e ∈ es, Answer.ofEnvelope e = none) :
    Still n { n with outbox := n.outbox ++ es } := by
  refine .of_eq rfl ?_ rfl rfl rfl
  change Answers.all ⟨n.outbox ++ es, n.replies⟩ = Answers.all ⟨n.outbox, n.replies⟩
  rw [Answers.all, Answers.all, List.filterMap_append, List.filterMap_eq_nil_iff.mpr h, List.append_nil]

theorem still_sendAppendEntries {p : NodeId} (hs : n.sendAppendEntries p = some n') : Still n n' := by
  obtain ⟨ae, -, rfl⟩ := sendAppendEntries_eq_some hs
  exact still_enqueue n _ fun e he => by rw [List.mem_singleton.mp he]; rfl

theorem still_sendHeartbeats (hs : n.sendHeartbeats = some n') : Still n n' := by
  refine Fold.foldlM_invariant (P := Still n) hs (.refl n) ?_
  rintro b p b' - hstill hb
  exact hstill.trans (still_sendAppendEntries hb)

theorem still_becomeLeader (hs : n.becomeLeader now = some n') : Still n n' := by
  obtain ⟨b, hb, hn'⟩ := Option.bind_eq_some_iff.mp hs
  obtain rfl := Option.some.inj hn'
  have hloop : Still n b := by
    refine Fold.foldlM_invariant (P := Still n) hb (.of_eq rfl rfl rfl rfl rfl) ?_
    rintro c p c' - hstill hc
    have hsend := still_sendAppendEntries hc
    exact hstill.trans (.of_eq hsend.pending hsend.answered hsend.applied hsend.log hsend.db)
  exact hloop.trans (.of_eq rfl rfl rfl rfl rfl)

theorem still_startElection (hs : n.startElection now = some n') : Still n n' := by
  simp only [RaftNode.startElection] at hs
  have hstand : Still n n.stand := .of_eq rfl rfl rfl rfl rfl
  split_ifs at hs
  · exact hstand.trans (still_becomeLeader hs)
  · obtain ⟨request, -, hn'⟩ := Option.bind_eq_some_iff.mp hs
    obtain rfl := Option.some.inj hn'
    have hreset : Still n (n.stand.resetElectionTimeout now) := .of_eq rfl rfl rfl rfl rfl
    refine hreset.trans (still_enqueue _ (n.peers.map fun peer => (peer, .requestVote request)) ?_)
    intro e he
    obtain ⟨p, -, rfl⟩ := List.mem_map.mp he
    rfl

theorem still_forward (n : RaftNode D) {m : Message} (hm : ∀ leader, Answer.ofEnvelope (leader, m) = none) :
    Still n (n.forward m) := by
  unfold RaftNode.forward
  split
  · exact still_enqueue n _ fun e he => by rw [List.mem_singleton.mp he]; exact hm _
  · exact .refl n

end Still

/-! Each handler is made of such steps. -/

namespace RaftNode.Composes
variable [Bincode] {input : Input} {R : RaftNode D → RaftNode D → Prop} (hR : Composes input R)
  {n m n' : RaftNode D} {now : Instant}
include hR

theorem refl (n : RaftNode D) : R n n := hR.still (.refl n)

theorem before (h : R m n') (hstill : Still n m) : R n n' := hR.after_still hstill h

theorem observeTerm (n : RaftNode D) (t : Nat) (now : Instant) (h : R (n.observeTerm t now) n') : R n n' := by
  rw [RaftNode.observeTerm] at h
  split_ifs at h
  · exact hR.stepDown h
  · exact h

theorem updateCommitIndex (hs : n.updateCommitIndex = some n') : R n n' :=
  hR.before (hR.apply hs) (.of_eq rfl rfl rfl rfl rfl)

theorem replicate (hs : n.replicate = some n') : R n n' := by
  rw [RaftNode.replicate] at hs
  split_ifs at hs
  · exact hR.updateCommitIndex hs
  · exact hR.still (still_sendHeartbeats hs)

theorem appendCommand [FloatText] {c : Command} {index : Nat} (hs : n.appendCommand c = some (n', index)) : R n n' := by
  simp only [RaftNode.appendCommand, Option.bind_eq_bind, Option.bind_eq_some_iff,
    Option.guard_eq_some', Option.pure_def, Option.some.injEq, Prod.mk.injEq] at hs
  obtain ⟨-, -, b, hb, rfl, -⟩ := hs
  exact hR.push _ (hR.replicate hb)

theorem appendMembershipChange {payload : EntryPayload}
    (hs : n.appendMembershipChange payload = some n') : R n n' := by
  rw [RaftNode.appendMembershipChange] at hs
  split_ifs at hs
  · exact Option.some.inj hs ▸ hR.refl n
  · exact hR.push _ (hR.replicate hs)

theorem handleRequestVote {request : RequestVote} {response : RequestVoteResponse}
    (hs : n.handleRequestVote request now = some (n', response)) : R n n' := by
  rw [RaftNode.handleRequestVote] at hs
  split_ifs at hs
  · obtain ⟨rfl, -⟩ := Prod.mk.inj (Option.some.inj hs)
    exact hR.refl n
  refine hR.observeTerm n request.term now ?_
  dsimp only at hs
  generalize n.observeTerm request.term now = b at hs ⊢
  split_ifs at hs
  · obtain ⟨rfl, -⟩ := Prod.mk.inj (Option.some.inj hs)
    exact hR.refl b
  obtain ⟨last, -, hs⟩ := Option.bind_eq_some_iff.mp hs
  split_ifs at hs
  · obtain ⟨rfl, -⟩ := Prod.mk.inj (Option.some.inj hs)
    exact hR.refl b
  · obtain ⟨rfl, -⟩ := Prod.mk.inj (Option.some.inj hs)
    exact hR.still (.of_eq rfl rfl rfl rfl rfl)

theorem handleVoteResponse {response : RequestVoteResponse}
    (hs : n.handleVoteResponse response now = some n') : R n n' := by
  simp only [RaftNode.handleVoteResponse] at hs
  split_ifs at hs
  · obtain rfl := Option.some.inj hs
    exact hR.stepDown (hR.refl _)
  · exact Option.some.inj hs ▸ hR.refl n
  · exact Option.some.inj hs ▸ hR.refl n
  · have hlead := still_becomeLeader hs
    exact hR.still (.of_eq hlead.pending hlead.answered hlead.applied hlead.log hlead.db)
  · exact Option.some.inj hs ▸ hR.still (.of_eq rfl rfl rfl rfl rfl)
  · exact hR.still (still_becomeLeader hs)
  · exact Option.some.inj hs ▸ hR.refl n

theorem handleAppendEntries {ae : AppendEntries} (hi : input = .message (.appendEntries ae))
    {response : AppendEntriesResponse} (hs : n.handleAppendEntries ae now = some (n', response)) :
    R n n' := by
  simp only [RaftNode.handleAppendEntries] at hs
  split_ifs at hs
  · obtain ⟨rfl, -⟩ := Prod.mk.inj (Option.some.inj hs)
    exact hR.refl n
  refine hR.observeTerm n ae.term now ?_
  have hfollow : Still (n.observeTerm ae.term now)
      ((n.observeTerm ae.term now).followLeader ae.leaderId now) := .of_eq rfl rfl rfl rfl rfl
  refine hR.after_still hfollow ?_
  generalize (n.observeTerm ae.term now).followLeader ae.leaderId now = b at hs ⊢
  split at hs
  · obtain ⟨rfl, -⟩ := Prod.mk.inj (Option.some.inj hs)
    exact hR.refl b
  · split_ifs at hs
    · obtain ⟨rfl, -⟩ := Prod.mk.inj (Option.some.inj hs)
      exact hR.refl b
    · obtain ⟨c, hc, hres⟩ := Option.map_eq_some_iff.mp hs
      obtain ⟨rfl, -⟩ := Prod.mk.inj hres
      exact hR.appendLoop hi (hR.before (hR.apply hc) (.of_eq rfl rfl rfl rfl rfl))

theorem handleAppendEntriesResponse {response : AppendEntriesResponse}
    (hs : n.handleAppendEntriesResponse response now = some n') : R n n' := by
  simp only [RaftNode.handleAppendEntriesResponse] at hs
  split_ifs at hs
  · obtain rfl := Option.some.inj hs
    exact hR.stepDown (hR.refl _)
  · exact Option.some.inj hs ▸ hR.refl n
  · exact Option.some.inj hs ▸ hR.refl n
  · exact hR.before (hR.updateCommitIndex hs) (.of_eq rfl rfl rfl rfl rfl)
  · obtain ⟨next, -, hs⟩ := Option.bind_eq_some_iff.mp hs
    refine hR.after_still ?_ (hR.still (still_sendAppendEntries hs))
    split_ifs
    · exact .of_eq rfl rfl rfl rfl rfl
    · exact .refl n

theorem process [FloatText] (hw : input.write = none) (hr : input.isRead = false)
    (hs : n.process input now = some n') : R n n' := by
  have hstill : Still n { n with crashPoints := [] } := .of_eq rfl rfl rfl rfl rfl
  refine hR.after_still hstill ?_
  unfold RaftNode.process at hs
  dsimp only at hs
  generalize ({ n with crashPoints := [] } : RaftNode D) = b at hs ⊢
  cases input with
  | tick =>
    simp only [RaftNode.tick] at hs
    split at hs
    · split_ifs at hs
      · obtain ⟨c, hc, rfl⟩ := Option.map_eq_some_iff.mp hs
        exact hR.still ((still_sendHeartbeats hc).trans (.of_eq rfl rfl rfl rfl rfl))
      · exact Option.some.inj hs ▸ hR.refl b
    · split_ifs at hs
      · exact hR.still (still_startElection hs)
      · exact Option.some.inj hs ▸ hR.refl b
  | request r =>
    obtain ⟨operation, r⟩ := r
    cases operation with
    | set => cases hw
    | delete => cases hw
    | get => cases hr
    | status => cases hr
  | message m =>
    cases m with
    | requestVote request =>
      obtain ⟨⟨c, response⟩, hc, rfl⟩ := Option.map_eq_some_iff.mp hs
      refine hR.then_still (hR.handleRequestVote hc) (still_enqueue c _ fun e he => ?_)
      rw [List.mem_singleton.mp he]
      rfl
    | requestVoteResponse response => exact hR.handleVoteResponse hs
    | appendEntries entries =>
      obtain ⟨⟨c, response⟩, hc, rfl⟩ := Option.map_eq_some_iff.mp hs
      refine hR.then_still (hR.handleAppendEntries rfl hc) (still_enqueue c _ fun e he => ?_)
      rw [List.mem_singleton.mp he]
      rfl
    | appendEntriesResponse response => exact hR.handleAppendEntriesResponse hs
    | clientCommand cmd =>
      simp only [RaftNode.handleMessage] at hs
      split_ifs at hs
      · obtain ⟨⟨c, index⟩, hc, rfl⟩ := Option.map_eq_some_iff.mp hs
        exact hR.appendCommand hc
      · exact Option.some.inj hs ▸ hR.still (still_forward b fun _ => rfl)
    | clientRequest => cases hw
    | clientQuery => cases hr
    | statusQuery => cases hr
    | clientResponse => exact Option.some.inj hs ▸ hR.refl b
    | addNode id addr =>
      simp only [RaftNode.handleMessage] at hs
      split_ifs at hs
      · exact Option.some.inj hs ▸ hR.still (still_forward b fun _ => rfl)
      · exact hR.appendMembershipChange hs
    | removeNode id =>
      simp only [RaftNode.handleMessage] at hs
      split_ifs at hs
      · exact Option.some.inj hs ▸ hR.still (still_forward b fun _ => rfl)
      · exact hR.appendMembershipChange hs
    | timeout => exact hR.still (still_startElection hs)

end RaftNode.Composes

section Serve
variable {n m n' : RaftNode D} {now : Instant}

theorem RaftNode.Calm.servesTo (h : Calm n n') : ServesTo n n' :=
  ⟨h.applied.ge, 0, by rw [h.answered, add_zero], h.pending ▸ .refl _⟩

theorem RaftNode.ServesTo.after_calm (h : Calm n m) (h' : ServesTo m n') : ServesTo n n' := by
  obtain ⟨hle, given, hgiven, hserves⟩ := h'
  exact ⟨h.applied ▸ hle, given, h.answered ▸ hgiven, h.pending ▸ hserves⟩

theorem RaftNode.ServesTo.then_still (h : ServesTo n m) (h' : Still m n') : ServesTo n n' := by
  obtain ⟨hle, given, hgiven, hserves⟩ := h
  exact ⟨h'.applied ▸ hle, given, h'.answered.trans hgiven, by
    rw [h'.log, h'.applied, h'.pending]
    exact hserves⟩

theorem RaftNode.Calm.refl (n : RaftNode D) : Calm n n := ⟨rfl, rfl, rfl⟩

theorem RaftNode.Calm.trans (h : Calm n m) (h' : Calm m n') : Calm n n' :=
  ⟨h'.pending.trans h.pending, h'.answered.trans h.answered, h'.applied.trans h.applied⟩

theorem calm_pushLogEntry [Bincode] (n : RaftNode D) (e : LogEntry) : Calm n (n.pushLogEntry e) := ⟨rfl, rfl, rfl⟩

theorem calm_truncateLog (n : RaftNode D) (i : Nat) : Calm n (n.truncateLog i) := ⟨rfl, rfl, rfl⟩

theorem calm_appendLoop [Bincode] (n : RaftNode D) (i : Nat) (es : List LogEntry) : Calm n (n.appendLoop i es) := by
  induction es generalizing n i with
  | nil => exact .refl n
  | cons e es ih =>
    rw [RaftNode.appendLoop]
    split
    · split_ifs
      · exact ((calm_truncateLog n i).trans (calm_pushLogEntry _ e)).trans (ih _ (i + 1))
      · exact ih n (i + 1)
    · exact (calm_pushLogEntry n e).trans (ih _ (i + 1))

theorem Answers.all_foldl_send (ps : List (Sigma fun _ : Nat × Nat => Responder)) (message : String)
    (leader : Option NodeId) (term : Nat) (self : NodeId) (role : Role) (peers : List NodeId) (out : Answers) :
    (ps.foldl (fun out p => p.2.send false none message leader term self role peers out) out).all =
      out.all + (ps.map fun q => (⟨q.2, false, none, message⟩ : Answer) : List Answer) := by
  induction ps generalizing out with
  | nil => exact (add_zero _).symm
  | cons p ps ih =>
    rw [List.foldl_cons, ih, Responder.send_all, List.map_cons, ← Multiset.cons_coe,
      ← Multiset.singleton_add, add_assoc]

theorem stepDown_answered (n : RaftNode D) (t : Nat) (now : Instant) :
    ∃ message, (n.stepDown t now).answered = n.answered +
      (n.pendingRequests.entries.map fun q => (⟨q.2, false, none, message⟩ : Answer) : List Answer) :=
  ⟨"Leadership changed before confirmation; write outcome may be uncertain",
    Answers.all_foldl_send n.pendingRequests.entries _ none t n.id .follower n.peers n.answers⟩

theorem stepDown_servesTo (n : RaftNode D) (t : Nat) (h : ServesTo (n.stepDown t now) n') :
    ServesTo n n' := by
  obtain ⟨hle, given, hgiven, hserves⟩ := h
  obtain ⟨message, hfail⟩ := stepDown_answered n t now
  refine ⟨hle, _, ?_, (Serves.fail_all n.pendingRequests message).trans hserves⟩
  rw [hgiven, hfail, add_assoc]

theorem calm_applyPayload (n : RaftNode D) (p : EntryPayload) :
    Calm n (n.applyPayload p).2 ∧ (n.applyPayload p).2.log = n.log := by
  cases p with
  | command r => exact ⟨⟨rfl, rfl, rfl⟩, rfl⟩
  | addNode id addr => exact ⟨⟨rfl, rfl, rfl⟩, rfl⟩
  | removeNode id => exact ⟨⟨rfl, rfl, rfl⟩, rfl⟩

theorem resolvePending_servesTo (n : RaftNode D) {e : LogEntry} (hpos : 0 < n.lastApplied)
    (he : n.log[n.lastApplied]? = some e) (result : Except Fault Unit) :
    ServesTo n (n.resolvePending n.lastApplied e.term result) ∧
      (n.resolvePending n.lastApplied e.term result).log = n.log ∧
      (n.resolvePending n.lastApplied e.term result).lastApplied = n.lastApplied := by
  have hterm : n.log[n.lastApplied]?.map LogEntry.term = some e.term := by rw [he]; rfl
  unfold RaftNode.resolvePending
  cases hkey : n.pendingRequests.lookup (n.lastApplied, e.term) with
  | none => exact ⟨(Calm.refl n).servesTo, rfl, rfl⟩
  | some r =>
    cases result with
    | ok =>
      exact ⟨⟨le_rfl, _, Responder.send_all .., .one hkey fun _ => ⟨le_rfl, hpos, hterm, rfl⟩⟩, rfl, rfl⟩
    | error err =>
      exact ⟨⟨le_rfl, _, Responder.send_all .., .one hkey fun h => absurd h Bool.false_ne_true⟩, rfl, rfl⟩

theorem applyNext_servesTo (hs : n.applyNext = some n') : ServesTo n n' ∧ n'.log = n.log ∧
    n'.lastApplied = n.lastApplied + 1 := by
  obtain ⟨e, he, rfl⟩ := applyNext_eq_some hs
  obtain ⟨hcalm, hlog⟩ := calm_applyPayload n e.payload
  generalize n.applyPayload e.payload = p at hcalm hlog ⊢
  obtain ⟨result, b⟩ := p
  dsimp only at hcalm hlog ⊢
  obtain ⟨⟨hle, given, hgiven, hserves⟩, hlog', happlied⟩ := resolvePending_servesTo
    ({ b with lastApplied := n.lastApplied + 1 }) (Nat.succ_pos _) (hlog ▸ he) result
  refine ⟨⟨(Nat.le_succ _).trans happlied.ge, given, hgiven.trans (congrArg (· + given) hcalm.answered), ?_⟩,
    hlog'.trans hlog, happlied⟩
  rw [← hcalm.pending]
  exact hserves

theorem applyCommittedEntries_servesTo (hs : n.applyCommittedEntries = some n') :
    ServesTo n n' ∧ n'.log = n.log := by
  refine (applyCommittedEntries_induct (I := fun b => ServesTo n b ∧ b.log = n.log) hs
    ⟨(Calm.refl n).servesTo, rfl⟩ ?_).1
  rintro b b' ⟨⟨hle, given, hgiven, hserves⟩, hlog⟩ - - hb
  obtain ⟨⟨hle', given', hgiven', hserves'⟩, hlog', -⟩ := applyNext_servesTo hb
  refine ⟨⟨hle.trans hle', given + given', by rw [hgiven', hgiven, add_assoc], ?_⟩, hlog'.trans hlog⟩
  rw [hlog'] at hserves' ⊢
  exact (hserves.mono hle').trans hserves'

theorem servesTo_composes [Bincode] (input : Input) : Composes (D := D) input ServesTo where
  still h := h.toCalm.servesTo
  after_still h h' := h'.after_calm h.toCalm
  then_still h h' := h.then_still h'
  stepDown h := stepDown_servesTo _ _ h
  push e h := h.after_calm (calm_pushLogEntry _ e)
  appendLoop _ h := h.after_calm (calm_appendLoop ..)
  apply h := (applyCommittedEntries_servesTo h).1

end Serve

section Process
variable [Bincode] {n n' : RaftNode D} {input : Input} {now : Instant}

theorem process_servesTo [FloatText] (hw : input.write = none) (hr : input.isRead = false)
    (hs : n.process input now = some n') : ServesTo n n' := (servesTo_composes input).process hw hr hs

theorem newInDir_pending [FloatText] {dir : Dir D} {id : NodeId} {peers : List NodeId} {config : Config}
    (hn : RaftNode.newInDir dir id peers config now = some n) : n.pendingRequests = ∅ := by
  simp only [RaftNode.newInDir] at hn
  split at hn
  · cases hn
  · obtain rfl := Option.some.inj hn
    rfl

theorem process_read [FloatText] (hr : input.isRead = true) (hs : n.process input now = some n') :
    input.write = none ∧ n'.pendingRequests = n.pendingRequests ∧ n'.lastApplied = n.lastApplied ∧
      n'.log = n.log ∧ n'.db = n.db := by
  cases input with
  | tick => cases hr
  | request request =>
    obtain ⟨operation, r⟩ := request
    cases operation with
    | set => cases hr
    | delete => cases hr
    | get =>
      obtain rfl := Option.some.inj hs
      exact ⟨rfl, rfl, rfl, rfl, rfl⟩
    | status =>
      obtain rfl := Option.some.inj hs
      exact ⟨rfl, rfl, rfl, rfl, rfl⟩
  | message m =>
    cases m with
    | clientQuery =>
      obtain rfl := Option.some.inj hs
      exact ⟨rfl, rfl, rfl, rfl, rfl⟩
    | statusQuery =>
      obtain rfl := Option.some.inj hs
      exact ⟨rfl, rfl, rfl, rfl, rfl⟩
    | _ => cases hr

theorem process_write [FloatText] {r : Responder} {c : Command} (hw : input.write = some (r, c))
    (hs : n.process input now = some n') :
    ({ n with crashPoints := [] } : RaftNode D).submitStoreWrite c r = some n' := by
  cases input with
  | tick => cases hw
  | request request =>
    obtain ⟨operation, r'⟩ := request
    cases operation with
    | set => cases hw; exact hs
    | delete => cases hw; exact hs
    | get => cases hw
    | status => cases hw
  | message m =>
    cases m with
    | clientRequest requestId clientId command =>
      cases hw
      cases c with
      | set => exact hs
      | delete => exact hs
    | _ => cases hw

theorem submitStoreWrite_serves [FloatText] {c : Command} {r : Responder} (hs : n.submitStoreWrite c r = some n') :
    (n.role ≠ .leader ∧ n'.pendingRequests = n.pendingRequests ∧ n'.lastApplied = n.lastApplied ∧
      ∃ message, n'.answered = n.answered + {⟨r, false, none, message⟩}) ∨
    ∃ p given, n.role = .leader ∧ n.lastApplied ≤ n'.lastApplied ∧
      Serves n'.log n'.lastApplied n.pendingRequests p given ∧
      n'.log = n.log ++ [⟨n.currentTerm, .command (LogRecord.new 0 c)⟩] ∧
      ((n.log.length ≤ n'.lastApplied ∧ n'.pendingRequests = p ∧
          n'.answered = n.answered + given + {⟨r, true, none, appliedAt n.log.length⟩}) ∨
        (n'.pendingRequests = p.insert (n.log.length, n.currentTerm) r ∧
          n'.answered = n.answered + given)) := by
  simp only [RaftNode.submitStoreWrite] at hs
  split_ifs at hs with hr
  · obtain rfl := Option.some.inj hs
    exact Or.inl ⟨hr, rfl, rfl, _, Responder.send_all ..⟩
  · obtain ⟨⟨b, index⟩, hb, hs⟩ := Option.bind_eq_some_iff.mp hs
    obtain ⟨entry, hentry, hs⟩ := Option.bind_eq_some_iff.mp hs
    obtain ⟨hle, given, hgiven, hserves⟩ := (servesTo_composes .tick).appendCommand hb
    obtain ⟨rfl, hlog⟩ := appendCommand_log hb
    have hterm : entry.term = n.currentTerm := by
      rw [hlog, List.getElem?_concat_length] at hentry
      exact congrArg LogEntry.term (Option.some.inj hentry).symm
    refine Or.inr ⟨b.pendingRequests, given, not_not.mp hr, ?_⟩
    split_ifs at hs with hi
    · obtain rfl := Option.some.inj hs
      exact ⟨hle, hserves, hlog, Or.inl ⟨hi, rfl, (Responder.send_all ..).trans (by rw [← hgiven]; rfl)⟩⟩
    · obtain rfl := Option.some.inj hs
      exact ⟨hle, hserves, hlog, Or.inr ⟨by rw [hterm], hgiven⟩⟩

end Process
end KvRaft
