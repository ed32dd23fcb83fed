import KvRaft.Raft.AppendLoop

/-! Every part of a handler moves the abstract replicated log by events of its own node, and the
node and its queued messages stay related to it. -/

namespace KvRaft
open ReplicatedLog

variable {M : Membership} {D : Type} [Storage D] {config : Config}
  {id : NodeId} {a : State NodeId LogEntry} {n n' : RaftNode D}

def Reaches [FloatText] (M : Membership) (config : Config) (a : State NodeId LogEntry) (id : NodeId)
    (n' : RaftNode D) : Prop := ∃ a', Evolves M id a a' ∧ NodeOk M config a' id n'

theorem NodeOk.reaches [FloatText] (h : NodeOk M config a id n) : Reaches M config a id n := ⟨a, .refl, h⟩

theorem Reaches.bind [FloatText] (h : Reaches M config a id n)
    (hf : ∀ a', NodeOk M config a' id n → Reaches M config a' id n') :
    Reaches M config a id n' := by
  obtain ⟨a', he, hok⟩ := h
  obtain ⟨a'', he', hok'⟩ := hf a' hok
  exact ⟨a'', he.trans he', hok'⟩

theorem NodeOk.silent [FloatText] (h : NodeOk M config a id n) (hcore : n'.core = n.core)
    (hout : ∀ e ∈ n'.outbox, e ∈ n.outbox ∨ MsgOk M a e) : NodeOk M config a id n' :=
  ⟨h.inv, h.commands, h.mem, hcore ▸ h.sim, fun e he => (hout e he).elim (h.outbox e) fun hm => hm⟩

theorem NodeOk.enqueue [FloatText] (h : NodeOk M config a id n) (es : List Envelope) (hcore : n'.core = n.core)
    (hout : n'.outbox = n.outbox ++ es) (hes : ∀ e ∈ es, MsgOk M a e) : NodeOk M config a id n' :=
  h.silent hcore fun e he => (List.mem_append.mp (hout ▸ he)).imp_right (hes e)

theorem NodeOk.evolve [FloatText] {a' : State NodeId LogEntry} (h : NodeOk M config a id n)
    (he : Evolves M id a a') (hcmd : CommandsOnly a') (hsim : NodeSim M config a' id n'.core)
    (hout : n'.outbox = n.outbox) : Reaches M config a id n' :=
  ⟨a', he, (he.run.inv h.inv).1, hcmd, h.mem, hsim,
    fun e hm => (h.outbox e (hout ▸ hm)).mono he.hist⟩

section Fields
variable [FloatText]

theorem NodeOk.id_eq (h : NodeOk M config a id n) : n.id = id := h.sim.id_eq

theorem NodeOk.peers_eq (h : NodeOk M config a id n) : n.peers = M.peersOf id := h.sim.peers_eq

theorem NodeOk.term_eq (h : NodeOk M config a id n) : a.term id = n.currentTerm := h.sim.term_eq

theorem NodeOk.log_eq (h : NodeOk M config a id n) : a.log id = n.log := h.sim.log_eq

theorem NodeOk.db_eq (h : NodeOk M config a id n) :
    n.db = Storage.runAll (Storage.fresh config) (commandsUpTo n.log n.lastApplied) := h.sim.db_eq

theorem NodeOk.logOk (h : NodeOk M config a id n) : LogOk M.setting a n.log :=
  h.log_eq ▸ (h.inv.log_ok id).1

theorem NodeOk.commit_lt (h : NodeOk M config a id n) : n.commitIndex < n.log.length :=
  h.sim.commit.lt_length h.logOk.length_pos

theorem NodeOk.applied_lt (h : NodeOk M config a id n) : n.lastApplied < n.log.length :=
  h.sim.applied.lt_length h.logOk.length_pos

end Fields

theorem CommandsOnly.of_logOk [FloatText] {ℓ : List LogEntry} (h : CommandsOnly a) (hok : LogOk M.setting a ℓ) :
    ∀ e ∈ ℓ, ∃ r, e.payload = .command r := by
  intro e he
  obtain ⟨i, hi, rfl⟩ := List.getElem_of_mem he
  rcases Nat.eq_zero_or_pos i with rfl | hpos
  · have hhead := hok.head
    rw [List.head?_eq_getElem?, List.getElem?_eq_getElem hi] at hhead
    exact ⟨_, congrArg LogEntry.payload (Option.some.inj hhead)⟩
  · obtain ⟨c, L, hl, hp⟩ := hok.origin i _ (List.getElem?_eq_getElem hi) hpos
    refine h _ c L hl _ (hp.subset ?_)
    exact List.mem_take_iff_getElem.mpr ⟨i, by omega, rfl⟩

section Answers

def Envelope.isResponse (e : Envelope) : Prop := ∃ r, e.2 = .clientResponse r

theorem Envelope.isResponse.msgOk [FloatText] {e : Envelope} (h : e.isResponse) : MsgOk M a e := by
  obtain ⟨dest, m⟩ := e
  obtain ⟨r, rfl⟩ : ∃ r, m = .clientResponse r := h
  trivial

theorem Responder.send_responses (r : Responder) (success : Bool) (value : Option Value)
    (message : String) (leader : Option NodeId) (term : Nat) (self : NodeId) (role : Role)
    (peers : List NodeId) (out : Answers) :
    ∀ e ∈ (r.send success value message leader term self role peers out).outbox,
      e ∈ out.outbox ∨ ∃ response, e.2 = .clientResponse response ∧ response.term = term := by
  cases r with
  | oneshot tx => exact fun e he => Or.inl he
  | raftClient clientId requestId =>
    intro e he
    rcases List.mem_append.mp he with he | he
    · exact Or.inl he
    · exact Or.inr ⟨_, congrArg Prod.snd (List.mem_singleton.mp he), rfl⟩

theorem Responder.send_outbox (r : Responder) (success : Bool) (value : Option Value)
    (message : String) (leader : Option NodeId) (term : Nat) (self : NodeId) (role : Role)
    (peers : List NodeId) (out : Answers) :
    ∀ e ∈ (r.send success value message leader term self role peers out).outbox,
      e ∈ out.outbox ∨ e.isResponse := fun e he =>
  (r.send_responses _ _ _ _ _ _ _ _ _ e he).imp id fun ⟨response, h, _⟩ => ⟨response, h⟩

theorem NodeOk.respond [FloatText] (h : NodeOk M config a id n) (r : Responder) (success : Bool)
    (value : Option Value) (message : String) (leader : Option NodeId) (term : Nat) :
    NodeOk M config a id (n.respond r success value message leader term) :=
  h.silent rfl fun e he => (Responder.send_outbox r _ _ _ _ _ _ _ _ _ e he).imp_right (·.msgOk)

theorem stepDown_responses (n : RaftNode D) (t : Nat) (now : Instant) :
    ∀ e ∈ (n.stepDown t now).outbox, e ∈ n.outbox ∨
      ∃ response, e.2 = .clientResponse response ∧ response.term = t := by
  have hfold : ∀ (ps : List (Sigma fun _ : Nat × Nat => Responder)) (f : _ → Answers → Answers)
      (P : Envelope → Prop) (_ : ∀ p out, ∀ e ∈ (f p out).outbox, e ∈ out.outbox ∨ P e) (out : Answers),
      ∀ e ∈ (ps.foldl (fun out p => f p out) out).outbox, e ∈ out.outbox ∨ P e := by
    intro ps f P hf
    induction ps with
    | nil => exact fun out e he => Or.inl he
    | cons p ps ih =>
      intro out e he
      rcases ih (f p out) e he with he | he
      · exact hf p out e he
      · exact Or.inr he
  exact hfold n.pendingRequests.entries _ _ (fun p => Responder.send_responses p.2 _ _ _ _ _ _ _ _) _

theorem stepDown_outbox (n : RaftNode D) (t : Nat) (now : Instant) :
    ∀ e ∈ (n.stepDown t now).outbox, e ∈ n.outbox ∨ e.isResponse := fun e he =>
  (stepDown_responses n t now e he).imp id fun ⟨response, h, _⟩ => ⟨response, h⟩

end Answers

section Terms

theorem stepDown_core (n : RaftNode D) (t : Nat) (now : Instant) : (n.stepDown t now).core =
    { n.core with currentTerm := t, role := .follower, votedFor := none } := rfl

variable [FloatText]

theorem NodeOk.vote_none (h : NodeOk M config a id n) {t : Nat} (ht : n.currentTerm < t) :
    a.vote id t = none := by
  rcases hv : a.vote id t with _ | ⟨c, ℓ⟩
  · rfl
  · have hle := (h.inv.vote_ok id t c ℓ hv).2.1
    rw [h.sim.term_eq] at hle
    exact absurd ht hle.not_gt

theorem NodeOk.stepDown (h : NodeOk M config a id n) {t : Nat} (ht : n.currentTerm < t)
    (now : Instant) : Reaches M config a id (n.stepDown t now) := by
  have hlt : a.term id < t := by
    rw [h.sim.term_eq]
    exact ht
  have hx := Evolves.advance h.inv hlt
  refine ⟨a.advance id t, hx, (hx.run.inv h.inv).1, h.commands, h.mem, ?_, fun e he => ?_⟩
  · rw [stepDown_core]
    exact {
      id_eq := h.sim.id_eq
      peers_eq := h.sim.peers_eq
      term_eq := State.advance_term
      log_eq := h.sim.log_eq
      vote_eq := (congrArg (Option.map Prod.fst) (h.vote_none ht)).symm
      candidate := fun hr => nomatch hr
      leader := fun hr => nomatch hr
      tracked := h.sim.tracked
      commit := h.sim.commit.mono hx.hist ht.le List.prefix_rfl
      applied := h.sim.applied.mono hx.hist ht.le List.prefix_rfl
      db_eq := h.sim.db_eq }
  · rcases stepDown_outbox n t now e he with he | he
    · exact (h.outbox e he).mono hx.hist
    · exact he.msgOk

theorem NodeOk.observeTerm (h : NodeOk M config a id n) (t : Nat) (now : Instant) :
    Reaches M config a id (n.observeTerm t now) := by
  rw [RaftNode.observeTerm]
  split_ifs with ht
  · exact h.stepDown ht now
  · exact h.reaches

omit [FloatText] in
theorem observeTerm_currentTerm {t : Nat} (ht : n.currentTerm ≤ t) (now : Instant) :
    (n.observeTerm t now).currentTerm = t := by
  rw [RaftNode.observeTerm]
  split_ifs with hlt
  · rfl
  · omega

omit [FloatText] in
theorem observeTerm_frame (n : RaftNode D) (t : Nat) (now : Instant) :
    (n.observeTerm t now).id = n.id ∧ (n.observeTerm t now).log = n.log ∧
      (n.observeTerm t now).commitIndex = n.commitIndex ∧
      (n.observeTerm t now).lastApplied = n.lastApplied := by
  unfold RaftNode.observeTerm
  split_ifs
  · exact ⟨rfl, rfl, rfl, rfl⟩
  · exact ⟨rfl, rfl, rfl, rfl⟩

end Terms
end KvRaft
