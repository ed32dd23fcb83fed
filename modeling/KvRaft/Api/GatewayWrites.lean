import KvRaft.Api.RoutingLoop
import KvRaft.Api.Submissions
import KvRaft.Raft.WriteOrder

/-! A write from the HTTP request to the replicas: what a success of `executeRust` says about the cluster. -/

namespace KvRaft
open ReplicatedLog RaftNode

/-- What can happen without crashes and without membership changes. -/
def ExchangeEvent.inMemory : ExchangeEvent → Bool
  | .other a => a.inMemory
  | .handle _ inside _ => inside.isNone
  | _ => true

def Stage.Unsuccessful : Stage → Prop
  | .looping r | .calling _ r => ∀ resp ∈ r.lastResp, resp.success = false
  | .returned _ => True

def Stage.reply? : Stage → Option Reply
  | .returned reply => some reply
  | _ => none

theorem Stage.reply?_eq_some {stage : Stage} {reply : Reply} (h : stage.reply? = some reply) :
    stage = .returned reply := by
  cases stage with
  | returned reply' => rw [Option.some.inj h]
  | _ => cases h

section Loop
variable {r r' : Routing} {target : String} {reply : Reply}

theorem Routing.turn_unsuccessful (h : ∀ resp ∈ r.lastResp, resp.success = false) (ctxErr : Option String) :
    (r.turn ctxErr).Unsuccessful ∧ ∀ reply, r.turn ctxErr = .returned reply → ¬ reply.Succeeds := by
  have hresult : ∀ (err : Option String), ¬ ({ r with lastErr := err }.result ctxErr).Succeeds := by
    intro err
    unfold Routing.result
    cases hresp : r.lastResp with
    | none => exact id
    | some resp =>
      rw [hresp] at h
      exact fun hok => Bool.false_ne_true ((h resp rfl).symm.trans hok)
  unfold Routing.turn
  split
  · refine ⟨trivial, fun reply hreply => ?_⟩
    cases hreply
    exact hresult r.lastErr
  · split
    · refine ⟨trivial, fun reply hreply => ?_⟩
      cases hreply
      exact hresult _
    · split_ifs
      · exact ⟨h, fun _ h => by cases h⟩
      · exact ⟨h, fun _ h => by cases h⟩

theorem Routing.settle_unsuccessful (h : ∀ resp ∈ r.lastResp, resp.success = false) (result : CallResult) :
    (r.settle result).Unsuccessful ∧
      ∀ reply, r.settle result = .returned reply → ∃ resp, result = .ok resp ∧ resp.success = true := by
  cases result with
  | error err => exact ⟨h, fun _ h => by cases h⟩
  | ok resp =>
    simp only [Routing.settle]
    split_ifs with hok
    · exact ⟨trivial, fun _ _ => ⟨resp, rfl, hok⟩⟩
    · refine ⟨fun resp' hresp' => ?_, fun _ h => by cases h⟩
      rw [follow_lastResp] at hresp'
      obtain rfl := Option.some.inj hresp'
      simpa using hok

end Loop

namespace Exchange
variable {D : Type} [Storage D] [FloatText]

/-- The node at the address of the last call. -/
def called (listens : String → Option NodeId) (s : Exchange D) : Option NodeId :=
  (s.calls.getLast?.map RustCall.target).bind listens

/-- A command is applied on node `id`, and it was proposed after `a₀`. -/
def Applied (M : Membership) (a₀ a : State NodeId LogEntry) (cmd : Command) (c : Cluster D) (id : NodeId) : Prop :=
  ∃ n i t, c.nodes id = some n ∧ 0 < i ∧ i ≤ n.lastApplied ∧ CommittedAt M a i (.ofCommand t cmd) ∧
    ¬ Passed a₀ (i, t)

/-- What a write that is passed on since `a₀` has come to. -/
structure Underway (M : Membership) (config : Config) (listens : String → Option NodeId) (write : KvWrite)
    (base : Nat) (a₀ a : State NodeId LogEntry) (s : Exchange D) : Prop where
  cluster : ClusterOk M config s.cluster a
  grown : Extends a₀ a
  serving : ∀ ch, base ≤ ch → ∀ id n, s.cluster.nodes id = some n →
    Serving M a id (.oneshot ch) write.command (fun key => ¬ Passed a₀ key) n
  unsuccessful : s.stage.Unsuccessful
  success : ∀ reply, s.stage = .returned reply → reply.Succeeds →
    ∃ id, s.called listens = some id ∧ Applied M a₀ a write.command s.cluster id

omit [FloatText] in
theorem asker_channel {input : Input} {ch : Nat} (h : input.asker = some (.oneshot ch)) :
    input.channel? = some ch := by
  cases input with
  | tick => cases h
  | request request =>
    obtain ⟨operation, r⟩ := request
    cases h
    rfl
  | message m => cases m <;> cases h

section Step
variable {M : Membership} {config : Config} {listens : String → Option NodeId} {write : KvWrite} {base : Nat}
  {a₀ a a' : State NodeId LogEntry} {s s' : Exchange D} {c : Cluster D}

omit [FloatText] in
theorem called_modify {s t : Exchange D} {k : Nat} (f : RustCall → RustCall)
    (hf : ∀ call, (f call).target = call.target) (hcalls : t.calls = s.calls.modify k f) :
    t.called listens = s.called listens := by
  have hlast : t.calls.getLast?.map RustCall.target = s.calls.getLast?.map RustCall.target := by
    rw [List.getLast?_eq_getElem?, List.getLast?_eq_getElem?, hcalls, List.length_modify, List.getElem?_modify]
    cases s.calls[s.calls.length - 1]? with
    | none => rfl
    | some call =>
      simp only [Option.map_eq_map, Option.map_some]
      split_ifs
      · rw [hf]
      · rfl
  rw [called, hlast, called]

omit [FloatText] in
theorem called_close (s : Exchange D) (k : Nat) (es : List LogEntry) :
    (s.close k es).called listens = s.called listens :=
  called_modify (fun call => { call with appended := some es }) (fun _ => rfl) rfl

theorem Applied.mono [Bincode] {cmd : Command} {x : Action} {b : Cluster D} {id : NodeId} (h : Applied M a₀ a cmd b id)
    (hx : Extends a a') (hmem : x.inMemory = true) (hs : Cluster.step config b x = some c) :
    Applied M a₀ a' cmd c id := by
  obtain ⟨n, i, t, hn, hi, hle, hcom, hnew⟩ := h
  obtain ⟨n', hn'⟩ := Option.isSome_iff_exists.mp (Cluster.step_isSome hmem hs (Option.isSome_of_eq_some hn))
  obtain ⟨m, hm, hcase⟩ := Cluster.step_clients hmem hs hn'
  obtain rfl := Option.some.inj (hn.symm.trans hm)
  refine ⟨n', i, t, hn', hi, hle.trans ?_, hcom.mono hx, hnew⟩
  rcases hcase with ⟨input, now, -, hs⟩ | hf
  · exact (process_attends hs).1
  · exact hf.applied.ge

theorem Underway.move [Bincode] (h : Underway M config listens write base a₀ a s) {x : Action}
    (hmem : x.inMemory = true) (hs : Cluster.step config s.cluster x = some c) (hask : ∀ ch id input now, base ≤ ch →
      x = .process id input now → input.asker = some (.oneshot ch) →
      input.write = some (.oneshot ch, write.command)) :
    ∃ a', Underway M config listens write base a₀ a' { s with cluster := c } := by
  obtain ⟨a', hext, hok⟩ := h.cluster.step hmem hs
  refine ⟨a', hok, h.grown.trans hext, fun ch hch id n' hn' => ?_, h.unsuccessful, fun reply hreply hsucc => ?_⟩
  · obtain ⟨n, hn, ⟨input, now, rfl, hprocess⟩ | hf⟩ := Cluster.step_clients hmem hs hn'
    · refine (h.serving ch hch id n hn).process (h.cluster.nodes id n hn) hext (hok.nodes id n' hn') hprocess
        fun hasker => ⟨hask ch id input now hch rfl hasker, fun hrole hpassed => ?_⟩
      exact (h.cluster.nodes id n hn).not_passed hrole (hpassed.mono h.grown)
    · exact ((h.serving ch hch id n hn).mono hext).fades hf
  · obtain ⟨id, hid, happ⟩ := h.success reply hreply hsucc
    exact ⟨id, hid, happ.mono hext hmem hs⟩

theorem Underway.settle (h : Underway M config listens write base a₀ a s) {result : CallResult}
    (hs : s.settle result = some s') (hok : ∀ resp, result = .ok resp → resp.success = true →
      ∃ id, s.called listens = some id ∧ Applied M a₀ a write.command s.cluster id) :
    Underway M config listens write base a₀ a s' := by
  obtain ⟨target, r, hstage, rfl⟩ := settle_eq_some hs
  have hunsuccessful := h.unsuccessful
  rw [hstage] at hunsuccessful
  obtain ⟨hnext, hreturned⟩ := Routing.settle_unsuccessful hunsuccessful result
  refine ⟨h.cluster, h.grown, h.serving, hnext, fun reply hreply _ => ?_⟩
  obtain ⟨resp, hresp, hsucc⟩ := hreturned reply hreply
  obtain ⟨id, hid, happ⟩ := hok resp hresp hsucc
  refine ⟨id, Eq.trans ?_ hid, happ⟩
  exact called_modify (fun call => { call with result := some result }) (fun _ => rfl) rfl

theorem Underway.told (h : Underway M config listens write base a₀ a s) {id : NodeId} {n : RaftNode D} {ch : Nat}
    {resp : ServiceResponse} (hn : s.cluster.nodes id = some n) (hch : base ≤ ch) (hmem : (ch, resp) ∈ n.replies)
    (hok : resp.success = true) : Applied M a₀ a write.command s.cluster id := by
  have hanswer : Answer.ofReply (ch, resp) ∈ n.answered :=
    Multiset.mem_add.mpr (Or.inl (Multiset.mem_coe.mpr (List.mem_map_of_mem hmem)))
  obtain ⟨i, t, -, hi, hle, hcom, hnew⟩ := (h.serving ch hch id n hn).told _ hanswer rfl hok
  exact ⟨n, i, t, hn, hi, hle, hcom, hnew⟩

theorem Underway.step [Bincode] (h : Underway M config listens write base a₀ a s) {event : ExchangeEvent}
    (hmem : event.inMemory = true) (hs : Exchange.step config listens write base s event = some s') :
    ∃ a', Underway M config listens write base a₀ a' s' := by
  cases event with
  | other x =>
    obtain ⟨hspares, c, hc, rfl⟩ := step_other.mp hs
    refine h.move hmem hc ?_
    rintro ch id input now hch rfl hasker
    have hchannel : (Action.process id input now).channel? = some ch := asker_channel hasker
    rw [hchannel] at hspares
    simp only [Option.all_some, decide_eq_true_eq] at hspares
    omega
  | turn ctxErr =>
    simp only [Exchange.step] at hs
    split at hs
    · next r hstage =>
      have hunsuccessful := h.unsuccessful
      rw [hstage] at hunsuccessful
      obtain ⟨hnext, hreturned⟩ := Routing.turn_unsuccessful hunsuccessful ctxErr
      split at hs
      · next target r' hturn =>
        obtain rfl := Option.some.inj hs
        rw [hturn] at hnext
        exact ⟨a, h.cluster, h.grown, h.serving, hnext, fun _ h => by cases h⟩
      · obtain rfl := Option.some.inj hs
        exact ⟨a, h.cluster, h.grown, h.serving, hnext, fun reply hreply hsucc =>
          absurd hsucc (hreturned reply hreply)⟩
    · cases hs
  | handle k inside now =>
    obtain ⟨call, -, -, id, -, n, -, n', -, c, hc, rfl⟩ := step_handle.mp hs
    cases inside with
    | some point => cases hmem
    | none =>
      have hw : (write.input (base + k)).write = some (.oneshot (base + k), write.command) := by
        cases write <;> rfl
      have hinput : (Action.process id (write.input (base + k)) now).inMemory = true := by
        cases write <;> rfl
      obtain ⟨a', h'⟩ := h.move hinput hc fun ch id' input' now' _ hx hasker => by
        cases hx
        rw [hw, ← Option.some.inj ((Input.write_asker hw).symm.trans hasker)]
      refine ⟨a', h'.cluster, h'.grown, h'.serving, h'.unsuccessful, fun reply hreply hsucc => ?_⟩
      obtain ⟨id', hid', happ⟩ := h'.success reply hreply hsucc
      exact ⟨id', (called_close ..).trans hid', happ⟩
  | lost err => exact ⟨a, h.settle hs fun resp hresp => by cases hresp⟩
  | answered resp =>
    obtain ⟨call, hcall, id, hid, n, hn, hreply, hs⟩ := step_answered.mp hs
    refine ⟨a, h.settle hs ?_⟩
    rintro _ ⟨⟩ hok
    refine ⟨id, ?_, h.told hn (Nat.le_add_right _ _) hreply hok⟩
    rw [called, hcall]
    exact hid
  | refused refusal =>
    obtain ⟨call, -, -, hs⟩ := step_refused.mp hs
    have hclosed : Underway M config listens write base a₀ a (s.close (s.calls.length - 1) []) := by
      refine ⟨h.cluster, h.grown, h.serving, h.unsuccessful, fun reply hreply hsucc => ?_⟩
      obtain ⟨id, hid, happ⟩ := h.success reply hreply hsucc
      exact ⟨id, (called_close ..).trans hid, happ⟩
    refine ⟨a, hclosed.settle hs ?_⟩
    rintro _ ⟨⟩ hok
    cases hok
  | dropped =>
    refine ⟨a, h.settle hs ?_⟩
    rintro _ ⟨⟩ hok
    cases hok

theorem Underway.run [Bincode] (h : Underway M config listens write base a₀ a s) {events : List ExchangeEvent}
    (hmem : ∀ event ∈ events, event.inMemory = true) (hs : s.run config listens write base events = some s') :
    ∃ a', Underway M config listens write base a₀ a' s' := by
  refine Fold.foldlM_invariant (P := fun s => ∃ a', Underway M config listens write base a₀ a' s) hs ⟨a, h⟩ ?_
  rintro b event b' hevent ⟨a', h'⟩ hb
  exact h'.step (hmem event hevent) hb

end Step
end Exchange

section Gateway
variable [FloatText] {D : Type} [Storage D] [Bincode]

/-- A success of the gateway for a write means that the write is done. Its command is at an index above all
that any node had applied when the gateway began, and in every later state of the cluster it is applied
there on the node that has answered, and on every node that gets so far. -/
theorem gateway_write_applied (M : Membership) (config : Config) (now : Instant) {before : List Action}
    (hbefore : ∀ x ∈ before, x.inMemory = true) {base : Nat}
    (hbase : ∀ x ∈ before, x.channel?.all (· < base) = true) {c₀ : Cluster D}
    (hc₀ : Cluster.exec config (M.start config now) before = some c₀) (nodes : Registry)
    (listens : String → Option NodeId) (write : KvWrite) {events : List ExchangeEvent}
    (hevents : ∀ event ∈ events, event.inMemory = true) {s : Exchange D}
    (hs : (Exchange.start c₀ nodes).run config listens write base events = some s) {reply : Reply}
    (hreply : s.stage = .returned reply) (hok : reply.Succeeds) :
    ∃ id i, s.called listens = some id ∧ (∀ j m, c₀.nodes j = some m → m.lastApplied < i) ∧
      ∀ after c, (∀ x ∈ after, x.inMemory = true) → s.cluster.exec config after = some c →
        c.Holds id i write.command := by
  obtain ⟨c, a, hstates, -⟩ := exists_states (ClusterOk.start M config now) hbefore hc₀
  have hlast : c before.length = c₀ := hstates.last hc₀
  have hcluster : ClusterOk M config c₀ (a before.length) := hlast ▸ hstates.ok before.length le_rfl
  -- the channels of the calls are new to the cluster
  have hfresh : ∀ (p ch : Nat), before[p]?.bind Action.asker = some (.oneshot ch) → ch < base := by
    intro p ch hask
    obtain ⟨x, hx, hxr⟩ := Option.bind_eq_some_iff.mp hask
    have hspares := hbase x (List.mem_of_getElem? hx)
    cases x with
    | process id input now =>
      have hchannel : (Action.process id input now).channel? = some ch := Exchange.asker_channel hxr
      rw [hchannel] at hspares
      simpa using hspares
    | _ => cases hxr
  have hstart : Exchange.Underway M config listens write base (a before.length) (a before.length)
      (Exchange.start c₀ nodes) := by
    refine ⟨hcluster, .refl _, fun ch hch id n hn => ?_, ?_, fun reply hreply hsucc => ?_⟩
    · obtain ⟨hwaits, hasked⟩ := hstates.heard hbefore (Membership.start_silent M config now) le_rfl id n
        (hlast.symm ▸ hn)
      refine ⟨fun key hkey => ?_, fun x hx hr _ => ?_⟩
      · obtain ⟨p, -, cmd, hsub⟩ := hwaits key _ hkey
        exact absurd (hfresh p ch hsub.asker) hch.not_gt
      · obtain ⟨p, -, hask⟩ := hasked x hx
        exact absurd (hfresh p ch (hr ▸ hask)) hch.not_gt
    · change (executeRust nodes).Unsuccessful
      unfold executeRust
      split_ifs
      · trivial
      · intro resp hresp
        cases hresp
    · change executeRust nodes = .returned reply at hreply
      unfold executeRust at hreply
      split_ifs at hreply
      cases hreply
      cases hsucc
  obtain ⟨a', h⟩ := hstart.run hevents hs
  obtain ⟨id, hid, n, i, t, hn, hi, hle, hcom, hnew⟩ := h.success reply hreply hok
  refine ⟨id, i, hid, fun j m hm => ?_, fun after b hafter hb => ?_⟩
  · have hmok := hcluster.nodes j m hm
    have hget := List.getElem?_eq_getElem hmok.applied_lt
    exact (hmok.committedAt le_rfl hget).lt_of_not_passed h.grown h.cluster.inv hcom hi hnew
  · obtain ⟨d, a'', hlater, hfirst⟩ := exists_states h.cluster hafter hb
    rw [← hlater.last hb]
    rw [← hfirst] at hcom
    exact hlater.holds hafter (hlater.first.symm ▸ hn) hle hi hcom (Nat.zero_le _) le_rfl

end Gateway

/-- The gateway calls node 1, which leads, and gets its answer once node 2 has the entry. -/
def grantedWrite [FloatText] : List ExchangeEvent :=
  [.turn none, .handle 0 none ⟨0, 0⟩, .other (.flush 1),
    .other (.process 2 (.message (.appendEntries
      ⟨1, 1, 0, 0, [⟨1, .command (LogRecord.new 0 (.set "a" (.int 1)))⟩], 0⟩)) ⟨0, 0⟩), .other (.flush 2),
    .other (.process 1 (.message (.appendEntriesResponse ⟨1, 2, true, 1⟩)) ⟨0, 0⟩),
    .answered ⟨true, none, "Write committed and applied at log index 1", some 1, 1⟩]

section Concrete
open scoped Concrete

theorem gateway_write_applied_at_leader : ∃ (c₀ : Cluster Database) (s : Exchange Database),
    Cluster.exec .default (Membership.three.start .default ⟨0, 0⟩) (firstElection ⟨0, 0⟩) = some c₀ ∧
    (Exchange.start c₀ rustNodes).run .default rustServices (.put "a" (.int 1)) 0 grantedWrite = some s ∧
    ∃ i, s.cluster.Holds 1 i (.set "a" (.int 1)) := by
  have hrun : ((Cluster.exec .default (Membership.three.start .default ⟨0, 0⟩ : Cluster Database)
      (firstElection ⟨0, 0⟩)).bind fun c₀ => ((Exchange.start c₀ rustNodes).run .default rustServices
        (.put "a" (.int 1)) 0 grantedWrite).map fun s => (s.stage.reply?, s.called rustServices)) =
      some (some (.response ⟨true, none, "Write committed and applied at log index 1", some 1, 1⟩ 200), some 1) := by
    decide +kernel
  obtain ⟨c₀, hc₀, hrun⟩ := Option.bind_eq_some_iff.mp hrun
  obtain ⟨s, hs, hrun⟩ := Option.map_eq_some_iff.mp hrun
  obtain ⟨hreply, hcalled⟩ := Prod.mk.inj hrun
  obtain ⟨id, i, hid, -, hholds⟩ := gateway_write_applied Membership.three .default ⟨0, 0⟩ (by decide) (by decide)
    hc₀ rustNodes rustServices (.put "a" (.int 1)) (by decide) hs (Stage.reply?_eq_some hreply) rfl
  obtain rfl : 1 = id := Option.some.inj (hcalled.symm.trans hid)
  exact ⟨c₀, s, hc₀, hs, i, hholds [] s.cluster (fun _ h => absurd h List.not_mem_nil) rfl⟩

end Concrete
end KvRaft
