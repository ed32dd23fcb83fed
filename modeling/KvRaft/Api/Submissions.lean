import KvRaft.Api.ExecuteRust
import KvRaft.Lsm.NodeStorage
import KvRaft.Raft.BincodeFormat
import KvRaft.Raft.Channels

/-! A write that the gateway passes on while the cluster runs: how often leaders append it. -/

namespace KvRaft

inductive KvWrite where
  | put (key : String) (value : Value)
  | delete (key : String)
  deriving DecidableEq, Repr

namespace KvWrite

def command : KvWrite → Command
  | put key value => .set key value
  | delete key => .delete key

def operation : KvWrite → StoreOperation
  | put key value => .set key value
  | delete key => .delete key

/-- The request as the runtime of a node gets it from `handle_connection`. -/
def input (w : KvWrite) (ch : Nat) : RaftNode.Input := .request ⟨w.operation, .oneshot ch⟩

end KvWrite

/-- The answers of `handle_connection` to a request that it does not hand on. -/
inductive Refusal where
  | unavailable
  | invalid (err : String)
  deriving DecidableEq, Repr

def Refusal.message : Refusal → String
  | unavailable => "Raft runtime unavailable"
  | invalid err => s!"Invalid JSON request: {err}"

structure RustCall where
  target : String
  /-- What the log of the called node gained, once the request was handled. -/
  appended : Option (List LogEntry)
  result : Option CallResult

namespace RustCall

def failed (call : RustCall) : Bool :=
  match call.result with
  | some (.ok resp) => !resp.success
  | some (.error _) => true
  | none => false

/-- The call has ended without success, and was not turned down either. -/
def uncertain (call : RustCall) : Bool :=
  match call.result with
  | some (.ok resp) => !resp.success && !resp.declined
  | some (.error _) => true
  | none => false

end RustCall

/-- A cluster and one `executeRust` that writes to it. -/
structure Exchange (D : Type) [Storage D] where
  cluster : Cluster D
  stage : Stage
  calls : List RustCall

inductive ExchangeEvent where
  /-- The cluster takes a step that has nothing to do with the write. -/
  | other (a : Action)
  /-- The loop goes on to its next call, or ends. -/
  | turn (ctxErr : Option String)
  /-- The node that was called handles the request, maybe only up to a crash: during the call, or after it
  if the gateway has given up waiting. -/
  | handle (call : Nat) (inside : Option Nat) (now : Instant)
  /-- The connection fails. -/
  | lost (err : String)
  /-- The node's answer arrives. -/
  | answered (resp : ServiceResponse)
  | refused (refusal : Refusal)
  /-- The channel was dropped, with the request or after it. -/
  | dropped
  deriving DecidableEq, Repr

namespace Exchange
variable {D : Type} [Storage D] [FloatText]

/-- The entries that nodes appended for the write. -/
def appends (s : Exchange D) : List LogEntry := s.calls.flatMap fun call => call.appended.getD []

def start (c : Cluster D) (nodes : Registry) : Exchange D := ⟨c, executeRust nodes, []⟩

def settle (s : Exchange D) (result : CallResult) : Option (Exchange D) :=
  match s.stage with
  | .calling _ r => some { s with
      stage := r.settle result
      calls := s.calls.modify (s.calls.length - 1) fun call => { call with result := some result } }
  | _ => none

/-- The state of a call after its request was handled, or refused. -/
def close (s : Exchange D) (k : Nat) (appended : List LogEntry) : Exchange D :=
  { s with calls := s.calls.modify k fun call => { call with appended := some appended } }

variable (config : Config) (listens : String → Option NodeId) (write : KvWrite) (base : Nat)

/-- `listens` tells whose service answers at an address. Oneshot channels are not shared: those from `base`
on are the ones of the calls. -/
def step [Bincode] (s : Exchange D) : ExchangeEvent → Option (Exchange D)
  | .other a => do
    guard (a.channel?.all (· < base))
    let c ← s.cluster.step config a
    return { s with cluster := c }
  | .turn ctxErr =>
    match s.stage with
    | .looping r =>
      match r.turn ctxErr with
      | .calling target r => some { s with
          stage := .calling target r
          calls := s.calls ++ [⟨target, none, none⟩] }
      | stage => some { s with stage := stage }
    | _ => none
  | .handle k inside now => do
    let call ← s.calls[k]?
    guard call.appended.isNone
    let id ← listens call.target
    let n ← s.cluster.nodes id
    let n' ← n.process (write.input (base + k)) now
    let c ← s.cluster.step config (match inside with
      | none => .process id (write.input (base + k)) now
      | some point => .crash id (some (write.input (base + k), point)) now)
    return { s with cluster := c }.close k (n'.log.drop n.log.length)
  | .lost err => s.settle (.error err)
  | .answered resp => do
    let call ← s.calls.getLast?
    let id ← listens call.target
    let n ← s.cluster.nodes id
    guard ((base + (s.calls.length - 1), resp) ∈ n.replies)
    s.settle (.ok resp)
  | .refused refusal => do
    let call ← s.calls.getLast?
    guard call.appended.isNone
    (s.close (s.calls.length - 1) []).settle (.ok ⟨false, none, refusal.message, none, 0⟩)
  | .dropped => s.settle (.ok ⟨false, none, "Raft runtime dropped the response", none, 0⟩)

def run [Bincode] (s : Exchange D) (events : List ExchangeEvent) : Option (Exchange D) :=
  events.foldlM (step config listens write base) s

section Inversion
variable {config listens write base} {s s' : Exchange D}

theorem step_other [Bincode] {a : Action} : step config listens write base s (.other a) = some s' ↔
    a.channel?.all (· < base) = true ∧ ∃ c, s.cluster.step config a = some c ∧ { s with cluster := c } = s' := by
  simp [step, Option.bind_eq_some_iff]

theorem step_handle [Bincode] {k : Nat} {inside : Option Nat} {now : Instant} :
    step config listens write base s (.handle k inside now) = some s' ↔
    ∃ call, s.calls[k]? = some call ∧ call.appended = none ∧ ∃ id, listens call.target = some id ∧
      ∃ n, s.cluster.nodes id = some n ∧ ∃ n', n.process (write.input (base + k)) now = some n' ∧
      ∃ c, s.cluster.step config (match inside with
        | none => .process id (write.input (base + k)) now
        | some point => .crash id (some (write.input (base + k), point)) now) = some c ∧
      { s with cluster := c }.close k (n'.log.drop n.log.length) = s' := by
  simp [step, Option.bind_eq_some_iff]

theorem step_answered [Bincode] {resp : ServiceResponse} :
    step config listens write base s (.answered resp) = some s' ↔
    ∃ call, s.calls.getLast? = some call ∧ ∃ id, listens call.target = some id ∧
      ∃ n, s.cluster.nodes id = some n ∧ (base + (s.calls.length - 1), resp) ∈ n.replies ∧
      s.settle (.ok resp) = some s' := by
  simp [step, Option.bind_eq_some_iff]

theorem step_refused [Bincode] {refusal : Refusal} : step config listens write base s (.refused refusal) = some s' ↔
    ∃ call, s.calls.getLast? = some call ∧ call.appended = none ∧
      (s.close (s.calls.length - 1) []).settle (.ok ⟨false, none, refusal.message, none, 0⟩) = some s' := by
  simp [step, Option.bind_eq_some_iff]

end Inversion

/-! What the gateway is told is what happened to its request. -/

def appendedBy (s : Exchange D) (k : Nat) : Option (List LogEntry) := s.calls[k]?.bind RustCall.appended

def IsEntry (e : LogEntry) : Prop := e.payload = .command (LogRecord.new 0 write.command)

/-- The channels agree with the calls: what was not appended can only be turned down, what was appended
is never turned down, and a call that was told so has appended nothing. -/
structure Consistent (s : Exchange D) : Prop where
  turnsDown : ∀ k, (s.appendedBy k).getD [] = [] → s.cluster.TurnsDown (base + k)
  takesUp : ∀ k, s.appendedBy k ≠ some [] → s.cluster.TakesUp (base + k)
  once : ∀ k es, s.appendedBy k = some es → es.length ≤ 1 ∧ ∀ e ∈ es, IsEntry write e
  told : ∀ (k : Nat) (call : RustCall) (resp : ServiceResponse), s.calls[k]? = some call →
    call.result = some (.ok resp) → resp.declined = true → call.appended = some []

section Consistent
variable {config listens write base} {s s' : Exchange D}

omit [FloatText] in
theorem appendedBy_close (s : Exchange D) (k j : Nat) (es : List LogEntry) :
    (s.close k es).appendedBy j = if k = j then s.calls[k]?.map fun _ => es else s.appendedBy j := by
  simp only [appendedBy, close, List.getElem?_modify]
  split_ifs with hk
  · subst hk
    cases s.calls[k]? <;> rfl
  · cases s.calls[j]? <;> rfl

theorem Consistent.length_appended (hs : Consistent write base s) {k : Nat} {call : RustCall}
    (hcall : s.calls[k]? = some call) : (call.appended.getD []).length ≤ 1 := by
  cases happended : call.appended with
  | none => exact Nat.zero_le 1
  | some es => exact (hs.once k es (by rw [appendedBy, hcall]; exact happended)).1

omit [FloatText] in
theorem length_close (s : Exchange D) (k : Nat) (es : List LogEntry) :
    (s.close k es).calls.length = s.calls.length := List.length_modify ..

omit [FloatText] in
theorem settle_eq_some {result : CallResult} (h : s.settle result = some s') : ∃ target r,
    s.stage = .calling target r ∧ s' = { s with
      stage := r.settle result
      calls := s.calls.modify (s.calls.length - 1) fun call => { call with result := some result } } := by
  unfold settle at h
  split at h
  · exact ⟨_, _, ‹_›, (Option.some.inj h).symm⟩
  · cases h

theorem Consistent.settle (hs : Consistent write base s) {result : CallResult} (h : s.settle result = some s')
    (htold : ∀ resp, result = .ok resp → resp.declined = true → s.appendedBy (s.calls.length - 1) = some []) :
    Consistent write base s' := by
  obtain ⟨target, r, -, rfl⟩ := settle_eq_some h
  have hsame : ∀ k, appendedBy { s with
      stage := r.settle result
      calls := s.calls.modify (s.calls.length - 1) fun call => { call with result := some result } } k =
      s.appendedBy k := by
    intro k
    simp only [appendedBy, List.getElem?_modify]
    split_ifs
    · cases s.calls[k]? <;> rfl
    · cases s.calls[k]? <;> rfl
  constructor
  · intro k hk
    exact hs.turnsDown k (hsame k ▸ hk)
  · intro k hk
    exact hs.takesUp k (hsame k ▸ hk)
  · intro k es hk
    exact hs.once k es (hsame k ▸ hk)
  · intro k call resp hcall hresult hdeclined
    simp only [List.getElem?_modify, Option.map_eq_map, Option.map_eq_some_iff] at hcall
    obtain ⟨old, hold, rfl⟩ := hcall
    split_ifs at hresult ⊢ with hk
    · subst hk
      have h := htold resp (Option.some.inj hresult) hdeclined
      rwa [appendedBy, hold] at h
    · exact hs.told k old resp hold hresult hdeclined

/-- A request that was not handled yet is closed, with a cluster that agrees with what was appended. -/
theorem Consistent.close (hs : Consistent write base s) {k : Nat} {call : RustCall} {c : Cluster D}
    {es : List LogEntry} (hcall : s.calls[k]? = some call) (hopen : call.appended = none)
    (hquiet : s.cluster.Quiet (· ≠ base + k) c) (hnil : es = [] → c.TurnsDown (base + k))
    (hcons : es ≠ [] → c.TakesUp (base + k)) (honce : es.length ≤ 1 ∧ ∀ e ∈ es, IsEntry write e) :
    Consistent write base ({ s with cluster := c }.close k es) := by
  have hown : ({ s with cluster := c }.close k es).appendedBy k = some es := by
    rw [appendedBy_close, if_pos rfl, hcall]
    rfl
  have hrest : ∀ j, j ≠ k → ({ s with cluster := c }.close k es).appendedBy j = s.appendedBy j := by
    intro j hj
    rw [appendedBy_close, if_neg hj.symm]
    rfl
  -- each call has a channel of its own
  have hother : ∀ j, j ≠ k → base + j ≠ base + k := fun j hj h => hj (Nat.add_left_cancel h)
  constructor
  · intro j hj
    by_cases hk : j = k
    · subst hk
      rw [hown] at hj
      exact hnil hj
    · exact (hs.turnsDown j (hrest j hk ▸ hj)).quiet hquiet (hother j hk)
  · intro j hj
    by_cases hk : j = k
    · subst hk
      rw [hown] at hj
      exact hcons fun h => hj (congrArg some h)
    · exact (hs.takesUp j (hrest j hk ▸ hj)).quiet hquiet (hother j hk)
  · intro j es' hj
    by_cases hk : j = k
    · subst hk
      rw [hown] at hj
      exact Option.some.inj hj ▸ honce
    · exact hs.once j es' (hrest j hk ▸ hj)
  · intro j call' resp hcall' hresult hdeclined
    simp only [Exchange.close, List.getElem?_modify, Option.map_eq_map, Option.map_eq_some_iff] at hcall'
    obtain ⟨old, hold, rfl⟩ := hcall'
    split_ifs at hresult ⊢ with hk
    · -- a call that was turned down is closed already
      subst hk
      have hold' : old = call := Option.some.inj (hold.symm.trans hcall)
      have htold := hs.told k old resp hold hresult hdeclined
      rw [hold', hopen] at htold
      cases htold
    · exact hs.told j old resp hold hresult hdeclined

theorem Consistent.handle [Bincode] (hs : Consistent write base s) {k : Nat} {call : RustCall} {id : NodeId}
    {n n' : RaftNode D} {c : Cluster D} {now : Instant} {inside : Option Nat} (hcall : s.calls[k]? = some call)
    (hopen : call.appended = none) (hn : s.cluster.nodes id = some n)
    (hn' : n.process (write.input (base + k)) now = some n') (hc : s.cluster.step config (match inside with
      | none => .process id (write.input (base + k)) now
      | some point => .crash id (some (write.input (base + k), point)) now) = some c) :
    Consistent write base ({ s with cluster := c }.close k (n'.log.drop n.log.length)) := by
  have hclosed : s.appendedBy k = none := by rw [appendedBy, hcall]; exact hopen
  have hdown : s.cluster.TurnsDown (base + k) := hs.turnsDown k (by rw [hclosed]; rfl)
  have hup : s.cluster.TakesUp (base + k) := hs.takesUp k (by rw [hclosed]; exact nofun)
  have hw : (write.input (base + k)).write = some (.oneshot (base + k), write.command) := by
    cases write <;> rfl
  have hquiet : s.cluster.Quiet (· ≠ base + k) c := by
    apply Cluster.quiet_step ?_ hc
    intro ch hch hsame
    cases inside <;> exact hch (Option.some.inj hsame).symm
  -- after a crash the new node has neither waiting requests nor answers
  have hafter : (n'.TurnsDown (base + k) → c.TurnsDown (base + k)) ∧
      (n'.TakesUp (base + k) → c.TakesUp (base + k)) := by
    cases inside with
    | none =>
      obtain ⟨m, hm, -, m', hm', rfl⟩ := Cluster.step_process.mp hc
      obtain rfl := Option.some.inj (hn.symm.trans hm)
      obtain rfl := Option.some.inj (hn'.symm.trans hm')
      exact ⟨hdown.setNode, hup.setNode⟩
    | some point =>
      obtain ⟨m, dir, r, -, hr, rfl⟩ := Cluster.step_crash hc
      have hempty := Cluster.newInDir_answered hr
      exact ⟨fun _ => hdown.setNode (Cluster.turnsDown_started (newInDir_pending hr) hempty),
        fun _ => hup.setNode (Cluster.takesUp_started hempty)⟩
  rcases process_own hw (hdown id n hn) (hup id n hn) hn' with ⟨hlog, hn'down⟩ | ⟨hlog, hn'up⟩
  · rw [hlog, List.drop_length]
    exact hs.close hcall hopen hquiet (fun _ => hafter.1 hn'down) (fun h => absurd rfl h) (by simp)
  · rw [hlog, List.drop_left]
    exact hs.close hcall hopen hquiet (fun h => nomatch h) (fun _ => hafter.2 hn'up) (by simp [IsEntry])

omit [FloatText] in
theorem getLast?_calls {call : RustCall} (h : s.calls.getLast? = some call) :
    s.calls[s.calls.length - 1]? = some call := by
  rwa [← List.getLast?_eq_getElem?]

theorem Consistent.turn (hs : Consistent write base s) (target : String) (stage : Stage) :
    Consistent write base { s with stage := stage, calls := s.calls ++ [⟨target, none, none⟩] } := by
  have hsame : ∀ k, appendedBy { s with stage := stage, calls := s.calls ++ [⟨target, none, none⟩] } k =
      s.appendedBy k := by
    intro k
    simp only [appendedBy, List.getElem?_append]
    split_ifs with hk
    · rfl
    · rw [List.getElem?_eq_none (Nat.le_of_not_lt hk)]
      cases k - s.calls.length <;> rfl
  constructor
  · exact fun k hk => hs.turnsDown k (hsame k ▸ hk)
  · exact fun k hk => hs.takesUp k (hsame k ▸ hk)
  · exact fun k es hk => hs.once k es (hsame k ▸ hk)
  · intro k call resp hcall hresult hdeclined
    rcases List.mem_append.mp (List.mem_of_getElem? hcall) with hold | hnew
    · obtain ⟨j, hj⟩ := List.mem_iff_getElem?.mp hold
      exact hs.told j call resp hj hresult hdeclined
    · rw [List.mem_singleton.mp hnew] at hresult
      cases hresult

theorem Consistent.step [Bincode] (hs : Consistent write base s) {event : ExchangeEvent}
    (h : Exchange.step config listens write base s event = some s') : Consistent write base s' := by
  cases event with
  | other a =>
    obtain ⟨hspares, c, hc, rfl⟩ := step_other.mp h
    have hquiet : s.cluster.Quiet (base ≤ ·) c := by
      apply Cluster.quiet_step ?_ hc
      intro ch hch hsame
      rw [hsame] at hspares
      simp only [Option.all_some, decide_eq_true_eq] at hspares
      omega
    exact ⟨fun k hk => (hs.turnsDown k hk).quiet hquiet (Nat.le_add_right ..),
      fun k hk => (hs.takesUp k hk).quiet hquiet (Nat.le_add_right ..), hs.once, hs.told⟩
  | turn ctxErr =>
    simp only [Exchange.step] at h
    split at h
    · split at h
      · exact Option.some.inj h ▸ hs.turn ..
      · exact Option.some.inj h ▸ ⟨hs.turnsDown, hs.takesUp, hs.once, hs.told⟩
    · cases h
  | handle k inside now =>
    obtain ⟨call, hcall, hopen, id, -, n, hn, n', hn', c, hc, rfl⟩ := step_handle.mp h
    exact hs.handle hcall hopen hn hn' hc
  | lost err => exact hs.settle h fun resp hresp => nomatch hresp
  | answered resp =>
    obtain ⟨call, hcall, id, -, n, hn, hreply, h⟩ := step_answered.mp h
    apply hs.settle h
    rintro _ ⟨⟩ hdeclined
    -- a channel that takes requests up has no such answer
    by_contra happended
    have hanswer : Answer.ofReply (base + (s.calls.length - 1), resp) ∈ n.answered :=
      Multiset.mem_add.mpr (Or.inl (Multiset.mem_coe.mpr (List.mem_map_of_mem hreply)))
    have htaken := hs.takesUp _ happended id n hn _ hanswer rfl
    exact absurd (hdeclined.symm.trans htaken) (by decide)
  | refused refusal =>
    obtain ⟨call, hcall, hopen, h⟩ := step_refused.mp h
    have hcall' := getLast?_calls hcall
    have hdown : s.cluster.TurnsDown (base + (s.calls.length - 1)) := by
      apply hs.turnsDown
      rw [appendedBy, hcall', Option.bind_some, hopen]
      rfl
    have hquiet : s.cluster.Quiet (· ≠ base + (s.calls.length - 1)) s.cluster :=
      fun id n hn => Or.inl ⟨n, hn, .refl _ n⟩
    -- the request has not reached the node and never will
    have hclosed : Consistent write base (s.close (s.calls.length - 1) []) :=
      hs.close hcall' hopen hquiet (fun _ => hdown) (fun h => absurd rfl h) (by simp)
    apply hclosed.settle h
    intro _ _ _
    rw [length_close, appendedBy_close, if_pos rfl, hcall']
    rfl
  | dropped =>
    apply hs.settle h
    rintro _ ⟨⟩ hdeclined
    exact absurd hdeclined (by decide)

end Consistent

/-! The loop makes another call only after the last one has failed, and never to the same address. -/

structure Routed (s : Exchange D) : Prop where
  past : ∀ (k : Nat) (call : RustCall), s.calls[k]? = some call → k + 1 < s.calls.length → call.failed = true
  nodup : (s.calls.map RustCall.target).Nodup
  looping : ∀ r, s.stage = .looping r → r.tried.reverse = s.calls.map RustCall.target ∧
    ∀ call ∈ s.calls, call.failed = true
  calling : ∀ target r, s.stage = .calling target r → r.tried.reverse = s.calls.map RustCall.target

section Routed
variable {config listens write base} {s s' : Exchange D}

omit [FloatText] in
theorem map_target_modify (calls : List RustCall) (k : Nat) {f : RustCall → RustCall}
    (hf : ∀ call, (f call).target = call.target) :
    (calls.modify k f).map RustCall.target = calls.map RustCall.target := by
  apply List.ext_getElem?
  intro j
  simp only [List.getElem?_map, List.getElem?_modify]
  cases calls[j]? with
  | none => rfl
  | some call => split_ifs <;> simp [hf]

omit [FloatText] in
theorem failed_close {calls : List RustCall} {k j : Nat} {es : List LogEntry} {call : RustCall}
    (h : (calls.modify k fun call => { call with appended := some es })[j]? = some call) :
    ∃ old, calls[j]? = some old ∧ call.failed = old.failed := by
  simp only [List.getElem?_modify, Option.map_eq_map, Option.map_eq_some_iff] at h
  obtain ⟨old, hold, rfl⟩ := h
  refine ⟨old, hold, ?_⟩
  split_ifs <;> rfl

omit [FloatText] in
theorem Routed.close (hs : Routed s) (c : Cluster D) (k : Nat) (es : List LogEntry) :
    Routed ({ s with cluster := c }.close k es) := by
  have htargets : ({ s with cluster := c }.close k es).calls.map RustCall.target = s.calls.map RustCall.target :=
    map_target_modify s.calls k fun _ => rfl
  constructor
  · intro j call hcall hj
    obtain ⟨old, hold, hsame⟩ := failed_close hcall
    rw [length_close] at hj
    exact hsame.trans (hs.past j old hold hj)
  · rw [htargets]
    exact hs.nodup
  · intro r hr
    refine ⟨(hs.looping r hr).1.trans htargets.symm, ?_⟩
    intro call hmem
    obtain ⟨j, hj⟩ := List.mem_iff_getElem?.mp hmem
    obtain ⟨old, hold, hsame⟩ := failed_close hj
    exact hsame.trans ((hs.looping r hr).2 old (List.mem_of_getElem? hold))
  · intro target r hr
    exact (hs.calling target r hr).trans htargets.symm

omit [FloatText] in
theorem Routed.settle (hs : Routed s) {result : CallResult} (h : s.settle result = some s') : Routed s' := by
  obtain ⟨target, r, hstage, rfl⟩ := settle_eq_some h
  have htargets := map_target_modify s.calls (s.calls.length - 1)
    (f := fun call => { call with result := some result }) fun _ => rfl
  have hpast : ∀ (k : Nat) (call : RustCall), (s.calls.modify (s.calls.length - 1)
      fun call => { call with result := some result })[k]? = some call → k + 1 < s.calls.length →
      call.failed = true := by
    intro k call hcall hk
    rw [List.getElem?_modify_ne _ _ (by omega)] at hcall
    exact hs.past k call hcall hk
  constructor
  · intro k call hcall hk
    rw [List.length_modify] at hk
    exact hpast k call hcall hk
  · rw [htargets]
    exact hs.nodup
  · intro r' hr'
    obtain ⟨htried, hfailed⟩ := Routing.settle_looping hr'
    refine ⟨htried ▸ (hs.calling target r hstage).trans htargets.symm, ?_⟩
    intro call hmem
    obtain ⟨k, hk⟩ := List.mem_iff_getElem?.mp hmem
    by_cases hlast : k + 1 < s.calls.length
    · exact hpast k call hk hlast
    · -- the call that has just ended
      have hlt := (List.getElem?_eq_some_iff.mp hk).1
      rw [List.length_modify] at hlt
      obtain rfl : k = s.calls.length - 1 := by omega
      simp only [List.getElem?_modify_eq, Option.map_eq_map, Option.map_eq_some_iff] at hk
      obtain ⟨old, -, rfl⟩ := hk
      cases result with
      | error err => rfl
      | ok resp => simp [RustCall.failed, hfailed resp rfl]
  · intro target' r' hr'
    exact absurd hr' (Routing.settle_ne_calling r result target')

theorem Routed.turn [Bincode] (hs : Routed s) {r : Routing} {ctxErr : Option String} (hr : s.stage = .looping r)
    (h : Exchange.step config listens write base s (.turn ctxErr) = some s') : Routed s' := by
  simp only [Exchange.step, hr] at h
  obtain ⟨htried, hfailed⟩ := hs.looping r hr
  split at h
  · rename_i target r' hturn
    obtain rfl := Option.some.inj h
    obtain ⟨hnew, hr'⟩ := Routing.turn_calling hturn
    -- `tried` lists the addresses called so far, the last one first
    have hmap : (s.calls ++ [(⟨target, none, none⟩ : RustCall)]).map RustCall.target =
        (target :: r.tried).reverse := by
      simp [htried]
    constructor
    · intro k call hcall hk
      simp only [List.length_append, List.length_singleton] at hk
      rw [List.getElem?_append_left (by omega)] at hcall
      exact hfailed call (List.mem_of_getElem? hcall)
    · rw [hmap, List.nodup_reverse, List.nodup_cons]
      refine ⟨hnew, ?_⟩
      rw [← List.nodup_reverse, htried]
      exact hs.nodup
    · intro r'' hr''
      cases hr''
    · intro target' r'' hr''
      cases hr''
      rw [hmap, hr']
  · rename_i hcall
    obtain rfl := Option.some.inj h
    constructor
    · exact hs.past
    · exact hs.nodup
    · intro r' hr'
      exact ⟨Routing.turn_looping hr' ▸ htried, hfailed⟩
    · intro target r' hr'
      exact absurd hr' (hcall target r')

theorem Routed.step [Bincode] (hs : Routed s) {event : ExchangeEvent}
    (h : Exchange.step config listens write base s event = some s') : Routed s' := by
  cases event with
  | other a =>
    obtain ⟨-, c, -, rfl⟩ := step_other.mp h
    exact ⟨hs.past, hs.nodup, hs.looping, hs.calling⟩
  | turn ctxErr =>
    cases hstage : s.stage with
    | looping r => exact hs.turn hstage h
    | calling target r => simp [Exchange.step, hstage] at h
    | returned reply => simp [Exchange.step, hstage] at h
  | handle k inside now =>
    obtain ⟨call, -, -, id, -, n, -, n', -, c, -, rfl⟩ := step_handle.mp h
    exact hs.close c k _
  | lost err => exact hs.settle h
  | answered resp =>
    obtain ⟨call, -, id, -, n, -, -, h⟩ := step_answered.mp h
    exact hs.settle h
  | refused refusal =>
    obtain ⟨call, -, -, h⟩ := step_refused.mp h
    exact (hs.close s.cluster (s.calls.length - 1) []).settle h
  | dropped => exact hs.settle h

end Routed

section Count

omit [FloatText] in
theorem length_flatMap_appended {calls : List RustCall}
    (h : ∀ call ∈ calls, (call.appended.getD []).length ≤ if call.uncertain then 1 else 0) :
    (calls.flatMap fun call => call.appended.getD []).length ≤ calls.countP RustCall.uncertain := by
  induction calls with
  | nil => exact le_rfl
  | cons call calls ih =>
    have hhead := h call (List.mem_cons_self ..)
    have htail := ih fun c hc => h c (List.mem_cons_of_mem _ hc)
    simp only [List.flatMap_cons, List.length_append, List.countP_cons]
    omega

variable {config listens write base} {s : Exchange D}

theorem Consistent.appended_of_failed (hs : Consistent write base s) {k : Nat} {call : RustCall}
    (hcall : s.calls[k]? = some call) (hfailed : call.failed = true) :
    (call.appended.getD []).length ≤ if call.uncertain then 1 else 0 := by
  split_ifs with hu
  · exact hs.length_appended hcall
  · -- a failure that is not uncertain is a refusal
    cases hresult : call.result with
    | none => simp [RustCall.failed, hresult] at hfailed
    | some result =>
      cases result with
      | error err => simp [RustCall.uncertain, hresult] at hu
      | ok resp =>
        have hfail : resp.success = false := by simpa [RustCall.failed, hresult] using hfailed
        have hdeclined : resp.declined = true := by simpa [RustCall.uncertain, hresult, hfail] using hu
        rw [hs.told k call resp hcall hresult hdeclined]
        rfl

theorem length_appends_le (hs : Consistent write base s) (hr : Routed s) :
    s.appends.length ≤ 1 + s.calls.countP RustCall.uncertain := by
  rcases List.eq_nil_or_concat s.calls with hnil | ⟨past, last, hcalls⟩
  · simp [appends, hnil]
  · rw [List.concat_eq_append] at hcalls
    have hpast : ∀ call ∈ past, (call.appended.getD []).length ≤ if call.uncertain then 1 else 0 := by
      intro call hmem
      obtain ⟨k, hk⟩ := List.mem_iff_getElem?.mp hmem
      have hlt := (List.getElem?_eq_some_iff.mp hk).1
      have hcall : s.calls[k]? = some call := by rw [hcalls, List.getElem?_append_left hlt, hk]
      apply hs.appended_of_failed hcall
      apply hr.past k call hcall
      simp [hcalls, hlt]
    -- the last call may be under way, or the one that succeeded
    have hlast : (last.appended.getD []).length ≤ 1 := by
      apply hs.length_appended (k := past.length)
      rw [hcalls, List.getElem?_concat_length]
    have hsum := length_flatMap_appended hpast
    simp only [appends, hcalls, List.flatMap_append, List.length_append, List.flatMap_singleton,
      List.countP_append]
    omega

theorem mem_appends (hs : Consistent write base s) {e : LogEntry} (he : e ∈ s.appends) : IsEntry write e := by
  obtain ⟨call, hmem, he⟩ := List.mem_flatMap.mp he
  obtain ⟨k, hk⟩ := List.mem_iff_getElem?.mp hmem
  cases happended : call.appended with
  | none => simp [happended] at he
  | some es =>
    rw [happended] at he
    exact (hs.once k es (by rw [appendedBy, hk]; exact happended)).2 e he

end Count

section Start
variable (M : Membership) (now : Instant) (nodes : Registry)

theorem consistent_start [Bincode] :
    Consistent write base (Exchange.start (D := D) (M.start config now) nodes) := by
  have hnew : ∀ id n, (M.start config now : Cluster D).nodes id = some n →
      n.pendingRequests = ∅ ∧ n.answered = 0 := by
    intro id n hn
    simp only [Membership.start] at hn
    split_ifs at hn
    exact ⟨newInDir_pending hn, Cluster.newInDir_answered hn⟩
  constructor
  · intro k _ id n hn
    exact Cluster.turnsDown_started (hnew id n hn).1 (hnew id n hn).2
  · intro k _ id n hn
    exact Cluster.takesUp_started (hnew id n hn).2
  · intro k es hk
    simp [appendedBy, start] at hk
  · intro k call resp hcall
    simp [start] at hcall

omit [FloatText] in
theorem routed_start (c : Cluster D) : Routed (Exchange.start c nodes) := by
  constructor
  · intro k call hcall
    simp [start] at hcall
  · exact List.nodup_nil
  · intro r hr
    simp only [start, executeRust] at hr
    split_ifs at hr
    cases hr
    exact ⟨rfl, by simp [start]⟩
  · intro target r hr
    simp only [start, executeRust] at hr
    split_ifs at hr

end Start
end Exchange

section Submissions
variable {D : Type} [Storage D] [Bincode] [FloatText]

/-- However the cluster runs while the gateway passes a write on: no address is called twice, another call
is made only after one that failed, only the command of the write is appended for it, by each call at most
once, and the appends are at most one more than the calls that have ended neither in success nor in a
refusal. -/
theorem write_submissions (M : Membership) (config : Config) (now : Instant) (nodes : Registry)
    (listens : String → Option NodeId) (write : KvWrite) (base : Nat) (events : List ExchangeEvent)
    (s : Exchange D)
    (h : (Exchange.start (M.start config now) nodes).run config listens write base events = some s) :
    (s.calls.map RustCall.target).Nodup ∧ (∀ call ∈ s.calls.dropLast, call.failed = true) ∧
      (∀ e ∈ s.appends, Exchange.IsEntry write e) ∧
      (∀ call ∈ s.calls, (call.appended.getD []).length ≤ 1) ∧
      s.appends.length ≤ 1 + s.calls.countP RustCall.uncertain := by
  have hrun : Exchange.Consistent write base s ∧ Exchange.Routed s := by
    refine Fold.foldlM_invariant (P := fun s => Exchange.Consistent write base s ∧ Exchange.Routed s) h
      ⟨Exchange.consistent_start config write base M now nodes, Exchange.routed_start nodes _⟩ ?_
    rintro b event b' - ⟨hconsistent, hrouted⟩ hb
    exact ⟨hconsistent.step hb, hrouted.step hb⟩
  obtain ⟨hconsistent, hrouted⟩ := hrun
  refine ⟨hrouted.nodup, ?_, fun e he => Exchange.mem_appends hconsistent he, ?_,
    Exchange.length_appends_le hconsistent hrouted⟩
  · intro call hmem
    obtain ⟨k, hk⟩ := List.mem_iff_getElem?.mp hmem
    have hlt := (List.getElem?_eq_some_iff.mp hk).1
    rw [List.length_dropLast] at hlt
    apply hrouted.past k call
    · rwa [List.getElem?_dropLast, if_pos (by omega)] at hk
    · omega
  · intro call hmem
    obtain ⟨k, hk⟩ := List.mem_iff_getElem?.mp hmem
    exact hconsistent.length_appended hk

end Submissions

section Concrete
open scoped Concrete

def rustNodes : Registry := [⟨1, "node1:7001"⟩, ⟨2, "node2:7002"⟩, ⟨3, "node3:7003"⟩].toAList

def rustServices : String → Option NodeId
  | "node1:7001" => some 1
  | "node2:7002" => some 2
  | "node3:7003" => some 3
  | _ => none

/-- Node 1 leads, appends the write and brings it to node 2, which is then elected. Node 1 steps down and
tells the gateway that the outcome may be uncertain, and the gateway goes on to node 2. -/
def secondSubmission : List ExchangeEvent :=
  (firstElection ⟨0, 0⟩).map .other ++
  [.turn none, .handle 0 none ⟨0, 0⟩, .other (.flush 1),
    .other (.process 2 (.message (.appendEntries
      ⟨1, 1, 0, 0, [⟨1, .command (LogRecord.new 0 (.set "a" (.int 1)))⟩], 0⟩)) ⟨0, 0⟩), .other (.flush 2)] ++
  (secondElection ⟨0, 0⟩).map .other ++
  [.other (.process 1 (.message (.requestVote ⟨2, 2, 1, 1⟩)) ⟨0, 0⟩),
    .answered ⟨false, none, "Leadership changed before confirmation; write outcome may be uncertain", none, 2⟩,
    .turn none, .handle 1 none ⟨0, 0⟩]

theorem run_secondSubmission : ∃ s : Exchange Database,
    (Exchange.start (Membership.three.start .default ⟨0, 0⟩) rustNodes).run .default rustServices
      (.put "a" (.int 1)) 0 secondSubmission = some s ∧
    s.appends = [⟨1, .command (LogRecord.new 0 (.set "a" (.int 1)))⟩,
      ⟨2, .command (LogRecord.new 0 (.set "a" (.int 1)))⟩] ∧
    (s.cluster.nodes 2).map RaftNode.log = some (sentinel :: s.appends) := by
  have hrun : ((Exchange.start (D := Database) (Membership.three.start .default ⟨0, 0⟩) rustNodes).run .default
      rustServices (.put "a" (.int 1)) 0 secondSubmission).map
        (fun s => (s.appends, (s.cluster.nodes 2).map RaftNode.log)) =
      some ([⟨1, .command (LogRecord.new 0 (.set "a" (.int 1)))⟩,
          ⟨2, .command (LogRecord.new 0 (.set "a" (.int 1)))⟩],
        some [sentinel, ⟨1, .command (LogRecord.new 0 (.set "a" (.int 1)))⟩,
          ⟨2, .command (LogRecord.new 0 (.set "a" (.int 1)))⟩]) := by
    decide +kernel
  obtain ⟨s, hs, hstate⟩ := Option.map_eq_some_iff.mp hrun
  obtain ⟨happends, hlog⟩ := Prod.mk.inj hstate
  exact ⟨s, hs, happends, by rw [hlog, happends]⟩

/-- One PUT, appended by two leaders, and twice in the log of the second. -/
theorem write_submitted_twice : ∃ s : Exchange Database,
    (Exchange.start (Membership.three.start .default ⟨0, 0⟩) rustNodes).run .default rustServices
      (.put "a" (.int 1)) 0 secondSubmission = some s ∧ ¬ s.appends.length ≤ 1 ∧
    (s.cluster.nodes 2).map RaftNode.log = some (sentinel :: s.appends) := by
  obtain ⟨s, hs, happends, hlog⟩ := run_secondSubmission
  refine ⟨s, hs, ?_, hlog⟩
  rw [happends]
  decide

/-- The second append comes after a call with an uncertain outcome. -/
theorem write_submissions_uncertain : ∃ s : Exchange Database,
    (Exchange.start (Membership.three.start .default ⟨0, 0⟩) rustNodes).run .default rustServices
      (.put "a" (.int 1)) 0 secondSubmission = some s ∧
    s.appends.length = 2 ∧ s.appends.length ≤ 1 + s.calls.countP RustCall.uncertain := by
  obtain ⟨s, hs, happends, -⟩ := run_secondSubmission
  have hbound := write_submissions Membership.three .default ⟨0, 0⟩ rustNodes rustServices (.put "a" (.int 1)) 0
    secondSubmission s hs
  exact ⟨s, hs, congrArg List.length happends, hbound.2.2.2.2⟩

end Concrete
end KvRaft
