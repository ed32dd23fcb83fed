import KvRaft.Raft.Acts
import KvRaft.Raft.Safety

/-! The known leader of a node, over whole runs with fixed membership: it did lead in the node's term, and
a command that is passed on from node to node meets a later term every time. -/

namespace KvRaft
open RaftNode hiding id
open ReplicatedLog

section General
variable [FloatText] {D : Type} [Storage D] [Bincode]

/-- In some state of the run, `l` leads in term `t`. -/
def Cluster.Ruled (config : Config) (c₀ : Cluster D) (as : List Action) (t : Nat) (l : NodeId) : Prop :=
  ∃ c n, Cluster.Visits config c₀ as c ∧ c.nodes l = some n ∧ n.role = .leader ∧ n.currentTerm = t

/-- Given the command `cmd`, the node does nothing but pass it on to `b`. -/
def RaftNode.Forwards (n : RaftNode D) (cmd : Command) (now : Instant) (b : NodeId) : Prop :=
  n.handleMessage (.clientCommand cmd) now = some { n with outbox := n.outbox ++ [(b, .clientCommand cmd)] }

section Hints
variable {R R' : Nat → NodeId → Prop} {input : Input} {now : Instant} {n n' : RaftNode D}

/-- The known leader is one that `R` has in the node's term, and it is the node itself only while that
leads; so is the leader named in a queued AppendEntries. -/
structure Hinted (R : Nat → NodeId → Prop) (n : RaftNode D) : Prop where
  leader : ∀ l, n.leaderId = some l → R n.currentTerm l ∧ (l = n.id → n.role = .leader)
  appends : ∀ dest ae, (dest, .appendEntries ae) ∈ n.outbox → R ae.term ae.leaderId

/-- The same inside a handler, where a node that has just become leader is not yet on record. -/
structure Hinting (R : Nat → NodeId → Prop) (input : Input) (n : RaftNode D) : Prop where
  leader : ∀ l, n.leaderId = some l → (n.role = .leader ∧ l = n.id) ∨ (l ≠ n.id ∧ R n.currentTerm l)
  appends : ∀ dest ae, (dest, .appendEntries ae) ∈ n.outbox → R ae.term ae.leaderId ∨
    (input.isAppend = false ∧ n.role = .leader ∧ ae.term = n.currentTerm ∧ ae.leaderId = n.id)

omit [FloatText] [Bincode] in
theorem Hinted.hinting (hn : Hinted R n) : Hinting R input n := by
  refine ⟨fun l hl => ?_, fun dest ae h => Or.inl (hn.appends dest ae h)⟩
  obtain ⟨hR, hself⟩ := hn.leader l hl
  by_cases h : l = n.id
  · exact Or.inl ⟨hself h, h⟩
  · exact Or.inr ⟨h, hR⟩

omit [FloatText] [Bincode] in
theorem Hinting.hinted (hn : Hinting R input n) (hR : ∀ t l, R t l → R' t l)
    (hlead : n.role = .leader → R' n.currentTerm n.id) : Hinted R' n := by
  refine ⟨fun l hl => ?_, fun dest ae h => ?_⟩
  · rcases hn.leader l hl with ⟨hr, rfl⟩ | ⟨hne, h⟩
    · exact ⟨hlead hr, fun _ => hr⟩
    · exact ⟨hR _ _ h, fun h => absurd h hne⟩
  · rcases hn.appends dest ae h with h | ⟨-, hr, ht, hid⟩
    · exact hR _ _ h
    · exact ht ▸ hid ▸ hlead hr

omit [FloatText] [Bincode] in
theorem Hinting.same (hn : Hinting R input n) (hid : n'.id = n.id) (ht : n'.currentTerm = n.currentTerm)
    (hr : n'.role = n.role) (hl : n'.leaderId = n.leaderId)
    (hout : ∀ e ∈ n'.outbox, e ∈ n.outbox ∨ e.isResponse) : Hinting R input n' := by
  refine ⟨fun l h => ?_, fun dest ae h => ?_⟩
  · rw [hr, hid, ht]
    exact hn.leader l (hl ▸ h)
  · rw [hr, hid, ht]
    rcases hout _ h with h | ⟨r, h⟩
    · exact hn.appends dest ae h
    · cases h

omit [FloatText] in
theorem Hinting.pushLogEntry (hn : Hinting R input n) (e : LogEntry) : Hinting R input (n.pushLogEntry e) :=
  hn.same rfl rfl rfl rfl fun _ h => Or.inl (pushLogEntry_outbox n e ▸ h)

omit [FloatText] [Bincode] in
theorem Hinting.truncateLog (hn : Hinting R input n) (i : Nat) : Hinting R input (n.truncateLog i) :=
  hn.same rfl rfl rfl rfl fun _ h => Or.inl (truncateLog_outbox n i ▸ h)

omit [FloatText] [Bincode] in
theorem applyNext_leaderId (hs : n.applyNext = some n') : n'.leaderId = n.leaderId := by
  obtain ⟨e, -, rfl⟩ := applyNext_eq_some hs
  have hpayload : (n.applyPayload e.payload).2.leaderId = n.leaderId := by
    cases e.payload with
    | _ => rfl
  rw [← hpayload]
  unfold RaftNode.resolvePending
  split
  · rfl
  · rfl

omit [FloatText] [Bincode] in
theorem Hinting.applyNext (hn : Hinting R input n) (hs : n.applyNext = some n') : Hinting R input n' := by
  obtain ⟨e, points, -, hk, -, hout⟩ := applyNext_kernel hs
  exact hn.same (congrArg Kernel.id hk) (congrArg Kernel.currentTerm hk) (congrArg Kernel.role hk)
    (applyNext_leaderId hs) hout

theorem Hinting.act (hn : Hinting R input n)
    (hin : ∀ ae, input = .message (.appendEntries ae) → R ae.term ae.leaderId ∧ ae.leaderId ≠ n.id)
    (ha : Act input now n n') : Hinting R input n' := by
  cases ha with
  | post he =>
    refine ⟨hn.leader, fun dest ae h => ?_⟩
    rcases List.mem_append.mp h with h | h
    · exact hn.appends dest ae h
    · cases he with
      | appendEntries hi hr hae =>
        -- only a leader sends entries, and under its own name
        obtain ⟨next, prev, -, -, -, rfl⟩ := makeAppendEntries_eq_some hae
        cases List.mem_singleton.mp h
        exact Or.inr ⟨hi, hr, rfl, rfl⟩
      | forward hi hm =>
        rcases hm with ⟨cmd, rfl⟩ | ⟨id, addr, rfl⟩ | ⟨id, rfl⟩
        · cases List.mem_singleton.mp h
        · cases List.mem_singleton.mp h
        · cases List.mem_singleton.mp h
      | _ => cases List.mem_singleton.mp h
  | respond responder => exact hn.same rfl rfl rfl rfl (Responder.send_outbox responder _ _ _ _ _ _ _ _ _)
  | @follow ae hi ht =>
    -- the sender is the leader of the term that the message carries
    obtain ⟨hR, hne⟩ := hin ae hi
    refine ⟨fun l h => ?_, fun dest x h => ?_⟩
    · obtain rfl := Option.some.inj h
      exact Or.inr ⟨hne, (ht ▸ hR : R n.currentTerm ae.leaderId)⟩
    · rcases hn.appends dest x h with h | ⟨hno, -⟩
      · exact Or.inl h
      · rw [hi] at hno
        cases hno
  | lead hr hq =>
    refine ⟨fun l h => Or.inl ⟨rfl, (Option.some.inj h).symm⟩, fun dest ae h => ?_⟩
    rcases hn.appends dest ae h with h | ⟨-, hl, -⟩
    · exact Or.inl h
    · exact nomatch hr.symm.trans hl
  | push => exact hn.pushLogEntry _
  | replace => exact (hn.truncateLog _).pushLogEntry _
  | settle _ _ _ hs =>
    refine (applyCommittedEntries_induct hs (I := Hinting R input) ?_ fun b b' hb _ _ happ => hb.applyNext happ).1
    exact hn.same rfl rfl rfl rfl fun _ h => Or.inl h
  | _ => exact hn.same rfl rfl rfl rfl fun _ h => Or.inl h

theorem Hinted.process (hn : Hinted R n)
    (hin : ∀ ae, input = .message (.appendEntries ae) → R ae.term ae.leaderId ∧ ae.leaderId ≠ n.id)
    (hs : n.process input now = some n') : Hinting R input n' := by
  obtain ⟨b, hb, hacts⟩ := process_acts input now hs
  have hid := process_id input now hs
  have hopen : Hinted R (n.opening input now) := by
    unfold RaftNode.opening
    dsimp only
    split_ifs
    · exact ⟨fun l h => (nomatch h), hn.appends⟩
    · exact ⟨hn.leader, hn.appends⟩
  have hb : Hinting R input b := by
    rcases hb with rfl | ⟨t, -, -, rfl⟩
    · exact hopen.hinting
    · refine ⟨fun l h => (nomatch h), fun dest ae h => ?_⟩
      rcases stepDown_outbox _ t now _ h with h | ⟨r, h⟩
      · exact Or.inl (hopen.appends dest ae h)
      · cases h
  clear hs
  induction hacts with
  | refl => exact hb
  | tail _ hlast ih => exact (ih (hlast.id_eq.symm.trans hid)).act (hlast.id_eq.symm.trans hid ▸ hin) hlast

theorem process_term_le (hs : n.process input now = some n') : n.currentTerm ≤ n'.currentTerm := by
  obtain ⟨b, hb, hacts⟩ := process_acts input now hs
  have hopen : n.currentTerm ≤ (n.opening input now).currentTerm := by
    unfold RaftNode.opening
    dsimp only
    split_ifs
    · exact Nat.le_succ _
    · exact le_rfl
  rw [hacts.currentTerm_eq]
  rcases hb with rfl | ⟨t, -, ht, rfl⟩
  · exact hopen
  · exact hopen.trans ht.le

theorem forwards_iff {cmd : Command} {b : NodeId} :
    n.Forwards cmd now b ↔ n.role ≠ .leader ∧ n.leaderId = some b := by
  rw [RaftNode.Forwards, RaftNode.handleMessage]
  split_ifs with hr
  · refine iff_of_false (fun h => ?_) fun h => h.1 hr
    obtain ⟨⟨m, index⟩, hm, heq⟩ := Option.map_eq_some_iff.mp h
    have hlog := (appendCommand_log hm).2
    rw [show m = _ from heq] at hlog
    exact absurd (congrArg List.length hlog) (by simp)
  · rw [RaftNode.forward]
    cases hl : n.leaderId with
    | none =>
      refine iff_of_false (fun h => ?_) fun h => Option.some_ne_none b h.2.symm
      have hout : n.outbox = n.outbox ++ [(b, .clientCommand cmd)] :=
        congrArg RaftNode.outbox (Option.some.inj h)
      exact absurd (congrArg List.length hout) (by simp)
    | some l =>
      constructor
      · intro h
        have hout : n.outbox ++ [(l, .clientCommand cmd)] = n.outbox ++ [(b, .clientCommand cmd)] :=
          congrArg RaftNode.outbox (Option.some.inj h)
        have hmem := List.append_cancel_left hout
        exact ⟨hr, congrArg some (by simpa using hmem)⟩
      · rintro ⟨-, h⟩
        rw [Option.some.inj h]

end Hints

section Runs
variable {M : Membership} {config : Config} {now : Instant} {as : List Action} {c c' : Cluster D}
  {R R' : Nat → NodeId → Prop} {a : State NodeId LogEntry}

structure HintsOk (R : Nat → NodeId → Prop) (c : Cluster D) : Prop where
  nodes : ∀ i n, c.nodes i = some n → Hinted R n
  network : ∀ dest ae, (dest, .appendEntries ae) ∈ c.network → R ae.term ae.leaderId
  past : ∀ t l n, R t l → c.nodes l = some n → t ≤ n.currentTerm

omit [FloatText] [Bincode] in
theorem HintsOk.setNode {id : NodeId} {n n' : RaftNode D} (hc : HintsOk R c) (hn : c.nodes id = some n)
    (hle : n.currentTerm ≤ n'.currentTerm) (hn' : Hinted R' n') (hR : ∀ t l, R t l → R' t l)
    (hnew : ∀ t l, R' t l → R t l ∨ ∃ m, (c.setNode id n').nodes l = some m ∧ m.currentTerm = t) :
    HintsOk R' (c.setNode id n') := by
  refine ⟨fun i m hm => ?_, fun dest ae h => hR _ _ (hc.network dest ae h), fun t l m hRl hm => ?_⟩
  · rcases Cluster.nodes_setNode hm with ⟨rfl, rfl⟩ | ⟨-, hm⟩
    · exact hn'
    · obtain ⟨hlead, hout⟩ := hc.nodes i m hm
      exact ⟨fun l hl => ⟨hR _ _ (hlead l hl).1, (hlead l hl).2⟩, fun dest ae h => hR _ _ (hout dest ae h)⟩
  · rcases hnew t l hRl with hold | ⟨m', hm', rfl⟩
    · rcases Cluster.nodes_setNode hm with ⟨rfl, rfl⟩ | ⟨-, hm⟩
      · exact (hc.past t l n hold hn).trans hle
      · exact hc.past t l m hold hm
    · exact (Option.some.inj (hm.symm.trans hm') ▸ le_rfl)

theorem HintsOk.step (hc : HintsOk R c) (hok : ClusterOk M config c a) {x : Action} (hx : x.inMemory = true)
    (hs : Cluster.step config c x = some c') (hR : ∀ t l, R t l → R' t l)
    (hlead : ∀ l n, c'.nodes l = some n → n.role = .leader → R' n.currentTerm l)
    (hnew : ∀ t l, R' t l → R t l ∨ ∃ m, c'.nodes l = some m ∧ m.currentTerm = t) : HintsOk R' c' := by
  cases x with
  | process id input now =>
    obtain ⟨n, hn, hav, n', hn', rfl⟩ := Cluster.step_process.mp hs
    have hid : n.id = id := (hok.nodes id n hn).id_eq
    have hin : ∀ ae, input = .message (.appendEntries ae) → R ae.term ae.leaderId ∧ ae.leaderId ≠ n.id := by
      rintro ae rfl
      obtain ⟨L, -, hne, -⟩ := hok.delivered hx hav rfl
      exact ⟨hc.network id ae (of_decide_eq_true hav), hid ▸ hne.symm⟩
    refine hc.setNode hn (process_term_le hn') ?_ hR hnew
    refine ((hc.nodes id n hn).process hin hn').hinted hR fun hr => ?_
    rw [process_id input now hn', hid]
    exact hlead id n' (c.setNode_self id n') hr
  | restart id now =>
    obtain ⟨n, hn, rfl⟩ := Cluster.step_restart.mp hs
    exact hc.setNode hn le_rfl ⟨fun l h => (nomatch h), fun dest ae h => nomatch h⟩ hR hnew
  | flush id =>
    obtain ⟨n, hn, rfl⟩ := Cluster.step_flush.mp hs
    have hnode := hc.nodes id n hn
    -- the queue is now on the network
    have hquiet : Hinted R' { n with outbox := [] } :=
      ⟨fun l hl => ⟨hR _ _ (hnode.leader l hl).1, (hnode.leader l hl).2⟩, fun dest ae h => nomatch h⟩
    have hle : n.currentTerm ≤ ({ n with outbox := [] } : RaftNode D).currentTerm := le_rfl
    obtain ⟨hnodes, hnet, hpast⟩ := hc.setNode hn hle hquiet hR hnew
    refine ⟨hnodes, fun dest ae h => ?_, hpast⟩
    rcases List.mem_append.mp h with h | h
    · exact hnet dest ae h
    · exact hR _ _ (hnode.appends dest ae (List.mem_filter.mp h).1)
  | crash => cases hx
  | join => cases hx

theorem HintsOk.start (hR : ∀ t l, R t l → ∃ n, (M.start config now : Cluster D).nodes l = some n ∧ n.currentTerm = t) :
    HintsOk R (M.start config now : Cluster D) := by
  constructor
  · intro i n hn
    change (if i ∈ M.members then _ else _) = _ at hn
    split_ifs at hn
    rw [RaftNode.newInDir] at hn
    dsimp only at hn
    split at hn
    · cases hn
    · obtain rfl := Option.some.inj hn
      constructor
      · intro l h
        cases h
      · intro dest ae h
        cases h
  · intro dest ae h
    cases h
  · intro t l n hRl hn
    obtain ⟨m, hm, rfl⟩ := hR t l hRl
    exact Option.some.inj (hn.symm.trans hm) ▸ le_rfl

theorem Cluster.Visits.append {bs : List Action} {c₀ : Cluster D} (h : Cluster.Visits config c₀ as c) :
    Cluster.Visits config c₀ (as ++ bs) c := by
  obtain ⟨before, after, rfl, hb⟩ := h
  exact ⟨before, after ++ bs, List.append_assoc .., hb⟩

theorem Cluster.visits_concat {x : Action} {c₀ : Cluster D} (h : Cluster.Visits config c₀ (as ++ [x]) c) :
    Cluster.Visits config c₀ as c ∨ Cluster.exec config c₀ (as ++ [x]) = some c := by
  obtain ⟨before, after, heq, hb⟩ := h
  rcases List.prefix_concat_iff.mp ⟨after, heq.symm⟩ with rfl | ⟨rest, hrest⟩
  · exact Or.inr hb
  · exact Or.inl ⟨before, rest, hrest.symm, hb⟩

theorem hintsOk_of_exec (has : ∀ x ∈ as, x.inMemory = true)
    (hc : Cluster.exec config (M.start config now) as = some c) :
    HintsOk (Cluster.Ruled config (M.start config now : Cluster D) as) c := by
  induction as using List.reverseRecOn generalizing c with
  | nil =>
    obtain rfl := Option.some.inj hc
    apply HintsOk.start
    rintro t l ⟨c, n, ⟨before, after, heq, hb⟩, hn, -, ht⟩
    obtain ⟨rfl, -⟩ := List.append_eq_nil_iff.mp heq.symm
    obtain rfl := Option.some.inj hb
    exact ⟨n, hn, ht⟩
  | append_singleton as x ih =>
    obtain ⟨c₁, hc₁, hs⟩ := (Cluster.exec_concat config).mp hc
    have has₁ : ∀ y ∈ as, y.inMemory = true := fun y hy => has y (List.mem_append_left _ hy)
    obtain ⟨a, ha⟩ := clusterOk_of_exec M config now has₁ hc₁
    refine (ih has₁ hc₁).step ha (has x (by simp)) hs ?_ (fun l n hn hr => ?_) ?_
    · rintro t l ⟨b, n, hb, h⟩
      exact ⟨b, n, hb.append, h⟩
    · exact ⟨c, n, ⟨_, [], (List.append_nil _).symm, hc⟩, hn, hr, rfl⟩
    · rintro t l ⟨b, n, hb, hn, hr, ht⟩
      rcases Cluster.visits_concat hb with hb | hb
      · exact Or.inl ⟨b, n, hb, hn, hr, ht⟩
      · obtain rfl := Option.some.inj (hc.symm.trans hb)
        exact Or.inr ⟨n, hn, ht⟩

theorem Cluster.Ruled.mono {c₀ : Cluster D} {t : Nat} {l : NodeId}
    (h : Cluster.Ruled config c₀ as t l) (bs : List Action) : Cluster.Ruled config c₀ (as ++ bs) t l := by
  obtain ⟨c, n, hc, h⟩ := h
  exact ⟨c, n, hc.append, h⟩

theorem Cluster.Ruled.unique (has : ∀ x ∈ as, x.inMemory = true) {t : Nat} {l l' : NodeId}
    (h : Cluster.Ruled config (M.start config now : Cluster D) as t l)
    (h' : Cluster.Ruled config (M.start config now : Cluster D) as t l') : l = l' := by
  obtain ⟨c, n, hc, hn, hr, rfl⟩ := h
  obtain ⟨c', n', hc', hn', hr', ht⟩ := h'
  obtain ⟨a, a', ha, ha', hext⟩ := clusterOk_of_visits M config now has hc hc'
  have hled : a.led n.currentTerm = some (l, n.log) := ((ha.nodes l n hn).sim.leader hr).1
  have hled' : a'.led n.currentTerm = some (l', n'.log) := ht ▸ ((ha'.nodes l' n' hn').sim.leader hr').1
  rcases hext with hext | hext
  · obtain ⟨L, hL, -⟩ := hext.led _ _ _ hled
    exact (Prod.mk.inj (Option.some.inj (hL.symm.trans hled'))).1
  · obtain ⟨L, hL, -⟩ := hext.led _ _ _ hled'
    exact (Prod.mk.inj (Option.some.inj (hled.symm.trans hL))).1

/-- A hint is of a leader that the run has had in the node's term, before or right then. And when a node
that was passed a command by `a` passes it on in its turn, its term is later than that of `a` was. -/
theorem leader_hints_sound (M : Membership) (config : Config) (now : Instant) {as : List Action}
    (has : ∀ x ∈ as, x.inMemory = true) :
    (∀ (c : Cluster D) i n l, Cluster.Visits config (M.start config now) as c → c.nodes i = some n →
      n.leaderId = some l → ∃ c₁ m, Cluster.VisitsInOrder config (M.start config now) as c₁ c ∧
        c₁.nodes l = some m ∧ m.role = .leader ∧ m.currentTerm = n.currentTerm) ∧
    ∀ (c₁ c₂ : Cluster D) i j k n m cmd at₁ at₂, Cluster.VisitsInOrder config (M.start config now) as c₁ c₂ →
      c₁.nodes i = some n → c₂.nodes j = some m → n.Forwards cmd at₁ j → m.Forwards cmd at₂ k →
      n.currentTerm < m.currentTerm := by
  refine ⟨fun c i n l hc hn hl => ?_, fun c₁ c₂ i j k n m cmd at₁ at₂ hc hn hm hf hf' => ?_⟩
  · obtain ⟨before, after, rfl, hb⟩ := hc
    have hok := hintsOk_of_exec (fun x hx => has x (List.mem_append_left _ hx)) hb
    obtain ⟨c₁, m, ⟨p, q, rfl, hp⟩, hm, hr, ht⟩ := ((hok.nodes i n hn).leader l hl).1
    rw [Cluster.exec_append, hp, Option.bind_some] at hb
    exact ⟨c₁, m, ⟨p, q, after, rfl, hp, hb⟩, hm, hr, ht⟩
  · obtain ⟨before, between, after, rfl, hb, hb'⟩ := hc
    obtain ⟨-, hl⟩ := forwards_iff.mp hf
    obtain ⟨hr', hl'⟩ := forwards_iff.mp hf'
    have hall : Cluster.exec config (M.start config now) (before ++ between) = some c₂ := by
      rw [Cluster.exec_append, hb, Option.bind_some, hb']
    have hact : ∀ x ∈ before ++ between, x.inMemory = true := fun x hx => has x (List.mem_append_left _ hx)
    have hok := hintsOk_of_exec (fun x hx => hact x (List.mem_append_left _ hx)) hb
    have hok' := hintsOk_of_exec hact hall
    -- `j` led in the term of the first hop, so it cannot know of another leader of that term.
    have hled := (((hok.nodes i n hn).leader j hl).1).mono between
    obtain ⟨hled', hself⟩ := (hok'.nodes j m hm).leader k hl'
    obtain ⟨a, ha⟩ := clusterOk_of_exec M config now hact hall
    have hid : m.id = j := (ha.nodes j m hm).id_eq
    refine lt_of_le_of_ne (hok'.past _ _ _ hled hm) fun heq => ?_
    have hkj : k = j := Cluster.Ruled.unique hact hled' (heq ▸ hled)
    exact hr' (hself (hkj.trans hid.symm))

end Runs
end General

section Concrete
open scoped Concrete

/-- Node 2 passes a command on to the leader of term 1, and that node, when it has learnt of term 2, passes
it back. -/
theorem leader_hints_sound_two_hops : ∃ (c₁ c₂ : Cluster Database) (n m : RaftNode Database),
    Cluster.exec .default (Membership.three.start .default ⟨0, 0⟩) (firstCommit ⟨0, 0⟩) = some c₁ ∧
    Cluster.exec .default c₁ (secondElection ⟨0, 0⟩ ++
      [.flush 2, .process 1 (.message (.appendEntries ⟨2, 2, 1, 1, [], 0⟩)) ⟨0, 0⟩]) = some c₂ ∧
    c₁.nodes 2 = some n ∧ c₂.nodes 1 = some m ∧ n.Forwards (.delete "a") ⟨0, 0⟩ 1 ∧
    m.Forwards (.delete "a") ⟨0, 0⟩ 2 ∧ n.currentTerm < m.currentTerm := by
  have hrun : ((Cluster.exec .default (Membership.three.start .default ⟨0, 0⟩ : Cluster Database)
      (firstCommit ⟨0, 0⟩)).bind fun c₁ => (c₁.nodes 2).bind fun n =>
        (Cluster.exec .default c₁ (secondElection ⟨0, 0⟩ ++
          [.flush 2, .process 1 (.message (.appendEntries ⟨2, 2, 1, 1, [], 0⟩)) ⟨0, 0⟩])).bind fun c₂ =>
          (c₂.nodes 1).map fun m => ((n.role, n.leaderId), m.role, m.leaderId)) =
      some ((.follower, some 1), .follower, some 2) := by
    decide +kernel
  obtain ⟨c₁, hc₁, hrun⟩ := Option.bind_eq_some_iff.mp hrun
  obtain ⟨n, hn, hrun⟩ := Option.bind_eq_some_iff.mp hrun
  obtain ⟨c₂, hc₂, hrun⟩ := Option.bind_eq_some_iff.mp hrun
  obtain ⟨m, hm, hrun⟩ := Option.map_eq_some_iff.mp hrun
  simp only [Prod.mk.injEq] at hrun
  obtain ⟨⟨hr, hl⟩, hr', hl'⟩ := hrun
  have hfirst : n.Forwards (.delete "a") ⟨0, 0⟩ 1 := forwards_iff.mpr ⟨by simp [hr], hl⟩
  have hsecond : m.Forwards (.delete "a") ⟨0, 0⟩ 2 := forwards_iff.mpr ⟨by simp [hr'], hl'⟩
  refine ⟨c₁, c₂, n, m, hc₁, hc₂, hn, hm, hfirst, hsecond, ?_⟩
  exact (leader_hints_sound Membership.three .default ⟨0, 0⟩ (by decide)).2 c₁ c₂ 2 1 2 n m (.delete "a") ⟨0, 0⟩
    ⟨0, 0⟩ ⟨_, _, [], (List.append_nil _).symm, hc₁, hc₂⟩ hn hm hfirst hsecond

end Concrete
end KvRaft
