import KvRaft.Lib.Fold
import KvRaft.Sim.Chaos
import KvRaft.Lsm.NodeStorage
import KvRaft.Raft.BincodeFormat

/-! A crashed node in the simulator: whatever operations follow and whatever faults come due, it stays as it
is and puts nothing into the network until it is enabled or restarted. The one exception is a command that
is submitted to it while it is leader. -/

namespace KvRaft.Simulator

section Deferred

theorem flatMap_erase_perm (m : AList fun _ : NodeId => List Event) (id : NodeId) :
    (m.entries.flatMap fun p => p.2).Perm
      ((m.lookup id).getD [] ++ (m.erase id).entries.flatMap fun p => p.2) := by
  by_cases hid : id ∈ m
  · obtain ⟨l, before, after, -, hentries, herase⟩ := List.exists_of_kerase (AList.mem_keys.mp hid)
    have hlookup : m.lookup id = some l := by
      apply AList.mem_lookup_iff.mpr
      simp [hentries]
    have herase' : (m.erase id).entries = before ++ after := herase
    rw [hlookup, herase', hentries, Option.getD_some]
    simp only [List.flatMap_append, List.flatMap_cons, ← List.append_assoc]
    exact List.perm_append_comm.append_right _
  · have herase : (m.erase id).entries = m.entries := List.kerase_of_notMem_keys hid
    simp [AList.lookup_eq_none.mpr hid, herase]

theorem insert_deferred_perm (m : AList fun _ : NodeId => List Event) (event : Event) :
    ((m.insert event.dest ((m.lookup event.dest).getD [] ++ [event])).entries.flatMap fun p => p.2).Perm
      (event :: m.entries.flatMap fun p => p.2) := by
  rw [AList.entries_insert, List.flatMap_cons, List.append_assoc, List.singleton_append]
  exact List.perm_middle.trans ((flatMap_erase_perm m event.dest).symm.cons event)

end Deferred

namespace Mark
variable {D : Type}

def revives (id : NodeId) : Mark D → Bool
  | .revived target => target = id
  | _ => false

/-- A command was submitted to the node while it was crashed and its role was leader. -/
def strays (id : NodeId) : Mark D → Bool
  | .submitted target true (some .leader) => target = id
  | _ => false

end Mark

/-- Nothing on record revives the node or is submitted to it as a crashed leader. -/
def Quiet {D : Type} (id : NodeId) (marks : List (Mark D)) : Prop :=
  ∀ m ∈ marks, m.revives id = false ∧ m.strays id = false

theorem quiet_append {D : Type} {id : NodeId} {a b : List (Mark D)} :
    Quiet id (a ++ b) ↔ Quiet id a ∧ Quiet id b := List.forall_mem_append

theorem Quiet.ne_of_revived {D : Type} {id target : NodeId} (h : Quiet id [(.revived target : Mark D)]) :
    id ≠ target := by
  rintro rfl
  simpa [Mark.revives] using (h _ (List.mem_singleton_self _)).1

namespace Simulation
variable {D : Type} [Storage D] {s s' s'' : Simulation D} {id target : NodeId}

/-- The node is crashed, is as it was, and has sent nothing since. -/
structure Holds (s : Simulation D) (id : NodeId) (was : Snapshot D) : Prop where
  disabled : id ∈ s.disabledNodes
  vitals : s.vitals id = was.vitals
  sent : s.sentBy id ≤ was.sent

/-- A crashed node comes out of a step as it went in. -/
def Calm (id : NodeId) (s s' : Simulation D) : Prop :=
  id ∈ s.disabledNodes → id ∈ s'.disabledNodes ∧ s'.vitals id = s.vitals id ∧ s'.sentBy id ≤ s.sentBy id

theorem Calm.holds (h : Calm id s s') {was : Snapshot D} (hs : s.Holds id was) : s'.Holds id was := by
  obtain ⟨hdis, hvit, hsent⟩ := h hs.disabled
  exact ⟨hdis, hvit.trans hs.vitals, hsent.trans hs.sent⟩

/-- A part of a run keeps the node as it was at the start, if it was crashed then, and at every crash
within, as long as the record is quiet from there on. -/
def Keeps (id : NodeId) (s s' : Simulation D) : Prop :=
  ∃ new, s'.marks = s.marks ++ new ∧
    (∀ was, s.Holds id was → Quiet id new → s'.Holds id was) ∧
    ∀ before was after, new = before ++ .crashed id was :: after → Quiet id after → s'.Holds id was

theorem Keeps.silent (hmarks : s'.marks = s.marks) (h : Calm id s s') : Keeps id s s' :=
  ⟨[], by simpa using hmarks, fun _ hs _ => h.holds hs, by simp⟩

theorem Keeps.frame (hmarks : s'.marks = s.marks) (hdis : s'.disabledNodes = s.disabledNodes)
    (hnodes : s'.nodes = s.nodes) (hsent : s'.sentBy id = s.sentBy id) : Keeps id s s' := by
  refine .silent hmarks fun hid => ⟨hdis ▸ hid, ?_, hsent.le⟩
  rw [vitals, vitals, hnodes]

theorem Keeps.refl (s : Simulation D) : Keeps id s s := .frame rfl rfl rfl rfl

theorem Keeps.marked {m : Mark D} (hmarks : s'.marks = s.marks ++ [m]) (hm : ∀ was, m ≠ .crashed id was)
    (h : Quiet id [m] → Calm id s s') : Keeps id s s' := by
  refine ⟨[m], hmarks, fun _ hs hq => (h hq).holds hs, fun before was after hsplit _ => ?_⟩
  have hmem : .crashed id was ∈ [m] := by simp [hsplit]
  exact absurd (List.mem_singleton.mp hmem).symm (hm was)

theorem Keeps.trans (h : Keeps id s s') (h' : Keeps id s' s'') : Keeps id s s'' := by
  obtain ⟨new, hmarks, hold, hcrash⟩ := h
  obtain ⟨new', hmarks', hold', hcrash'⟩ := h'
  refine ⟨new ++ new', by rw [hmarks', hmarks, List.append_assoc], fun was hs hq => ?_, ?_⟩
  · obtain ⟨hq, hq'⟩ := quiet_append.mp hq
    exact hold' was (hold was hs hq) hq'
  · intro before was after hsplit hq
    -- the crash lies in the first part or in the second
    rcases List.append_eq_append_iff.mp hsplit with ⟨mid, hbefore, hnew'⟩ | ⟨mid, hnew, hrest⟩
    · exact hcrash' mid was after hnew' hq
    · cases mid with
      | nil =>
        rw [List.nil_append] at hrest
        exact hcrash' [] was after hrest.symm hq
      | cons m mid =>
        obtain ⟨rfl, rfl⟩ := List.cons.inj hrest
        obtain ⟨hq, hq'⟩ := quiet_append.mp hq
        exact hold' was (hcrash before was mid hnew hq) hq'

theorem Keeps.foldl {α : Type} {f : Simulation D → α → Simulation D} (h : ∀ s x, Keeps id s (f s x)) (l : List α)
    (s : Simulation D) : Keeps id s (l.foldl f s) := by
  induction l generalizing s with
  | nil => exact .refl s
  | cons x l ih => exact (h s x).trans (ih _)

theorem Keeps.foldlM {α : Type} {f : Simulation D → α → Option (Simulation D)}
    (h : ∀ s x s', f s x = some s' → Keeps id s s') {l : List α} (hs : l.foldlM f s = some s') :
    Keeps id s s' :=
  Fold.foldlM_invariant (P := Keeps id s) hs (.refl s) fun b x b' _ hb hx => hb.trans (h b x b' hx)

/-! Sending. -/

structure Routes (sender : NodeId) (s s' : Simulation D) : Prop where
  marks : s'.marks = s.marks
  disabled : s'.disabledNodes = s.disabledNodes
  nodes : s'.nodes = s.nodes
  sent : ∀ id, id ≠ sender → s'.sentBy id = s.sentBy id

theorem Routes.trans (h : Routes target s s') (h' : Routes target s' s'') : Routes target s s'' where
  marks := h'.marks.trans h.marks
  disabled := h'.disabled.trans h.disabled
  nodes := h'.nodes.trans h.nodes
  sent id hid := (h'.sent id hid).trans (h.sent id hid)

theorem routes_setPolicy (s : Simulation D) (link : NodeId × NodeId) (policy : LinkFaultPolicy) :
    Routes target s (s.setPolicy link policy) := ⟨rfl, rfl, rfl, fun _ _ => rfl⟩

variable [Platform]

theorem routes_checkInstant (s : Simulation D) (instant : Nat) : Routes target s (s.checkInstant instant) :=
  ⟨rfl, rfl, rfl, fun _ _ => rfl⟩

omit [Platform] in
theorem routes_pushEvent (s : Simulation D) (deliverAt : Nat) (e : Envelope) :
    Routes target s (s.pushEvent deliverAt target e) where
  marks := rfl
  disabled := rfl
  nodes := rfl
  sent id hid := by
    simp [sentBy, pushEvent, deferred, Event.parcel, Ne.symm hid]

theorem routes_routeMessage (s : Simulation D) (e : Envelope) : Routes target s (routeMessage target s e) := by
  have hrefl : Routes target s s := ⟨rfl, rfl, rfl, fun _ _ => rfl⟩
  unfold routeMessage
  split_ifs
  · exact hrefl
  · exact hrefl
  · split
    · exact routes_pushEvent ..
    · split_ifs
      · exact routes_setPolicy ..
      · exact (routes_checkInstant ..).trans ((routes_setPolicy ..).trans ((routes_checkInstant ..).trans
          ((routes_pushEvent ..).trans (routes_pushEvent ..))))
      · exact (routes_checkInstant ..).trans (routes_pushEvent ..)

theorem routes_outbox (outbox : List Envelope) (s : Simulation D) :
    Routes target s (outbox.foldl (routeMessage target) s) := by
  induction outbox generalizing s with
  | nil => exact ⟨rfl, rfl, rfl, fun _ _ => rfl⟩
  | cons e outbox ih => exact (routes_routeMessage s e).trans (ih _)

omit [Platform] in
theorem clearOutbox_vitals (s : Simulation D) (target id : NodeId) :
    (s.clearOutbox target).vitals id = s.vitals id := by
  unfold clearOutbox
  split
  · rfl
  · next node hnode =>
    by_cases hid : id = target
    · subst hid
      simp [vitals, hnode]
    · simp [vitals, AList.lookup_insert_ne hid]

omit [Platform] in
theorem clearOutbox_frame (s : Simulation D) (target : NodeId) :
    (s.clearOutbox target).marks = s.marks ∧ (s.clearOutbox target).disabledNodes = s.disabledNodes ∧
      ∀ id, (s.clearOutbox target).sentBy id = s.sentBy id := by
  unfold clearOutbox
  split
  · exact ⟨rfl, rfl, fun _ => rfl⟩
  · exact ⟨rfl, rfl, fun _ => rfl⟩

omit [Platform] in
theorem clearOutbox_calm (s : Simulation D) (target : NodeId) : Calm id s (s.clearOutbox target) := by
  obtain ⟨-, hdis, hsent⟩ := clearOutbox_frame s target
  exact fun h => ⟨hdis ▸ h, clearOutbox_vitals s target id, (hsent id).le⟩

theorem flushNodeOutbox_keeps (s : Simulation D) (target : NodeId) : Keeps id s (s.flushNodeOutbox target) := by
  obtain ⟨hmarks, hdis, hsent⟩ := clearOutbox_frame s target
  unfold flushNodeOutbox
  split_ifs with hdisabled
  · exact .silent hmarks (clearOutbox_calm s target)
  · exact .refl s
  · split
    · exact .refl s
    · next node _ =>
      have hroutes : Routes target (s.clearOutbox target) _ := routes_outbox node.outbox _
      refine .silent (hroutes.marks.trans hmarks) fun hid => ⟨?_, ?_, ?_⟩
      · rwa [hroutes.disabled, hdis]
      · rw [vitals, hroutes.nodes]
        exact clearOutbox_vitals s target id
      · -- the sender is running, so it is not the crashed node
        have hne : id ≠ target := fun heq => hdisabled (heq ▸ hid)
        rw [hroutes.sent id hne, hsent]

/-! Nodes and links. -/

theorem callNode_frame {call : RaftNode D → Instant → Option (RaftNode D)}
    (h : s.callNode target call = some s') :
    s'.marks = s.marks ∧ s'.disabledNodes = s.disabledNodes ∧ (∀ id, s'.sentBy id = s.sentBy id) ∧
      ∀ id, id ≠ target → s'.vitals id = s.vitals id := by
  unfold callNode at h
  split at h
  · cases h
    exact ⟨rfl, rfl, fun _ => rfl, fun _ _ => rfl⟩
  · obtain ⟨node', -, rfl⟩ := Option.map_eq_some_iff.mp h
    exact ⟨rfl, rfl, fun _ => rfl, fun id hid => by simp [vitals, checkInstant, AList.lookup_insert_ne hid]⟩

theorem callNode_calm {call : RaftNode D → Instant → Option (RaftNode D)}
    (h : s.callNode target call = some s') (hne : id ∈ s.disabledNodes → id ≠ target) : Calm id s s' := by
  obtain ⟨-, hdis, hsent, hvit⟩ := callNode_frame h
  exact fun hid => ⟨hdis ▸ hid, hvit id (hne hid), (hsent id).le⟩

theorem callNode_flush_keeps {call : RaftNode D → Instant → Option (RaftNode D)}
    (hrunning : target ∉ s.disabledNodes)
    (h : (s.callNode target call).map (·.flushNodeOutbox target) = some s') : Keeps id s s' := by
  obtain ⟨s₁, hcall, rfl⟩ := Option.map_eq_some_iff.mp h
  have hcalm : Calm id s s₁ := callNode_calm hcall fun hid heq => hrunning (heq ▸ hid)
  exact (Keeps.silent (callNode_frame hcall).1 hcalm).trans (flushNodeOutbox_keeps s₁ target)

omit [Platform] in
/-- The crash itself: the node is put on record as it stands. -/
theorem disableNode_keeps (s : Simulation D) (target : NodeId) : Keeps id s (s.disableNode target) := by
  unfold disableNode
  generalize hs₁ : ({ s with disabledNodes := insert target s.disabledNodes } : Simulation D).clearOutbox target = s₁
  obtain ⟨hmarks, hdis, hsent⟩ :=
    clearOutbox_frame ({ s with disabledNodes := insert target s.disabledNodes } : Simulation D) target
  have hvit := clearOutbox_vitals ({ s with disabledNodes := insert target s.disabledNodes } : Simulation D) target
  rw [hs₁] at hmarks hdis hsent hvit
  have hmem : ∀ i, i = target ∨ i ∈ s.disabledNodes → i ∈ s₁.disabledNodes := by
    intro i hi
    simpa [hdis] using hi
  refine ⟨[.crashed target (s₁.snapshot target)], by simp [mark, hmarks], fun was hs _ => ?_, ?_⟩
  · exact ⟨hmem id (.inr hs.disabled), (hvit id).trans hs.vitals, (hsent id).le.trans hs.sent⟩
  · intro before was after hsplit _
    have hcrash : Mark.crashed id was ∈ [Mark.crashed target (s₁.snapshot target)] := by simp [hsplit]
    obtain ⟨rfl, rfl⟩ := Mark.crashed.inj (List.mem_singleton.mp hcrash)
    exact ⟨hmem id (.inl rfl), rfl, le_rfl⟩

omit [Platform] in
theorem enableNode_keeps (s : Simulation D) (target : NodeId) : Keeps id s (s.enableNode target) := by
  apply Keeps.marked (m := .revived target) rfl (fun _ => by simp)
  intro hquiet hid
  have hne := hquiet.ne_of_revived
  exact ⟨Finset.mem_erase.mpr ⟨hne, hid⟩, rfl, le_rfl⟩

theorem restartNode_keeps (h : s.restartNode target = some s') : Keeps id s s' := by
  unfold restartNode at h
  obtain ⟨hmarks, hdis, hsent, hvit⟩ := callNode_frame h
  have hmarks' : s'.marks = s.marks ++ [.revived target] := hmarks
  apply Keeps.marked hmarks' (fun _ => by simp)
  intro hquiet hid
  have hne := hquiet.ne_of_revived
  refine ⟨?_, (hvit id hne).trans rfl, ?_⟩
  · rw [hdis]
    exact Finset.mem_erase.mpr ⟨hne, hid⟩
  · rw [hsent]
    -- what was deferred for the restarted node is lost
    have hsub : ((s.pausedEvents.erase target).entries.flatMap fun p => p.2).Sublist s.deferred :=
      (List.kerase_sublist target _).flatMap _
    apply Multiset.filter_le_filter
    apply Multiset.coe_le.mpr
    exact ((hsub.append_left s.events).map Event.parcel).subperm

omit [Platform] in
theorem pauseNode_keeps (s : Simulation D) (target : NodeId) : Keeps id s (s.pauseNode target) :=
  .frame rfl rfl rfl rfl

theorem resumeNode_keeps (s : Simulation D) (target : NodeId) : Keeps id s (s.resumeNode target) := by
  unfold resumeNode
  refine Keeps.trans (.silent ?_ fun hid => ⟨?_, ?_, ?_⟩) (flushNodeOutbox_keeps _ target)
  · rfl
  · exact hid
  · rfl
  · -- the events that were put off are back in the network, and nothing else is
    have hperm := (flatMap_erase_perm s.pausedEvents target).map Event.parcel
    have hparcels : ((s.pausedEvents.lookup target).getD []).map
        (fun e => Event.parcel { e with deliverAt := s.clock }) =
          ((s.pausedEvents.lookup target).getD []).map Event.parcel := rfl
    apply Multiset.filter_le_filter
    apply Multiset.coe_le.mpr
    apply List.Perm.subperm
    simp only [deferred, List.map_append, List.map_map, Function.comp_def, hparcels] at hperm ⊢
    rw [List.append_assoc]
    exact (List.perm_append_comm_assoc ..).trans (hperm.symm.append_left _)

omit [Platform] in
theorem blockLink_keeps (s : Simulation D) (sender dest : NodeId) : Keeps id s (s.blockLink sender dest) :=
  .frame rfl rfl rfl rfl

omit [Platform] in
theorem unblockLink_keeps (s : Simulation D) (sender dest : NodeId) : Keeps id s (s.unblockLink sender dest) :=
  .frame rfl rfl rfl rfl

omit [Platform] in
theorem partition_keeps (s : Simulation D) (groupA groupB : List NodeId) :
    Keeps id s (s.partition groupA groupB) := by
  apply Keeps.foldl
  intro s a
  apply Keeps.foldl
  intro s b
  exact (blockLink_keeps s a b).trans (blockLink_keeps _ b a)

omit [Platform] in
theorem healAllPartitions_keeps (s : Simulation D) : Keeps id s s.healAllPartitions :=
  .frame rfl rfl rfl rfl

omit [Platform] in
theorem isolateNode_keeps (s : Simulation D) (target : NodeId) : Keeps id s (s.isolateNode target) := by
  apply Keeps.foldl
  intro s peer
  exact (blockLink_keeps s target peer).trans (blockLink_keeps _ peer target)

omit [Platform] in
theorem reconnectNode_keeps (s : Simulation D) (target : NodeId) : Keeps id s (s.reconnectNode target) := by
  apply Keeps.foldl
  intro s peer
  exact (unblockLink_keeps s target peer).trans (unblockLink_keeps _ peer target)

omit [Platform] in
theorem setPolicy_keeps (s : Simulation D) (link : NodeId × NodeId) (policy : LinkFaultPolicy) :
    Keeps id s (s.setPolicy link policy) :=
  .frame rfl rfl rfl rfl

theorem dropPackets_keeps (s : Simulation D) (sender dest : NodeId) (count : Nat) :
    Keeps id s (s.dropPackets sender dest count) :=
  .frame rfl rfl rfl rfl

theorem duplicatePackets_keeps (s : Simulation D) (sender dest : NodeId) (count delay : Nat) :
    Keeps id s (s.duplicatePackets sender dest count delay) :=
  .frame rfl rfl rfl rfl

omit [Platform] in
theorem clearLinkDelay_keeps (s : Simulation D) (sender dest : NodeId) :
    Keeps id s (s.clearLinkDelay sender dest) := by
  unfold clearLinkDelay
  split
  · exact .refl s
  · exact setPolicy_keeps ..

omit [Platform] in
theorem scheduleFault_keeps (s : Simulation D) (triggerAt : Nat) (fault : Fault) :
    Keeps id s (s.scheduleFault triggerAt fault) :=
  .frame rfl rfl rfl rfl

/-! Faults and runs. -/

theorem startElection_keeps (h : s.startElection target = some s') : Keeps id s s' := by
  unfold startElection at h
  split_ifs at h with hskip
  · cases h
    exact .refl s
  · exact callNode_flush_keeps (fun hdis => hskip (.inl hdis)) h

variable [FloatText] [Bincode]

omit [Platform] in
/-- A node that does not lead only queues the command for the leader it knows. -/
theorem process_command_vitals {n n' : RaftNode D} {command : Command} {now : Instant} (hrole : n.role ≠ .leader)
    (h : n.process (.message (.clientCommand command)) now = some n') :
    n'.role = n.role ∧ n'.currentTerm = n.currentTerm ∧ n'.votedFor = n.votedFor ∧ n'.log = n.log ∧
      n'.commitIndex = n.commitIndex ∧ n'.lastApplied = n.lastApplied ∧ n'.db = n.db := by
  simp only [RaftNode.process, RaftNode.handleMessage, if_neg hrole, Option.some.injEq, RaftNode.forward] at h
  split at h <;> · subst h; exact ⟨rfl, rfl, rfl, rfl, rfl, rfl, rfl⟩

theorem submitCommand_keeps {command : Command} (h : s.submitCommand target command = some s') : Keeps id s s' := by
  obtain ⟨s₁, hcall, rfl⟩ := Option.map_eq_some_iff.mp h
  apply Keeps.trans _ (flushNodeOutbox_keeps s₁ target)
  obtain ⟨hmarks, hdis, hsent, hvit⟩ := callNode_frame hcall
  apply Keeps.marked hmarks (fun _ => by simp)
  intro hquiet hid
  refine ⟨hdis ▸ hid, ?_, (hsent id).le⟩
  by_cases hne : id = target
  · subst hne
    -- quiet means that the crashed node does not lead
    unfold callNode at hcall
    split at hcall
    · cases hcall
      rfl
    · next node hnode =>
      have hnode' : s.nodes.lookup id = some node := hnode
      have hrole : node.role ≠ .leader := by
        intro hleader
        have hstray := (hquiet _ (List.mem_singleton_self _)).2
        simp [Mark.strays, hid, hnode', hleader] at hstray
      obtain ⟨node', hprocess, rfl⟩ := Option.map_eq_some_iff.mp hcall
      obtain ⟨h1, h2, h3, h4, h5, h6, h7⟩ := process_command_vitals hrole hprocess
      simp [vitals, checkInstant, hnode', h1, h2, h3, h4, h5, h6, h7]
  · exact hvit id hne

theorem applyFault_keeps {fault : Fault} (h : s.applyFault fault = some s') : Keeps id s s' := by
  cases fault with
  | crashNode target => cases h; exact disableNode_keeps s target
  | restartNode target => exact restartNode_keeps h
  | pauseNode target => cases h; exact pauseNode_keeps s target
  | resumeNode target => cases h; exact resumeNode_keeps s target
  | blockLink sender dest => cases h; exact blockLink_keeps s sender dest
  | unblockLink sender dest => cases h; exact unblockLink_keeps s sender dest
  | partition groupA groupB => cases h; exact partition_keeps s groupA groupB
  | healAllPartitions => cases h; exact healAllPartitions_keeps s
  | isolateNode target => cases h; exact isolateNode_keeps s target
  | reconnectNode target => cases h; exact reconnectNode_keeps s target
  | dropPackets sender dest count => cases h; exact dropPackets_keeps s sender dest count
  | delayLink => cases h; exact setPolicy_keeps ..
  | duplicatePackets sender dest count delay => cases h; exact duplicatePackets_keeps s sender dest count delay
  | clearLinkDelay sender dest => cases h; exact clearLinkDelay_keeps s sender dest
  | triggerElection target => exact startElection_keeps h
  | submitCommand target command => exact submitCommand_keeps h

theorem triggerLoop_keeps {now rounds : Nat} (h : triggerLoop now rounds s = some s') : Keeps id s s' := by
  induction rounds generalizing s with
  | zero =>
    cases h
    exact .refl _
  | succ rounds ih =>
    unfold triggerLoop at h
    split at h
    · cases h
      exact .refl _
    · next scheduled rest _ =>
      split_ifs at h with hdue
      · obtain ⟨s₁, hfault, hloop⟩ := Option.bind_eq_some_iff.mp h
        have hpop : Keeps id s { s with scheduledFaults := rest } := .frame rfl rfl rfl rfl
        exact hpop.trans ((applyFault_keeps hfault).trans (ih hloop))
      · cases h
        exact .refl _

theorem triggerDueFaults_keeps (h : s.triggerDueFaults = some s') : Keeps id s s' := triggerLoop_keeps h

theorem tickNode_keeps (h : s.tickNode target = some s') : Keeps id s s' := by
  unfold tickNode at h
  split_ifs at h with hskip
  · cases h
    exact .refl s
  · exact callNode_flush_keeps (fun hdis => hskip (.inl hdis)) h

omit [FloatText] [Bincode] in
theorem setClock_keeps (s : Simulation D) (clock : Nat) :
    Keeps id s (({ s with clock := clock } : Simulation D).checkInstant clock) :=
  .frame rfl rfl rfl rfl

theorem advanceTime_keeps {millis : Nat} (h : s.advanceTime millis = some s') : Keeps id s s' := by
  unfold advanceTime at h
  -- a literal of this size is not to be unfolded
  generalize s.clock + millis * 1000000 = clock at h
  obtain ⟨s₁, htrigger, hticks⟩ := Option.bind_eq_some_iff.mp h
  apply (setClock_keeps s clock).trans
  exact (triggerDueFaults_keeps htrigger).trans (.foldlM (fun _ _ _ => tickNode_keeps) hticks)

/-- An event of the crashed node is neither delivered nor deferred, and one for it is not delivered. -/
theorem deliver_keeps {event : Event} (h : s.deliver event = some s') : Keeps id s s' := by
  unfold deliver at h
  split_ifs at h with hlost hpaused
  · cases h
    exact .refl s
  · cases h
    refine .silent rfl fun hid => ⟨hid, rfl, ?_⟩
    have hne : event.sender ≠ id := fun heq => hlost (.inl (heq ▸ hid))
    have hperm := ((insert_deferred_perm s.pausedEvents event).append_left s.events).trans List.perm_middle
    have hparcels := Multiset.coe_eq_coe.mpr (hperm.map Event.parcel)
    unfold sentBy deferred
    rw [hparcels, List.map_cons, ← Multiset.cons_coe, Multiset.filter_cons_of_neg _ (by simpa [Event.parcel] using hne)]
  · exact callNode_flush_keeps (fun hdis => hlost (.inr (.inl hdis))) h

omit [FloatText] [Bincode] [Platform] in
theorem popEvent_keeps {event : Event} {rest : List Event} (hpop : popFirst Event.before s.events = some (event, rest))
    (clock : Nat) : Keeps id s { s with events := rest, clock := clock } := by
  refine .silent rfl fun hid => ⟨hid, rfl, ?_⟩
  have hsub : rest.Subperm s.events :=
    (List.sublist_cons_self event rest).subperm.trans (popFirst_perm hpop).symm.subperm
  apply Multiset.filter_le_filter
  rw [List.map_append, List.map_append, ← Multiset.coe_add, ← Multiset.coe_add]
  apply add_le_add_left
  rw [← Multiset.map_coe, ← Multiset.map_coe]
  exact Multiset.map_le_map (Multiset.coe_le.mpr hsub)

theorem deliverNext_keeps {more : Bool} (h : s.deliverNext = some (more, s')) : Keeps id s s' := by
  obtain ⟨s₁, htrigger, h⟩ := Option.bind_eq_some_iff.mp h
  apply (triggerDueFaults_keeps htrigger).trans
  split at h
  · next event rest hpop =>
    obtain ⟨s₂, htrigger₂, h⟩ := Option.bind_eq_some_iff.mp h
    obtain ⟨s₃, hdeliver, h⟩ := Option.bind_eq_some_iff.mp h
    cases h
    exact (popEvent_keeps hpop _).trans ((triggerDueFaults_keeps htrigger₂).trans (deliver_keeps hdeliver))
  · split at h
    · split_ifs at h
      · obtain ⟨s₂, hadvance, h⟩ := Option.bind_eq_some_iff.mp h
        cases h
        exact advanceTime_keeps hadvance
      · cases h
        exact .refl _
    · cases h
      exact .refl _

omit [FloatText] [Bincode] in
theorem flushAllOutboxes_keeps (s : Simulation D) : Keeps id s s.flushAllOutboxes :=
  .foldl flushNodeOutbox_keeps _ s

theorem idleLoop_keeps {rounds : Nat} (h : idleLoop rounds s = some s') : Keeps id s s' := by
  induction rounds generalizing s with
  | zero => cases h
  | succ rounds ih =>
    obtain ⟨⟨more, s₁⟩, hdeliver, h⟩ := Option.bind_eq_some_iff.mp h
    apply (deliverNext_keeps hdeliver).trans
    dsimp only at h
    split_ifs at h
    · exact ih h
    · cases h
      exact .refl _

theorem runUntilIdle_keeps (h : s.runUntilIdle = some s') : Keeps id s s' := by
  unfold runUntilIdle at h
  exact (flushAllOutboxes_keeps s).trans (idleLoop_keeps h)

theorem stepsLoop_keeps {rounds executed : Nat} (h : stepsLoop rounds s = some (executed, s')) : Keeps id s s' := by
  induction rounds generalizing s executed with
  | zero =>
    cases h
    exact .refl _
  | succ rounds ih =>
    obtain ⟨⟨more, s₁⟩, hdeliver, h⟩ := Option.bind_eq_some_iff.mp h
    apply (deliverNext_keeps hdeliver).trans
    dsimp only at h
    split_ifs at h
    · obtain ⟨⟨executed', s₂⟩, hloop, h⟩ := Option.bind_eq_some_iff.mp h
      cases h
      exact ih hloop
    · cases h
      exact .refl _

/-! The chaos test. -/

theorem injectRandomFault_keeps {rng rng' : DeterministicRng} {config : ChaosConfig} {fault : Option Fault}
    (h : s.injectRandomFault rng config = some (fault, rng', s')) : Keeps id s s' := by
  unfold injectRandomFault at h
  split at h
  · obtain ⟨s₁, hfault, h⟩ := Option.map_eq_some_iff.mp h
    cases h
    exact applyFault_keeps hfault
  · cases h
    exact .refl _

theorem chaosCommand_keeps {rng rng' : DeterministicRng} {nodeIds : List NodeId} {step ops ops' : Nat}
    (h : s.chaosCommand rng nodeIds step ops = some (ops', rng', s')) : Keeps id s s' := by
  unfold chaosCommand at h
  split_ifs at h
  · obtain ⟨⟨target, rng₁⟩, -, h⟩ := Option.bind_eq_some_iff.mp h
    dsimp only at h
    split_ifs at h
    · obtain ⟨s₁, hfault, h⟩ := Option.map_eq_some_iff.mp h
      cases h
      exact applyFault_keeps hfault
    · cases h
      exact .refl _
  · cases h
    exact .refl _

theorem chaosMove_keeps {rng rng' : DeterministicRng} (h : s.chaosMove rng = some (rng', s')) : Keeps id s s' := by
  unfold chaosMove at h
  dsimp only at h
  split_ifs at h
  · obtain ⟨s₁, hadvance, heq⟩ := Option.map_eq_some_iff.mp h
    obtain rfl : s₁ = s' := (Prod.mk.inj heq).2
    exact advanceTime_keeps hadvance
  · obtain ⟨⟨more, s₁⟩, hdeliver, heq⟩ := Option.map_eq_some_iff.mp h
    obtain rfl : s₁ = s' := (Prod.mk.inj heq).2
    exact deliverNext_keeps hdeliver

theorem chaosStep_keeps {rng rng' : DeterministicRng} {nodeIds : List NodeId} {config : ChaosConfig}
    {step ops ops' : Nat} (h : s.chaosStep rng nodeIds config step ops = some (ops', rng', s')) : Keeps id s s' := by
  obtain ⟨⟨ops₁, rng₁, s₁⟩, hcommand, h⟩ := Option.bind_eq_some_iff.mp h
  obtain ⟨⟨fault, rng₂, s₂⟩, hinject, h⟩ := Option.bind_eq_some_iff.mp h
  obtain ⟨⟨rng₃, s₃⟩, hmove, h⟩ := Option.bind_eq_some_iff.mp h
  cases h
  exact ((chaosCommand_keeps hcommand).trans (injectRandomFault_keeps hinject)).trans (chaosMove_keeps hmove)

theorem chaosLoop_keeps {nodeIds : List NodeId} {config : ChaosConfig} {remaining step ops : Nat}
    {rng : DeterministicRng} {result : Except InvariantViolation Nat}
    (h : chaosLoop nodeIds config remaining step ops rng s = some (result, s')) : Keeps id s s' := by
  induction remaining generalizing s step ops rng with
  | zero =>
    cases h
    exact .refl _
  | succ remaining ih =>
    obtain ⟨⟨ops₁, rng₁, s₁⟩, hstep, h⟩ := Option.bind_eq_some_iff.mp h
    apply (chaosStep_keeps hstep).trans
    dsimp only at h
    split at h
    · cases h
      exact .refl _
    · exact ih h

omit [FloatText] [Bincode] in
theorem convergeNode_keeps (h : s.convergeNode target = some s') : Keeps id s s' := by
  obtain ⟨s₁, hrestart, rfl⟩ := Option.map_eq_some_iff.mp h
  have hfirst : Keeps id s s₁ := by
    split_ifs at hrestart
    · exact restartNode_keeps hrestart
    · cases hrestart
      exact .refl _
  apply hfirst.trans
  split_ifs
  · exact resumeNode_keeps ..
  · exact .refl _

theorem runChaosTest_keeps {seed : UInt64} {steps : Nat} {config : ChaosConfig}
    {result : Except InvariantViolation Nat} (h : s.runChaosTest seed steps config = some (result, s')) :
    Keeps id s s' := by
  obtain ⟨⟨result₁, s₁⟩, hloop, h⟩ := Option.bind_eq_some_iff.mp h
  apply (chaosLoop_keeps hloop).trans
  cases result₁ with
  | error v =>
    cases h
    exact .refl _
  | ok ops =>
    obtain ⟨s₂, hconverge, h⟩ := Option.bind_eq_some_iff.mp h
    obtain ⟨s₃, hidle, h⟩ := Option.bind_eq_some_iff.mp h
    have hkeeps : Keeps id s₁ s₃ := (healAllPartitions_keeps s₁).trans
      ((Keeps.foldlM (fun _ _ _ => convergeNode_keeps) hconverge).trans (runUntilIdle_keeps hidle))
    split at h
    · cases h
      exact hkeeps
    · cases h
      exact hkeeps

/-! Runs. -/

theorem perform_keeps {op : Operation} (h : s.perform op = some s') : Keeps id s s' := by
  cases op with
  | disableNode target | crashNode target => cases h; exact disableNode_keeps s target
  | enableNode target => cases h; exact enableNode_keeps s target
  | restartNode target => exact restartNode_keeps h
  | pauseNode target => cases h; exact pauseNode_keeps s target
  | resumeNode target => cases h; exact resumeNode_keeps s target
  | blockLink sender dest => cases h; exact blockLink_keeps s sender dest
  | unblockLink sender dest => cases h; exact unblockLink_keeps s sender dest
  | partition groupA groupB => cases h; exact partition_keeps s groupA groupB
  | healAllPartitions => cases h; exact healAllPartitions_keeps s
  | isolateNode target => cases h; exact isolateNode_keeps s target
  | reconnectNode target => cases h; exact reconnectNode_keeps s target
  | dropPackets sender dest count => cases h; exact dropPackets_keeps s sender dest count
  | delayLink => cases h; exact setPolicy_keeps ..
  | duplicatePackets sender dest count delay => cases h; exact duplicatePackets_keeps s sender dest count delay
  | clearLinkDelay sender dest => cases h; exact clearLinkDelay_keeps s sender dest
  | scheduleFault => cases h; exact scheduleFault_keeps ..
  | scheduleFaultAfter => cases h; exact .frame rfl rfl rfl rfl
  | applyFault fault => exact applyFault_keeps h
  | startElection target => exact startElection_keeps h
  | flushNodeOutbox target => cases h; exact flushNodeOutbox_keeps s target
  | flushAllOutboxes => cases h; exact flushAllOutboxes_keeps s
  | runUntilIdle | routeMessages => exact runUntilIdle_keeps h
  | advanceTime millis => exact advanceTime_keeps h
  | deliverNext | step =>
    obtain ⟨⟨more, s₁⟩, hdeliver, rfl⟩ := Option.map_eq_some_iff.mp h
    exact deliverNext_keeps hdeliver
  | runSteps maxSteps =>
    obtain ⟨⟨executed, s₁⟩, hloop, rfl⟩ := Option.map_eq_some_iff.mp h
    exact (flushAllOutboxes_keeps s).trans (stepsLoop_keeps hloop)
  | injectRandomFault rng config =>
    obtain ⟨⟨fault, rng', s₁⟩, hinject, rfl⟩ := Option.map_eq_some_iff.mp h
    exact injectRandomFault_keeps hinject
  | runChaosTest seed steps config =>
    obtain ⟨⟨result, s₁⟩, hchaos, rfl⟩ := Option.map_eq_some_iff.mp h
    exact runChaosTest_keeps hchaos

theorem operate_eq_some {op : Operation} :
    s.operate op = some s' ↔ s.perform op = some s' ∧ s'.overflowed = false := by
  rw [operate, Option.filter_eq_some_iff, Bool.not_eq_true']

theorem operate_keeps {op : Operation} (h : s.operate op = some s') : Keeps id s s' :=
  perform_keeps (operate_eq_some.mp h).1

theorem exec_keeps {ops : List Operation} (h : s.exec ops = some s') : Keeps id s s' :=
  .foldlM (fun _ _ _ => operate_keeps) h

def since (s s' : Simulation D) : List (Mark D) := s'.marks.drop s.marks.length

/-- In every state of the run in which the node has not been enabled or restarted since it was crashed, it
is as it was at the crash and has sent nothing since. A node that is crashed at the start counts as
crashed there. -/
def StaysFrozen (s : Simulation D) (id : NodeId) (ops : List Operation) : Prop :=
  ∀ done, done <+: ops → ∀ s', s.exec done = some s' →
    (id ∈ s.disabledNodes → (∀ m ∈ since s s', m.revives id = false) → s'.Holds id (s.snapshot id)) ∧
    ∀ before was after, since s s' = before ++ .crashed id was :: after →
      (∀ m ∈ after, m.revives id = false) → s'.Holds id was

/-- No command is submitted to the node, at once or by a fault that comes due, while it is a crashed
leader. -/
def NoStrays (s : Simulation D) (id : NodeId) (ops : List Operation) : Prop :=
  ∀ done ∈ ops.inits, ∀ s' ∈ s.exec done, ∀ m ∈ since s s', m.strays id = false

instance (s : Simulation D) (id : NodeId) (ops : List Operation) : Decidable (s.NoStrays id ops) :=
  inferInstanceAs (Decidable (∀ done ∈ ops.inits, _))

/-- A crashed node is frozen in every run in which no command is submitted to it while it is a crashed
leader. -/
theorem crashed_node_frozen (s : Simulation D) (id : NodeId) (ops : List Operation) (h : s.NoStrays id ops) :
    s.StaysFrozen id ops := by
  intro done hdone s' hexec
  obtain ⟨new, hmarks, hold, hcrash⟩ : Keeps id s s' := exec_keeps hexec
  have hsince : since s s' = new := by simp [since, hmarks]
  have hstray := h done ((List.mem_inits done ops).mpr hdone) s' hexec
  rw [hsince] at hstray ⊢
  refine ⟨fun hid hrevived => ?_, fun before was after hsplit hrevived => ?_⟩
  · exact hold _ ⟨hid, rfl, le_rfl⟩ fun m hm => ⟨hrevived m hm, hstray m hm⟩
  · exact hcrash before was after hsplit fun m hm => ⟨hrevived m hm, hstray m (by simp [hsplit, hm])⟩

end Simulation

section Concrete
open scoped Concrete
open Simulation

def leaderCrash : List Operation := [.startElection 1, .runUntilIdle, .crashNode 1]

/-- Node 2 is elected after the crash, and a command for it comes due. -/
def successor : List Operation := leaderCrash ++ [.startElection 2, .runUntilIdle,
  .scheduleFaultAfter 50000000 (.submitCommand 2 (.set "a" (.int 1))), .advanceTime 100, .runUntilIdle]

theorem crashed_node_frozen_successor : ∃ s : Simulation Database, newCluster [1, 2, 3] (fun _ => 150) = some s ∧
    s.NoStrays 1 successor ∧ s.StaysFrozen 1 successor := by
  have hrun : ((newCluster [1, 2, 3] (fun _ => 150) : Option (Simulation Database)).map fun s =>
      decide (s.NoStrays 1 successor)) = some true := by
    decide +kernel
  obtain ⟨s, hs, hquiet⟩ := Option.map_eq_some_iff.mp hrun
  have hquiet := of_decide_eq_true hquiet
  exact ⟨s, hs, hquiet, crashed_node_frozen s 1 _ hquiet⟩

/-- A command that is submitted to a crashed leader goes into its log. -/
theorem crashed_leader_appends : ∃ s s₀ : Simulation Database, newCluster [1, 2, 3] (fun _ => 150) = some s ∧
    s.exec leaderCrash = some s₀ ∧ 1 ∈ s₀.disabledNodes ∧
    ¬s₀.StaysFrozen 1 [.applyFault (.submitCommand 1 (.set "a" (.int 1)))] := by
  have hrun : ((newCluster [1, 2, 3] (fun _ => 150) : Option (Simulation Database)).bind fun s =>
      (s.exec leaderCrash).bind fun s₀ =>
        (s₀.exec [.applyFault (.submitCommand 1 (.set "a" (.int 1)))]).map fun s' =>
          (decide (1 ∈ s₀.disabledNodes), decide (∀ m ∈ since s₀ s', m.revives 1 = false),
            (s₀.vitals 1).map (·.log.length), (s'.vitals 1).map (·.log.length))) =
      some (true, true, some 1, some 2) := by
    decide +kernel
  obtain ⟨s, hs, hrun⟩ := Option.bind_eq_some_iff.mp hrun
  obtain ⟨s₀, hs₀, hrun⟩ := Option.bind_eq_some_iff.mp hrun
  obtain ⟨s', hs', hrun⟩ := Option.map_eq_some_iff.mp hrun
  simp only [Prod.mk.injEq, decide_eq_true_eq] at hrun
  obtain ⟨hdisabled, hrevived, hbefore, hafter⟩ := hrun
  refine ⟨s, s₀, hs, hs₀, hdisabled, fun hfrozen => ?_⟩
  have hvitals := ((hfrozen _ List.prefix_rfl s' hs').1 hdisabled hrevived).vitals
  have hlen := congrArg (Option.map (·.log.length)) hvitals
  rw [hafter, snapshot, hbefore] at hlen
  cases hlen

end Concrete
end KvRaft.Simulator
