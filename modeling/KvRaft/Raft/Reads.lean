import KvRaft.Raft.Acknowledgements

/-! Reads: a node answers a `Get` from its own database, so an answer may miss a write that another node
has already acknowledged. -/

namespace KvRaft
open ReplicatedLog RaftNode

def Action.readOn : Action → Option (NodeId × String)
  | .process j (.request ⟨.get key, _⟩) _ | .process j (.message (.clientQuery _ _ key)) _ => some (j, key)
  | _ => none

section General
variable [FloatText] {D : Type} [Storage D] [Bincode]

namespace Cluster

/-- The value is the result of a prefix of an applied log that has `cmd` at index `i`. -/
def ReadsAfter (config : Config) (P : List Command → Prop) (c : Cluster D) (key : String)
    (value : Option Value) (i : Nat) (cmd : Command) : Prop :=
  ∃ j n k t, c.nodes j = some n ∧ 0 < i ∧ i ≤ k ∧ k ≤ n.lastApplied ∧
    n.log[i]? = some (.ofCommand t cmd) ∧
    Storage.get (Storage.runAll (Storage.fresh config : D) (commandsUpTo n.log k)) key = .ok value ∧
    (P (commandsUpTo n.log k) → value = Storage.fold (commandsUpTo n.log k) key)

/-- Every successful read of a key comes after each write to the key that some node had acknowledged
before the read was submitted. -/
def LinearizableReads (config : Config) (P : List Command → Prop) (c₀ : Cluster D) (as : List Action) : Prop :=
  ∀ id origin, Traced config id c₀ as origin →
    ∀ before x after c c', as = before ++ x :: after → exec config c₀ before = some c →
      step config c x = some c' →
      ∀ j key, x.readOn = some (j, key) → ∀ y ∈ c'.answeredBy j - c.answeredBy j, y.success = true →
        ∀ p ∈ (origin.take before.length).sum, p.1.success = true →
          ∀ cmd, (writesTo id before)[p.2]? = some (p.1.responder, cmd) → cmd.key = key →
            ∃ i, p.1.message = appliedAt i ∧ c.ReadsAfter config P key y.value i cmd

/-- In the run `before`, node `id` has told a client that the write at index `i` is applied. -/
def Acknowledged (config : Config) (c₀ : Cluster D) (before : List Action) (id : NodeId) (i : Nat) : Prop :=
  ∃ first x rest b b', before = first ++ x :: rest ∧ exec config c₀ first = some b ∧
    step config b x = some b' ∧ ∃ y ∈ givenIn id b b' x, y.success = true ∧ y.message = appliedAt i

/-- Every node that serves a read of a key has applied each acknowledged write to the key. -/
def FreshReads (config : Config) (c₀ : Cluster D) (as : List Action) : Prop :=
  ∀ before x after c, as = before ++ x :: after → exec config c₀ before = some c →
    ∀ j key n, x.readOn = some (j, key) → c.nodes j = some n →
      ∀ id i m t cmd, Acknowledged config c₀ before id i → c.nodes id = some m →
        m.log[i]? = some (.ofCommand t cmd) → cmd.key = key → i ≤ n.lastApplied

end Cluster

section Read
variable {config : Config} {c c' : Cluster D} {id : NodeId}

omit [FloatText] [Bincode] in
theorem readOn_eq_some {x : Action} {j : NodeId} {key : String} (h : x.readOn = some (j, key)) :
    ∃ input now, x = .process j input now ∧ ((∃ r, input = .request ⟨.get key, r⟩) ∨
      ∃ requestId clientId, input = .message (.clientQuery requestId clientId key)) := by
  unfold Action.readOn at h
  split at h
  · cases h
    exact ⟨_, _, rfl, Or.inl ⟨_, rfl⟩⟩
  · cases h
    exact ⟨_, _, rfl, Or.inr ⟨_, _, rfl⟩⟩
  · cases h

theorem handleStoreRequest_get {n n' : RaftNode D} {key : String} {r : Responder}
    (hs : n.handleStoreRequest ⟨.get key, r⟩ = some n') :
    ∃ success value message, n'.answered = n.answered + {⟨r, success, value, message⟩} ∧
      (success = true → Storage.get n.db key = .ok value) := by
  unfold RaftNode.handleStoreRequest at hs
  dsimp only at hs
  cases hget : Storage.get n.db key with
  | ok v =>
    rw [hget] at hs
    obtain rfl := Option.some.inj hs
    exact ⟨true, v, _, Responder.send_all .., fun _ => rfl⟩
  | error err =>
    rw [hget] at hs
    obtain rfl := Option.some.inj hs
    exact ⟨false, none, _, Responder.send_all .., fun h => absurd h Bool.false_ne_true⟩

theorem Cluster.step_read {x : Action} {j : NodeId} {key : String} (hx : x.readOn = some (j, key))
    (hs : step config c x = some c') {y : Answer} (hy : y ∈ c'.answeredBy j - c.answeredBy j)
    (hok : y.success = true) : ∃ n, c.nodes j = some n ∧ Storage.get n.db key = .ok y.value := by
  obtain ⟨input, now, rfl, hinput⟩ := readOn_eq_some hx
  obtain ⟨n, hn, -, n', hn', rfl⟩ := step_process.mp hs
  have hstore : ∃ r, ({ n with crashPoints := [] } : RaftNode D).handleStoreRequest ⟨.get key, r⟩ = some n' := by
    rcases hinput with ⟨r, rfl⟩ | ⟨requestId, clientId, rfl⟩
    · exact ⟨r, hn'⟩
    · exact ⟨.raftClient clientId requestId, hn'⟩
  obtain ⟨r, hstore⟩ := hstore
  obtain ⟨success, value, message, hans, hget⟩ := handleStoreRequest_get hstore
  have hgiven : n'.answered = n.answered + {⟨r, success, value, message⟩} := hans
  have heq : (c.setNode j n').answeredBy j - c.answeredBy j = {⟨r, success, value, message⟩} := by
    simp only [answeredBy, setNode_self, hn]
    rw [hgiven, add_tsub_cancel_left]
  rw [heq] at hy
  obtain rfl := Multiset.mem_singleton.mp hy
  exact ⟨n, hn, hget hok⟩

theorem Cluster.Traced.acknowledged {c₀ : Cluster D} {as before after : List Action}
    {origin : List (Multiset (Answer × Nat))} (h : Traced config id c₀ as origin) (has : as = before ++ after)
    (hc : exec config c₀ before = some c) {p : Answer × Nat} (hp : p ∈ (origin.take before.length).sum)
    (hok : p.1.success = true) {i : Nat} (hi : p.1.message = appliedAt i) :
    Acknowledged config c₀ before id i := by
  rw [← Multiset.sum_coe] at hp
  obtain ⟨C, hC, hpC⟩ := Multiset.mem_join.mp hp
  obtain ⟨m, hm⟩ := List.mem_iff_getElem?.mp (Multiset.mem_coe.mp hC)
  have hlt : m < before.length := by
    have := (List.getElem?_eq_some_iff.mp hm).1
    rw [List.length_take] at this
    omega
  rw [List.getElem?_take_of_lt hlt] at hm
  have hsplit : before = before.take m ++ before[m] :: before.drop (m + 1) := by
    rw [← List.drop_eq_getElem_cons hlt, List.take_append_drop]
  rw [hsplit, exec_append] at hc
  obtain ⟨b, hb, hc⟩ := Option.bind_eq_some_iff.mp hc
  obtain ⟨b', hb', -⟩ := Option.bind_eq_some_iff.mp hc
  have hgiven := h.all (before.take m) before[m] (before.drop (m + 1) ++ after) b b'
    (by rw [has, ← List.cons_append, ← List.append_assoc, ← hsplit]) hb hb'
  rw [List.length_take, min_eq_left hlt.le, hm] at hgiven
  refine ⟨before.take m, before[m], before.drop (m + 1), b, b', hsplit, hb, hb', p.1, ?_, hok, hi⟩
  rw [← Option.some.inj hgiven]
  exact Multiset.mem_map_of_mem Prod.fst hpC

end Read

section Linearizable

/-- Reads are linearizable in every run in which each read is served by a node that has applied the
acknowledged writes to its key. -/
theorem reads_linearizable (M : Membership) (config : Config) (now : Instant) {as : List Action}
    (has : ∀ x ∈ as, x.inMemory = true) {P : List Command → Prop} (hdb : Storage.Reliable D config P)
    (hfresh : Cluster.FreshReads config (M.start config now : Cluster D) as) :
    Cluster.LinearizableReads config P (M.start config now : Cluster D) as := by
  intro id origin htraced before x after c c' hsplit hc hs j key hx y hy hok p hp hpok cmd hcmd hkey
  obtain ⟨n, hn, hget⟩ := Cluster.step_read hx hs hy hok
  obtain ⟨cmd', hcmd', hsound⟩ := htraced.sound before (x :: after) c hsplit hc p hp
  obtain rfl : cmd = cmd' := (Prod.mk.inj (Option.some.inj (hcmd.symm.trans hcmd'))).2
  obtain ⟨i, hi, m, t, hm, hpos, happ, hlog, hall⟩ := hsound hpok
  have hle : i ≤ n.lastApplied := hfresh before x after c hsplit hc j key n hx hn id i m t cmd
    (htraced.acknowledged hsplit hc hp hpok hi) hm hlog hkey
  obtain ⟨a, ha⟩ := clusterOk_of_exec M config now
    (fun z hz => has z (hsplit ▸ List.mem_append_left _ hz)) hc
  rw [(ha.nodes j n hn).db_eq] at hget
  refine ⟨i, hi, j, n, n.lastApplied, t, hn, hpos, hle, le_rfl, hall j n hn hle, hget, fun hP => ?_⟩
  exact Except.ok.inj (hget.symm.trans (hdb.get_runAll _ hP key))

end Linearizable
end General

def readA (j : NodeId) (now : Instant) : Action := .process j (.request ⟨.get "a", .oneshot 8⟩) now

section Concrete
open scoped Concrete

theorem split_at_read {j i : NodeId} {key : String} {now : Instant} {before after : List Action} {x : Action}
    (h : acknowledgedWrite now ++ [readA j now] = before ++ x :: after) (hx : x.readOn = some (i, key)) :
    before = acknowledgedWrite now ∧ x = readA j now := by
  rcases List.eq_nil_or_concat after with rfl | ⟨rest, z, rfl⟩
  · obtain ⟨hb, hxy⟩ := List.append_inj' h rfl
    exact ⟨hb.symm, (List.singleton_inj.mp hxy).symm⟩
  · rw [List.concat_eq_append, ← List.cons_append, ← List.append_assoc] at h
    obtain ⟨h, -⟩ := List.append_inj' h rfl
    have hnone : ∀ y ∈ acknowledgedWrite now, y.readOn = none := by
      simp [acknowledgedWrite, storedWrite, firstElection, Action.readOn]
    have hmem : x ∈ acknowledgedWrite now :=
      h ▸ List.mem_append_right _ List.mem_cons_self
    exact absurd (hx.symm.trans (hnone x hmem)) nofun

theorem reads_linearizable_at_leader :
    (Cluster.exec .default (Membership.three.start .default ⟨0, 0⟩ : Cluster Database)
      (acknowledgedWrite ⟨0, 0⟩ ++ [readA 1 ⟨0, 0⟩])).map (fun c => c.answeredBy 1) =
        some {⟨.oneshot 7, true, none, appliedAt 1⟩, ⟨.oneshot 8, true, some (.int 1), "Read from Node 1"⟩} ∧
    Cluster.LinearizableReads .default (Database.Regular .default)
      (Membership.three.start .default ⟨0, 0⟩ : Cluster Database)
      (acknowledgedWrite ⟨0, 0⟩ ++ [readA 1 ⟨0, 0⟩]) := by
  refine ⟨by decide +kernel,
    reads_linearizable Membership.three .default ⟨0, 0⟩ (by decide) (database_reliable .default) ?_⟩
  have hrun : ((Cluster.exec .default (Membership.three.start .default ⟨0, 0⟩ : Cluster Database)
      (acknowledgedWrite ⟨0, 0⟩)).bind fun c => (c.nodes 1).map fun n => (n.lastApplied,
        [1, 2, 3].all fun j => (c.nodes j).all fun m => m.log.length ≤ 2)) = some (1, true) := by
    decide +kernel
  intro before x after c hsplit hc j key n hx hn id i m t cmd hack hm hlog hkey
  obtain ⟨rfl, rfl⟩ := split_at_read hsplit hx
  obtain ⟨b, hb, hrun⟩ := Option.bind_eq_some_iff.mp hrun
  obtain rfl := Option.some.inj (hb.symm.trans hc)
  obtain ⟨n', hn', hrun⟩ := Option.map_eq_some_iff.mp hrun
  obtain ⟨happ, hlen⟩ := Prod.mk.inj hrun
  obtain ⟨rfl, -⟩ := Prod.mk.inj (Option.some.inj hx)
  obtain rfl := Option.some.inj (hn'.symm.trans hn)
  obtain ⟨a, ha⟩ := clusterOk_of_exec Membership.three .default ⟨0, 0⟩ (by decide) hb
  have hid : id ∈ [1, 2, 3] := by simpa [Membership.three] using (ha.nodes id m hm).mem
  have hshort := List.all_eq_true.mp hlen id hid
  rw [hm, Option.all_some, decide_eq_true_eq] at hshort
  have := (List.getElem?_eq_some_iff.mp hlog).1
  omega

/-- Node 3 has not heard of the write. -/
theorem stale_read : ¬ Cluster.LinearizableReads .default (Database.Regular .default)
    (Membership.three.start .default ⟨0, 0⟩ : Cluster Database)
    (acknowledgedWrite ⟨0, 0⟩ ++ [readA 3 ⟨0, 0⟩]) := by
  intro hlin
  have hrun : ((Cluster.exec .default (Membership.three.start .default ⟨0, 0⟩ : Cluster Database)
      (storedWrite ⟨0, 0⟩)).bind fun b => (Cluster.step .default b
        (.process 1 (.message (.appendEntriesResponse ⟨1, 2, true, 1⟩)) ⟨0, 0⟩)).bind fun c =>
          (Cluster.step .default c (readA 3 ⟨0, 0⟩)).map fun c' =>
        (Cluster.givenIn 1 b c (.process 1 (.message (.appendEntriesResponse ⟨1, 2, true, 1⟩)) ⟨0, 0⟩),
          c'.answeredBy 3 - c.answeredBy 3,
          [1, 2, 3].all fun j => (c.nodes j).all fun m => m.lastApplied ≤ 1)) =
      some ({⟨.oneshot 7, true, none, appliedAt 1⟩}, {⟨.oneshot 8, true, none, "Read from Node 3"⟩}, true) := by
    decide +kernel
  obtain ⟨b, hb, hrun⟩ := Option.bind_eq_some_iff.mp hrun
  obtain ⟨c, hc, hrun⟩ := Option.bind_eq_some_iff.mp hrun
  obtain ⟨c', hc', hrun⟩ := Option.map_eq_some_iff.mp hrun
  obtain ⟨hgiven, hrun⟩ := Prod.mk.inj hrun
  obtain ⟨hread, happ⟩ := Prod.mk.inj hrun
  have hack : Cluster.exec .default (Membership.three.start .default ⟨0, 0⟩) (acknowledgedWrite ⟨0, 0⟩) =
      some c := (Cluster.exec_concat _).mpr ⟨b, hb, hc⟩
  obtain ⟨origin, -, -, -, -, htraced⟩ := exists_traced Membership.three .default ⟨0, 0⟩ (by decide)
    ((Cluster.exec_concat _).mpr ⟨c, hack, hc'⟩) 1
  have hall := htraced.all (storedWrite ⟨0, 0⟩) _ [readA 3 ⟨0, 0⟩] b c (List.append_assoc ..) hb hc
  rw [hgiven] at hall
  obtain ⟨C, hC, hmap⟩ := Option.map_eq_some_iff.mp hall
  obtain ⟨p, hpC, hp⟩ := Multiset.mem_map.mp (hmap ▸ Multiset.mem_singleton_self _)
  have hmem : p ∈ (origin.take (acknowledgedWrite ⟨0, 0⟩).length).sum := by
    rw [← Multiset.sum_coe]
    refine Multiset.mem_join.mpr ⟨C, Multiset.mem_coe.mpr ?_, hpC⟩
    refine List.mem_iff_getElem?.mpr ⟨(storedWrite ⟨0, 0⟩).length, ?_⟩
    rw [List.getElem?_take_of_lt (by decide)]
    exact hC
  have hok : p.1.success = true := by rw [hp]
  obtain ⟨cmd, hcmd, -⟩ := htraced.sound (acknowledgedWrite ⟨0, 0⟩) _ c rfl hack p hmem
  obtain rfl : cmd = .set "a" (.int 1) := by
    have hw : writesTo 1 (acknowledgedWrite ⟨0, 0⟩) = [(.oneshot 7, .set "a" (.int 1))] := rfl
    rw [hw] at hcmd
    exact congrArg Prod.snd (List.mem_singleton.mp (List.mem_of_getElem? hcmd))
  obtain ⟨i, -, j, n, k, t, hn, hpos, hik, hk, hlog, hget, -⟩ := hlin 1 origin htraced
    (acknowledgedWrite ⟨0, 0⟩) (readA 3 ⟨0, 0⟩) [] c c' rfl hack hc' 3 "a" rfl
    _ (hread ▸ Multiset.mem_singleton_self _) rfl p hmem hok _ hcmd rfl
  obtain ⟨a, ha⟩ := clusterOk_of_exec Membership.three .default ⟨0, 0⟩ (by decide) hack
  have hj : j ∈ [1, 2, 3] := by simpa [Membership.three] using (ha.nodes j n hn).mem
  have hone := List.all_eq_true.mp happ j hj
  rw [hn, Option.all_some, decide_eq_true_eq] at hone
  obtain rfl : i = 1 := by omega
  obtain rfl : k = 1 := by omega
  have hcmds : commandsUpTo n.log 1 = [.set "a" (.int 1)] := by
    rw [commandsUpTo_succ hlog, commandsUpTo_zero]
    rfl
  rw [hcmds] at hget
  exact absurd hget (by decide +kernel)

end Concrete
end KvRaft
