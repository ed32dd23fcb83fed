import KvRaft.Raft.Reads
import KvRaft.Raft.WriteOrder

/-! One log behind all answers of a run: every confirmed write has its place in it, and what a node
answers to reads is the state after a part of it that only grows. -/

namespace KvRaft
open ReplicatedLog RaftNode

section General
variable [FloatText] {D : Type} [Storage D]

namespace Cluster

/-- In the action with number `q` node `id` answers a read of `key` with `value`. -/
def AnswersRead [Bincode] (config : Config) (c₀ : Cluster D) (as : List Action) (q : Nat) (id : NodeId) (key : String)
    (value : Option Value) : Prop :=
  ∃ x c c', as[q]? = some x ∧ exec config c₀ (as.take q) = some c ∧ step config c x = some c' ∧
    x.readOn = some (id, key) ∧ ∃ y ∈ c'.answeredBy id - c.answeredBy id, y.success = true ∧ y.value = value

def appliedOn (c : Cluster D) (id : NodeId) : Nat :=
  match c.nodes id with
  | some n => n.lastApplied
  | none => 0

omit [FloatText] in
theorem appliedOn_eq {c : Cluster D} {id : NodeId} {n : RaftNode D} (hn : c.nodes id = some n) :
    c.appliedOn id = n.lastApplied := by rw [appliedOn, hn]

end Cluster
open Cluster (Submits Confirms AnswersRead)

section Run
variable {M : Membership} {config : Config} {c₀ : Cluster D} {as : List Action} {c : Nat → Cluster D}
  {a : Nat → State NodeId LogEntry}

theorem States.appliedOn_mono [Bincode] (h : States M config c₀ as c a) (has : ∀ x ∈ as, x.inMemory = true)
    (id : NodeId) {j k : Nat} (hjk : j ≤ k) (hk : k ≤ as.length) : (c j).appliedOn id ≤ (c k).appliedOn id := by
  induction k, hjk using Nat.le_induction with
  | base => exact le_rfl
  | succ k hle ih =>
    apply (ih (by omega)).trans
    cases hn : (c k).nodes id with
    | none =>
      rw [Cluster.appliedOn, hn]
      exact Nat.zero_le _
    | some n =>
      have hx : as[k]? = some as[k] := List.getElem?_eq_getElem hk
      have hmem : as[k].inMemory = true := has _ (List.getElem_mem hk)
      obtain ⟨n', hn'⟩ := Option.isSome_iff_exists.mp
        (Cluster.step_isSome hmem (h.step hx) (Option.isSome_of_eq_some hn))
      obtain ⟨m, hm, hcase⟩ := Cluster.step_clients hmem (h.step hx) hn'
      obtain rfl := Option.some.inj (hn.symm.trans hm)
      rw [Cluster.appliedOn_eq hn, Cluster.appliedOn_eq hn']
      rcases hcase with ⟨input, now, -, hs⟩ | hf
      · exact (process_attends hs).1
      · exact hf.applied.ge

theorem exists_furthest (M : Membership) {b : Cluster D} {a₀ : State NodeId LogEntry} (hb : ClusterOk M config b a₀)
    {id : NodeId} {n : RaftNode D} (hn : b.nodes id = some n) : ∃ j m, b.nodes j = some m ∧
      ∀ i, b.appliedOn i ≤ m.lastApplied := by
  obtain ⟨j, hj, hmax⟩ := M.members.exists_max_image b.appliedOn ⟨id, (hb.nodes id n hn).mem⟩
  have hout : ∀ i, b.appliedOn i ≤ b.appliedOn j := by
    intro i
    cases hi : b.nodes i with
    | none =>
      rw [Cluster.appliedOn, hi]
      exact Nat.zero_le _
    | some m => exact hmax i (hb.nodes i m hi).mem
  cases hm : b.nodes j with
  | some m => exact ⟨j, m, hm, Cluster.appliedOn_eq hm ▸ hout⟩
  | none =>
    -- then nobody has applied anything
    refine ⟨id, n, hn, fun i => (hout i).trans ?_⟩
    rw [Cluster.appliedOn, hm]
    exact Nat.zero_le _

end Run

section Timeline
variable {M : Membership} {config : Config} {now : Instant} {as : List Action}

/-- One log explains a whole run. It has every confirmed write at the confirmed index. Each node answers
reads with the state after a part of the log that grows as the run goes on, and that has what the node has
confirmed itself. -/
theorem timeline_consistent [Bincode] (M : Membership) (config : Config) (now : Instant) {as : List Action}
    (has : ∀ x ∈ as, x.inMemory = true) (hasks : (as.filterMap Action.asker).Nodup) {b : Cluster D}
    (hb : Cluster.exec config (M.start config now) as = some b) {P : List Command → Prop}
    (hdb : Storage.Reliable D config P) : ∃ (log : List LogEntry) (seen : NodeId → Nat → Nat),
    (∀ id, Monotone (seen id)) ∧
    (∀ q id r i, Confirms config (M.start config now : Cluster D) as q id r i →
      (∃ p cmd t, p ≤ q ∧ Submits as p r cmd ∧ log[i]? = some (.ofCommand t cmd)) ∧ ∀ k, q < k → i ≤ seen id k) ∧
    ∀ q id key value, AnswersRead config (M.start config now : Cluster D) as q id key value →
      Storage.get (Storage.runAll (Storage.fresh config : D) (commandsUpTo log (seen id q))) key = .ok value ∧
      (P (commandsUpTo log (seen id q)) → value = Storage.fold (commandsUpTo log (seen id q)) key) := by
  obtain ⟨c, a, hstates, -⟩ := exists_states (ClusterOk.start M config now) has hb
  have h₀ := Membership.start_silent (D := D) M config now
  have hend := hstates.ok as.length le_rfl
  let seen : NodeId → Nat → Nat := fun id k => (c (min k as.length)).appliedOn id
  have hmono : ∀ id, Monotone (seen id) := fun id j k hjk =>
    hstates.appliedOn_mono has id (min_le_min_right _ hjk) (min_le_right _ _)
  have hseen : ∀ id k, k ≤ as.length → seen id k = (c k).appliedOn id := fun id k hk => by
    change (c (min k as.length)).appliedOn id = _
    rw [Nat.min_eq_left hk]
  have hlast : ∀ id k, k ≤ as.length → (c k).appliedOn id ≤ (c as.length).appliedOn id := fun id k hk =>
    hstates.appliedOn_mono has id hk le_rfl
  by_cases hnone : ∃ id n, (c as.length).nodes id = some n
  · obtain ⟨id₀, n₀, hn₀⟩ := hnone
    obtain ⟨j, m, hm, hmax⟩ := exists_furthest M hend hn₀
    have hmok := hend.nodes j m hm
    refine ⟨m.log, seen, hmono, fun q id r i hconf => ?_, fun q id key value hread => ?_⟩
    · obtain ⟨hq, ⟨p, cmd, hp, hsub⟩, n, hn, hserved⟩ := hconf.submitted hstates has h₀
      obtain ⟨hle, hi, t, hcom, -⟩ := hserved cmd _
        (hstates.serving_new has h₀ hasks hsub (hp.trans (Nat.le_succ q)) hq id n hn)
      have happlied : i ≤ (c (q + 1)).appliedOn id := by rwa [Cluster.appliedOn_eq hn]
      refine ⟨⟨p, cmd, t, hp, hsub, ?_⟩, fun k hk => ?_⟩
      · exact (hcom.mono (hstates.grows _ _ hq le_rfl)).agree hmok
          (happlied.trans ((hlast id _ hq).trans (hmax id)))
      · rw [← hseen id (q + 1) hq] at happlied
        exact happlied.trans (hmono id hk)
    · obtain ⟨x, b', b'', hx, hb', hs, hkey, y, hy, hok, rfl⟩ := hread
      have hlt : q < as.length := (List.getElem?_eq_some_iff.mp hx).1
      obtain rfl := Option.some.inj (hb'.symm.trans (hstates.exec q hlt.le))
      obtain ⟨n, hn, hget⟩ := Cluster.step_read hkey hs hy hok
      have hnok := (hstates.ok q hlt.le).nodes id n hn
      have hext := hstates.grows q as.length hlt.le le_rfl
      have hle : n.lastApplied ≤ m.lastApplied := by
        rw [← Cluster.appliedOn_eq hn]
        exact (hlast id q hlt.le).trans (hmax id)
      -- what the node had applied then is the beginning of the log
      have htake : n.log.take (n.lastApplied + 1) = m.log.take (n.lastApplied + 1) :=
        (hnok.sim.applied.mono hext le_rfl List.prefix_rfl).agree hend.inv hmok.sim.applied
          (hnok.logOk.mono hext) hmok.logOk hle
      rw [hnok.db_eq, commandsUpTo_of_take htake, ← Cluster.appliedOn_eq hn, ← hseen id q hlt.le] at hget
      exact ⟨hget, fun hP => Except.ok.inj (hget.symm.trans (hdb.get_runAll _ hP key))⟩
  · -- a cluster without nodes answers nothing
    refine ⟨[], seen, hmono, fun q id r i hconf => ?_, fun q id key value hread => ?_⟩
    · obtain ⟨hq, ⟨p, cmd, hp, hsub⟩, n, hn, hserved⟩ := hconf.submitted hstates has h₀
      obtain ⟨hle, hi, t, hcom, -⟩ := hserved cmd _
        (hstates.serving_new has h₀ hasks hsub (hp.trans (Nat.le_succ q)) hq id n hn)
      obtain ⟨m, t', hm, -⟩ := hstates.holds has hn hle hi hcom hq le_rfl
      exact absurd ⟨id, m, hm⟩ hnone
    · obtain ⟨x, b', b'', hx, hb', hs, hkey, y, hy, hok, rfl⟩ := hread
      have hlt : q < as.length := (List.getElem?_eq_some_iff.mp hx).1
      obtain rfl := Option.some.inj (hb'.symm.trans (hstates.exec q hlt.le))
      obtain ⟨n, hn, -⟩ := Cluster.step_read hkey hs hy hok
      obtain ⟨m, hm⟩ := Option.isSome_iff_exists.mp
        (hstates.isSome has (Option.isSome_of_eq_some hn) hlt.le le_rfl)
      exact absurd ⟨id, m, hm⟩ hnone

end Timeline
end General

section Concrete
open scoped Concrete
open Cluster (Confirms AnswersRead)

/-- Node 3 answers from before the write that node 1 has confirmed. -/
theorem timeline_consistent_stale_read : ∃ (log : List LogEntry) (seen : NodeId → Nat → Nat),
    Monotone (seen 3) ∧ (∃ t cmd, log[1]? = some (.ofCommand t cmd)) ∧ 1 ≤ seen 1 10 ∧
    Storage.get (Storage.runAll (Storage.fresh .default : Database) (commandsUpTo log (seen 3 10))) "a" =
      .ok none := by
  have hrun : ((Cluster.exec .default (Membership.three.start .default ⟨0, 0⟩ : Cluster Database)
      (storedWrite ⟨0, 0⟩)).bind fun b => (Cluster.step .default b
        (.process 1 (.message (.appendEntriesResponse ⟨1, 2, true, 1⟩)) ⟨0, 0⟩)).bind fun c =>
          (Cluster.step .default c (readA 3 ⟨0, 0⟩)).map fun c' =>
        (decide (⟨.oneshot 7, true, none, appliedAt 1⟩ ∈ Cluster.givenIn 1 b c
            (.process 1 (.message (.appendEntriesResponse ⟨1, 2, true, 1⟩)) ⟨0, 0⟩)),
          decide (⟨.oneshot 8, true, none, "Read from Node 3"⟩ ∈ c'.answeredBy 3 - c.answeredBy 3))) =
      some (true, true) := by
    decide +kernel
  obtain ⟨b, hb, hrun⟩ := Option.bind_eq_some_iff.mp hrun
  obtain ⟨c, hc, hrun⟩ := Option.bind_eq_some_iff.mp hrun
  obtain ⟨c', hc', hrun⟩ := Option.map_eq_some_iff.mp hrun
  obtain ⟨hgiven, hread⟩ := Prod.mk.inj hrun
  have hack : Cluster.exec .default (Membership.three.start .default ⟨0, 0⟩) (acknowledgedWrite ⟨0, 0⟩) =
      some c := (Cluster.exec_concat _).mpr ⟨b, hb, hc⟩
  have hconf : Confirms .default (Membership.three.start .default ⟨0, 0⟩ : Cluster Database)
      (acknowledgedWrite ⟨0, 0⟩ ++ [readA 3 ⟨0, 0⟩]) 9 1 (.oneshot 7) 1 :=
    ⟨_, b, c, rfl, hb, hc, _, of_decide_eq_true hgiven, rfl, rfl, rfl⟩
  have hanswer : AnswersRead .default (Membership.three.start .default ⟨0, 0⟩ : Cluster Database)
      (acknowledgedWrite ⟨0, 0⟩ ++ [readA 3 ⟨0, 0⟩]) 10 3 "a" none :=
    ⟨_, c, c', rfl, hack, hc', rfl, _, of_decide_eq_true hread, rfl, rfl⟩
  obtain ⟨log, seen, hmono, hconfirms, hreads⟩ := timeline_consistent Membership.three .default ⟨0, 0⟩
    (by decide) (by decide) ((Cluster.exec_concat _).mpr ⟨c, hack, hc'⟩) (database_reliable .default)
  obtain ⟨⟨-, cmd, t, -, -, hlog⟩, hlater⟩ := hconfirms 9 1 (.oneshot 7) 1 hconf
  exact ⟨log, seen, hmono 3, ⟨t, cmd, hlog⟩, hlater 10 (by decide), (hreads 10 3 "a" none hanswer).1⟩

end Concrete
end KvRaft
