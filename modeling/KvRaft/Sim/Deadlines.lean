import KvRaft.Raft.Timers
import KvRaft.Sim.Delivery

/-! How late it gets in a network that nothing disturbs. With a delivery the clock and all that is due move on by
the longest delay or timeout at most, and until that is past the last `Instant` no sum overflows. -/

namespace KvRaft.Simulator
open Relation (ReflTransGen)
open RaftNode (Timed)

section Due
variable {D : Type} [Storage D]

/-- As long as no sum has overflowed, the deadlines are instants. -/
def Due [Platform] (s : Simulation D) : Prop := s.overflowed = false → ∀ id n, s.nodes.lookup id = some n →
  n.electionDeadline ≤ Platform.lastInstant ∧ n.heartbeatDeadline ≤ Platform.lastInstant

namespace Due
variable [Platform] {s s' : Simulation D} {id : NodeId}

theorem frame (h : Due s) (hnodes : s'.nodes = s.nodes) (hfits : s'.overflowed = false → s.overflowed = false) :
    Due s' := fun hs' id n hn => h (hfits hs') id n (hnodes ▸ hn)

theorem clearOutbox (h : Due s) (id : NodeId) : Due (s.clearOutbox id) := by
  intro hfits j n' hn'
  rw [Simulation.clearOutbox_frame_eq] at hfits
  obtain ⟨n, hn, ⟨-, rfl⟩ | ⟨-, rfl⟩⟩ := Simulation.lookup_clearOutbox hn'
  · exact h hfits j n hn
  · exact h hfits j _ hn

theorem flushNodeOutbox (h : Due s) (id : NodeId) : Due (s.flushNodeOutbox id) := by
  rcases s.flushNodeOutbox_cases id with ⟨-, heq⟩ | ⟨-, heq⟩ | ⟨n, -, -, -, hsends⟩
  · exact heq ▸ h.clearOutbox id
  · exact heq.symm ▸ h
  · exact (h.clearOutbox id).frame (by rw [hsends.frame]) hsends.fits

theorem callNode (h : Due s) {call : RaftNode D → Instant → Option (RaftNode D)} (hs : s.callNode id call = some s') :
    Due s' := by
  rcases Simulation.callNode_cases hs with ⟨-, rfl⟩ | ⟨n, n', -, -, rfl⟩
  · exact h
  · intro hfits j m hm
    obtain ⟨hold, hnew⟩ := Bool.or_eq_false_iff.mp hfits
    have hle : max n'.electionDeadline n'.heartbeatDeadline ≤ Platform.lastInstant :=
      not_lt.mp (of_decide_eq_false hnew)
    rcases Simulation.lookup_insert_cases hm with ⟨-, rfl⟩ | ⟨-, hm⟩
    · exact max_le_iff.mp hle
    · exact h hold j m hm

theorem turn (h : Due s) {call : RaftNode D → Instant → Option (RaftNode D)} (hs : s.turn id call = some s') :
    Due s' := by
  obtain ⟨s₁, hs₁, rfl⟩ := Option.map_eq_some_iff.mp hs
  exact (h.callNode hs₁).flushNodeOutbox id

variable [FloatText] [Bincode]

theorem step {m m' : Moment D} (h : Due m.sim) (hs : Step m m') : Due m'.sim := by
  cases hs with
  | mark | enable | pause | links | policy | schedule | unschedule | elapse | take | lose | defer =>
    exact h.frame rfl fun hfits => hfits
  | overflow => exact h.frame rfl fun hfits => (Bool.or_eq_false_iff.mp hfits).1
  | disable s hand id =>
    have hset : Due ({ s with disabledNodes := insert id s.disabledNodes } : Simulation D) :=
      h.frame rfl fun hfits => hfits
    exact hset.clearOutbox id
  | resume s hand id =>
    have hqueue : Due (s.requeue id) := h.frame rfl fun hfits => hfits
    exact hqueue.flushNodeOutbox id
  | @restart s s' hand id hs =>
    have hforget : Due ({ s with
        pausedNodes := s.pausedNodes.erase id, pausedEvents := s.pausedEvents.erase id } : Simulation D) :=
      h.frame rfl fun hfits => hfits
    exact hforget.callNode hs
  | flush s hand id => exact h.flushNodeOutbox id
  | call hand call hs => exact h.turn hs
  | receive hlost hpaused hs => exact h.turn hs

theorem steps {m m' : Moment D} (h : Due m.sim) (hs : ReflTransGen Step m m') : Due m'.sim := by
  induction hs with
  | refl => exact h
  | tail _ hstep ih => exact ih.step hstep

end Due

section Timeouts
variable [FloatText] [Bincode]

def Timeouts (c : Cluster D) : Prop :=
  ∀ id n, c.nodes id = some n → n.electionTimeout = some (Simulation.electionTimeoutOf id)

theorem Asks.timed {c : Cluster D} {id : NodeId} {call : RaftNode D → Instant → Option (RaftNode D)}
    (h : Asks c id call) {n n' : RaftNode D} {now : Instant} (hs : call n now = some n') : Timed now n n' := by
  cases h with
  | restart => exact Option.some.inj hs ▸ .restart n now
  | deliver => exact RaftNode.process_timed hs
  | call call =>
    cases call with
    | startElection => exact RaftNode.startElection_timed hs
    | tick =>
      have hprocess : n.process .tick now = some n' := hs
      exact RaftNode.process_timed hprocess
    | submit command =>
      have hprocess : n.process (.message (.clientCommand command)) now = some n' := hs
      exact RaftNode.process_timed hprocess

theorem persists_timeouts : Persists (Timeouts : Cluster D → Prop) := by
  refine ⟨fun {c c' out} h hsilent id n' hn' => ?_, fun {c id call n n' now} h hcall hn hn' j m hm => ?_⟩
  · rw [hsilent.nodes] at hn'
    obtain ⟨n, hn, rfl⟩ := Option.map_eq_some_iff.mp hn'
    exact h id n hn
  · by_cases hj : j = id
    · subst hj
      rw [Cluster.setNode_self] at hm
      obtain rfl := Option.some.inj hm
      exact (hcall.timed hn').timeout.trans (h j n hn)
    · rw [Cluster.setNode_of_ne _ _ hj] at hm
      exact h j m hm

variable [Platform] {ids : List NodeId} {draws : Nat → Nat} {s s' : Simulation D} {ops : List Operation}

theorem due_newCluster (hs : Simulation.newCluster ids draws = some s) : Due s := by
  obtain ⟨-, -, hnodes⟩ := newCluster_nodes hs
  obtain ⟨-, -, -, hfits⟩ := newCluster_eq_some hs
  intro _ id n hn
  have hid : id ∈ ids := (present_newCluster hs id).mp (by rw [hn]; rfl)
  obtain ⟨b, hb, rfl⟩ := hnodes id n hn
  simp only [RaftNode.newInDir, Dir.empty, Storage.open_empty] at hb
  obtain rfl := Option.some.inj hb
  refine ⟨?_, Nat.zero_le _⟩
  change 0 + Simulation.electionTimeoutOf id ≤ _
  rw [Nat.zero_add]
  exact (hfits id hid).1

theorem timeouts_newCluster (hs : Simulation.newCluster ids draws = some s) : Timeouts (Moment.mk s none).cluster := by
  obtain ⟨-, -, hnodes⟩ := newCluster_nodes hs
  intro id n hn
  obtain ⟨b, -, rfl⟩ := hnodes id n hn
  rfl

theorem exec_fits (hs : Simulation.newCluster ids draws = some s) (hexec : s.exec ops = some s') :
    s'.overflowed = false := by
  obtain ⟨nodes, -, rfl, -⟩ := newCluster_eq_some hs
  exact Fold.foldlM_invariant (P := fun s : Simulation D => s.overflowed = false) hexec rfl
    fun b op b' _ _ hb => (Simulation.operate_eq_some.mp hb).2

end Timeouts
end Due

/-- No sum has overflowed so far, and all that the clock and the events are due for is due at `latest`; no link has a
delay longer than `slack`, and no node waits longer. -/
structure Punctual {D : Type} [Storage D] [Platform] (slack latest : Nat) (s : Simulation D) : Prop where
  fits : s.overflowed = false
  heartbeat : 100000000 ≤ slack
  delays : ∀ link policy, s.linkPolicies.lookup link = some policy → policy.delay.getD 0 ≤ slack
  timeouts : ∀ id n, s.nodes.lookup id = some n → ∃ timeout, n.electionTimeout = some timeout ∧ timeout ≤ slack
  deadlines : ∀ id n, s.nodes.lookup id = some n →
    n.electionDeadline ≤ Platform.lastInstant ∧ n.heartbeatDeadline ≤ Platform.lastInstant
  clock : s.clock ≤ latest
  events : ∀ e ∈ s.events, e.deliverAt ≤ latest

namespace Punctual
variable {D : Type} [Storage D] [Platform] {slack latest latest' : Nat} {s s' : Simulation D} {id sender : NodeId}

theorem mono (h : Punctual slack latest s) (hle : latest ≤ latest') : Punctual slack latest' s :=
  { h with clock := h.clock.trans hle, events := fun e he => (h.events e he).trans hle }

theorem checkInstant_eq {instant : Nat} (hle : instant ≤ Platform.lastInstant) : s.checkInstant instant = s := by
  have hfits : (s.overflowed || decide (Platform.lastInstant < instant)) = s.overflowed := by
    rw [decide_eq_false (not_lt.mpr hle), Bool.or_false]
  unfold Simulation.checkInstant
  rw [hfits]

theorem pushEvent (h : Punctual slack latest s) {deliverAt : Nat} (hle : deliverAt ≤ latest) (e : Envelope) :
    Punctual slack latest (s.pushEvent deliverAt sender e) := by
  refine { h with events := fun x hx => ?_ }
  rcases List.mem_cons.mp hx with rfl | hx
  · exact hle
  · exact h.events x hx

theorem clearOutbox (h : Punctual slack latest s) (id : NodeId) : Punctual slack latest (s.clearOutbox id) := by
  rw [Simulation.clearOutbox_frame_eq]
  refine { h with timeouts := fun j n' hn' => ?_, deadlines := fun j n' hn' => ?_ }
  · obtain ⟨n, hn, ⟨-, rfl⟩ | ⟨-, rfl⟩⟩ := Simulation.lookup_clearOutbox hn'
    · exact h.timeouts j n hn
    · exact h.timeouts j _ hn
  · obtain ⟨n, hn, ⟨-, rfl⟩ | ⟨-, rfl⟩⟩ := Simulation.lookup_clearOutbox hn'
    · exact h.deadlines j n hn
    · exact h.deadlines j _ hn

section Turn
variable (hlast : latest ≤ Platform.lastInstant)
include hlast

theorem routeMessage (h : Punctual slack latest s) (hclock : s.clock + slack ≤ latest) (hs : s.Healthy)
    (sender : NodeId) (e : Envelope) : Punctual slack latest (Simulation.routeMessage sender s e) ∧
      (Simulation.routeMessage sender s e).clock = s.clock ∧ (Simulation.routeMessage sender s e).Healthy := by
  unfold Simulation.routeMessage
  split_ifs
  · exact ⟨h, rfl, hs⟩
  · exact ⟨h, rfl, hs⟩
  · split
    · exact ⟨h.pushEvent h.clock e, rfl, hs.of_frame rfl⟩
    · next policy hpolicy =>
      have hdelay := h.delays _ policy hpolicy
      obtain ⟨hdrop, hduplicate⟩ := hs.policies _ policy hpolicy
      rw [hdrop, if_neg (lt_irrefl 0)]
      dsimp only
      rw [hduplicate, if_neg (lt_irrefl 0), checkInstant_eq (by omega)]
      exact ⟨h.pushEvent (by omega) e, rfl, hs.of_frame rfl⟩

theorem routeMessages (h : Punctual slack latest s) (hclock : s.clock + slack ≤ latest) (hs : s.Healthy)
    (outbox : List Envelope) : Punctual slack latest (outbox.foldl (Simulation.routeMessage sender) s) := by
  induction outbox generalizing s with
  | nil => exact h
  | cons e outbox ih =>
    obtain ⟨hroute, hsame, hhealthy⟩ := routeMessage hlast h hclock hs sender e
    exact ih hroute (hsame ▸ hclock) hhealthy

theorem flushNodeOutbox (h : Punctual slack latest s) (hclock : s.clock + slack ≤ latest) (hs : s.Healthy)
    (id : NodeId) : Punctual slack latest (s.flushNodeOutbox id) := by
  have hcleared : (s.clearOutbox id).clock + slack ≤ latest ∧ (s.clearOutbox id).Healthy := by
    rw [Simulation.clearOutbox_frame_eq]
    exact ⟨hclock, hs.of_frame rfl⟩
  unfold Simulation.flushNodeOutbox
  split_ifs
  · exact h.clearOutbox id
  · exact h
  · split
    · exact h
    · exact routeMessages hlast (h.clearOutbox id) hcleared.1 hcleared.2 _

theorem turn (h : Punctual slack latest s) (hclock : s.clock + slack ≤ latest) (hs : s.Healthy)
    {call : RaftNode D → Instant → Option (RaftNode D)}
    (htimed : ∀ n n' now, call n now = some n' → Timed now n n') (hs' : s.turn id call = some s') :
    Punctual slack latest s' := by
  obtain ⟨s₁, hs₁, rfl⟩ := Option.map_eq_some_iff.mp hs'
  rcases Simulation.callNode_cases hs₁ with ⟨-, rfl⟩ | ⟨n, n', hn, hn', rfl⟩
  · exact flushNodeOutbox hlast h hclock hs id
  · obtain ⟨htimeout, helection, hheartbeat⟩ := htimed n n' _ hn'
    obtain ⟨timeout, hsome, hle⟩ := h.timeouts id n hn
    obtain ⟨hold, hold'⟩ := h.deadlines id n hn
    have hslack := h.heartbeat
    have hpatience : n.patience s.now = timeout := by rw [RaftNode.patience, hsome, Option.getD_some]
    rw [hpatience] at helection
    have hnow : s.now.ns = s.clock := rfl
    rw [hnow] at helection hheartbeat
    have hcalled : Punctual slack latest ({ s with
        nodes := s.nodes.insert id n', draws := fun k => s.draws (k + 1) } : Simulation D) := by
      refine { h with timeouts := fun j m hm => ?_, deadlines := fun j m hm => ?_ }
      · rcases Simulation.lookup_insert_cases hm with ⟨-, rfl⟩ | ⟨-, hm⟩
        · exact ⟨timeout, htimeout.trans hsome, hle⟩
        · exact h.timeouts j m hm
      · rcases Simulation.lookup_insert_cases hm with ⟨-, rfl⟩ | ⟨-, hm⟩
        · exact ⟨by omega, by omega⟩
        · exact h.deadlines j m hm
    rw [checkInstant_eq (by omega)]
    exact flushNodeOutbox hlast hcalled hclock (hs.of_frame rfl) id

theorem startElection [FloatText] [Bincode] (h : Punctual slack latest s) (hclock : s.clock + slack ≤ latest)
    (hs : s.Healthy) (hs' : s.startElection id = some s') : Punctual slack latest s' := by
  unfold Simulation.startElection at hs'
  split_ifs at hs'
  · exact Option.some.inj hs' ▸ h
  · exact turn hlast h hclock hs (fun _ _ _ hn' => RaftNode.startElection_timed hn') hs'

theorem submitCommand [FloatText] [Bincode] (h : Punctual slack latest s) (hclock : s.clock + slack ≤ latest)
    (hs : s.Healthy) {command : Command} (hs' : s.submitCommand id command = some s') : Punctual slack latest s' := by
  have hmark : ∀ m, Punctual slack latest (s.mark m) := fun m => { h with }
  exact turn hlast (hmark _) hclock (hs.of_frame rfl) (fun _ _ _ hn' => RaftNode.process_timed hn') hs'

end Turn

/-- A delivery takes no longer than the longest delay or timeout. -/
theorem deliverNext [FloatText] [Bincode] (h : Punctual slack latest s) (hlast : latest + slack ≤ Platform.lastInstant)
    (hs : s.Healthy) {more : Bool} (hs' : s.deliverNext = some (more, s')) : Punctual slack (latest + slack) s' := by
  by_cases hevents : s.events = []
  · rw [Simulation.deliverNext_of_no_events hs hevents] at hs'
    cases hs'
    exact h.mono (Nat.le_add_right ..)
  · obtain ⟨event, rest, hperm, htaken, hnext⟩ := Simulation.deliverNext_of_healthy hs hevents
    rw [hnext] at hs'
    obtain ⟨s₁, hs₁, heq⟩ := Option.map_eq_some_iff.mp hs'
    cases heq
    have hmem : ∀ e ∈ event :: rest, e.deliverAt ≤ latest := fun e he => h.events e (hperm.mem_iff.mpr he)
    have hclock : max event.deliverAt s.clock ≤ latest := max_le (hmem event (List.mem_cons_self ..)) h.clock
    have hpunctual : Punctual slack latest (s.taking event rest) :=
      { h with clock := hclock, events := fun e he => hmem e (List.mem_cons_of_mem event he) }
    refine turn hlast (hpunctual.mono (Nat.le_add_right ..)) (Nat.add_le_add_right hclock slack) htaken ?_ hs₁
    exact fun n n' now hn' => RaftNode.process_timed hn'

end Punctual
end KvRaft.Simulator
