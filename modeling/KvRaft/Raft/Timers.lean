import KvRaft.Raft.Acts

/-! The timers of a node. Whatever a node handles, a deadline that is new is the clock and a timeout, and the
timeout stays what it is. -/

namespace KvRaft.RaftNode
variable {D : Type} [Storage D]

/-- The time a node waits for its leader before it stands for election. -/
def patience (n : RaftNode D) (now : Instant) : Nat := n.electionTimeout.getD (now.jitter * 1000000)

structure Timed (now : Instant) (n n' : RaftNode D) : Prop where
  timeout : n'.electionTimeout = n.electionTimeout
  election : n'.electionDeadline = n.electionDeadline ∨ n'.electionDeadline = now.ns + n.patience now
  heartbeat : n'.heartbeatDeadline = n.heartbeatDeadline ∨ n'.heartbeatDeadline = now.ns + 100000000

namespace Timed
variable {now : Instant} {n n' n'' : RaftNode D}

theorem frame (ht : n'.electionTimeout = n.electionTimeout) (he : n'.electionDeadline = n.electionDeadline)
    (hh : n'.heartbeatDeadline = n.heartbeatDeadline) : Timed now n n' := ⟨ht, .inl he, .inl hh⟩

theorem refl (n : RaftNode D) : Timed now n n := frame rfl rfl rfl

theorem trans (h : Timed now n n') (h' : Timed now n' n'') : Timed now n n'' := by
  have hpatience : n'.patience now = n.patience now := by rw [patience, patience, h.timeout]
  refine ⟨h'.timeout.trans h.timeout, ?_, ?_⟩
  · rcases h'.election with he | he
    · rw [he]
      exact h.election
    · exact .inr (hpatience ▸ he)
  · rcases h'.heartbeat with hh | hh
    · rw [hh]
      exact h.heartbeat
    · exact .inr hh

theorem resetElectionTimeout (n : RaftNode D) (now : Instant) : Timed now n (n.resetElectionTimeout now) :=
  ⟨rfl, .inr rfl, .inl rfl⟩

theorem stepDown (n : RaftNode D) (term : Nat) (now : Instant) : Timed now n (n.stepDown term now) :=
  ⟨rfl, .inr rfl, .inl rfl⟩

theorem restart (n : RaftNode D) (now : Instant) : Timed now n (n.restart now) := ⟨rfl, .inr rfl, .inl rfl⟩

end Timed

section Process
variable {input : Input} {now : Instant} {n n' : RaftNode D}

theorem Timed.applyNext (hs : n.applyNext = some n') : Timed now n n' := by
  obtain ⟨e, -, rfl⟩ := applyNext_eq_some hs
  have hpayload : Timed now n (n.applyPayload e.payload).2 := by
    cases e.payload with
    | command | addNode | removeNode => exact .frame rfl rfl rfl
  refine hpayload.trans ?_
  unfold RaftNode.resolvePending
  split
  · exact .frame rfl rfl rfl
  · exact .frame rfl rfl rfl

theorem Timed.applyCommittedEntries (hs : n.applyCommittedEntries = some n') : Timed now n n' :=
  (applyCommittedEntries_induct (I := Timed now n) hs (.refl n) fun _ _ hb _ _ happ => hb.trans (.applyNext happ)).1

variable [FloatText] [Bincode]

theorem Act.timed (h : Act input now n n') : Timed now n n' := by
  cases h with
  | timers he hh => exact ⟨rfl, he, hh⟩
  | follow | grant => exact ⟨rfl, .inr rfl, .inl rfl⟩
  | @settle _ k _ _ _ hs =>
    have hcommit : Timed now n ({ n with commitIndex := k }).persistMeta := .frame rfl rfl rfl
    exact hcommit.trans (.applyCommittedEntries hs)
  | _ => exact .frame rfl rfl rfl

theorem Acts.timed (h : Acts input now n n') : Timed now n n' := by
  induction h with
  | refl => exact .refl _
  | tail _ hlast ih => exact ih.trans hlast.timed

theorem startElection_timed (hs : n.startElection now = some n') : Timed now n n' := by
  have hstand : Timed now n n.stand := .frame rfl rfl rfl
  exact hstand.trans (startElection_acts .tick now rfl hs).timed

/-- No handler waits longer than the node waits for its leader, or than a leader waits between heartbeats. -/
theorem process_timed (hs : n.process input now = some n') : Timed now n n' := by
  obtain ⟨b, hb, hacts⟩ := process_acts input now hs
  have hopening : Timed now n (n.opening input now) := by
    unfold opening
    dsimp only
    split_ifs
    · exact .frame rfl rfl rfl
    · exact .frame rfl rfl rfl
  rcases hb with rfl | ⟨t, -, -, rfl⟩
  · exact hopening.trans hacts.timed
  · exact (hopening.trans (.stepDown ..)).trans hacts.timed

end Process
end KvRaft.RaftNode
