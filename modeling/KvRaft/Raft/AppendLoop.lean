import KvRaft.Raft.Simulation

/-! The append loop of `handle_append_entries` as a function of the log alone: it brings the log
to the leader's up to the last entry sent, and leaves a log that is there already as it is. -/

namespace KvRaft
open ReplicatedLog

def splice : List LogEntry → Nat → List LogEntry → List LogEntry
  | ℓ, _, [] => ℓ
  | ℓ, i, e :: es => match ℓ[i]? with
    | some old => if old.term ≠ e.term then splice (ℓ.take i ++ [e]) (i + 1) es else splice ℓ (i + 1) es
    | none => splice (ℓ ++ [e]) (i + 1) es

section Splice
variable {L ℓ : List LogEntry} {i : Nat}

theorem splice_take (es : List LogEntry) (hi : i + es.length ≤ L.length)
    (hes : (L.drop i).take es.length = es) :
    splice (L.take i) i es = L.take (i + es.length) := by
  induction es generalizing i with
  | nil => rfl
  | cons e es ih =>
    rw [List.length_cons] at hi hes ⊢
    have hil : i < L.length := by omega
    rw [List.drop_eq_getElem_cons hil, List.take_succ_cons] at hes
    obtain ⟨rfl, hrest⟩ := List.cons.inj hes
    have hnone : (L.take i)[i]? = none := List.getElem?_eq_none (List.length_take_le i L)
    rw [splice, hnone]
    dsimp only
    rw [List.take_append_getElem hil, ih (by omega) hrest, add_right_comm, add_assoc]

/-- The loop on two logs that agree up to every index at which they have entries of the same term. -/
theorem splice_accepts_of_matching (hmatch : ∀ j x y, ℓ[j]? = some x → L[j]? = some y → x.term = y.term →
      ℓ.take (j + 1) = L.take (j + 1)) (es : List LogEntry)
    {m : Nat} (hm : m = i + es.length) (hlen : m < L.length)
    (hes : (L.drop (i + 1)).take es.length = es) (hi : i < ℓ.length)
    (hp : ℓ.take (i + 1) = L.take (i + 1)) : Accepts L m ℓ (splice ℓ (i + 1) es) := by
  induction es generalizing i with
  | nil =>
    refine Or.inl ⟨?_, rfl⟩
    rw [hm, List.length_nil, add_zero, ← hp]
    exact List.take_prefix _ _
  | cons e es ih =>
    rw [List.length_cons] at hm hes
    have hil : i + 1 < L.length := by omega
    rw [List.drop_eq_getElem_cons hil, List.take_succ_cons] at hes
    obtain ⟨rfl, hrest⟩ := List.cons.inj hes
    -- once the log has been cut or has ended, the rest of the entries is appended
    have happend : splice (L.take (i + 2)) (i + 2) es = L.take (m + 1) := by
      rw [splice_take es (by omega) hrest, hm]
      congr 1
      omega
    rw [splice]
    cases hold : ℓ[i + 1]? with
    | none =>
      have hend : ℓ.length = i + 1 := by
        have := List.getElem?_eq_none_iff.mp hold
        omega
      have hwhole : ℓ = L.take (i + 1) := by rw [← hp, List.take_of_length_le hend.le]
      refine Or.inr ⟨fun hpre => ?_, ?_⟩
      · have := hpre.length_le
        rw [List.length_take_of_le hlen] at this
        omega
      · dsimp only
        rw [hwhole, List.take_append_getElem hil]
        exact happend
    | some old =>
      have hlt := (List.getElem?_eq_some_iff.mp hold).1
      dsimp only
      by_cases ht : old.term = (L[i + 1]).term
      · rw [if_neg (not_not.mpr ht)]
        exact ih (by omega) hrest hlt (hmatch (i + 1) old _ hold (List.getElem?_eq_getElem hil) ht)
      · rw [if_pos ht, hp, List.take_append_getElem hil]
        refine Or.inr ⟨fun hpre => ht ?_, happend⟩
        have hold' := prefix_getElem? hpre (i := i + 1)
          (by rw [List.length_take_of_le hlen]; omega)
        rw [hold, List.getElem?_take_of_lt (by omega), List.getElem?_eq_getElem hil] at hold'
        exact congrArg LogEntry.term (Option.some.inj hold')

variable [FloatText] {M : Membership} {a : State NodeId LogEntry}

theorem splice_accepts (hℓ : LogOk M.setting a ℓ) (hL : LogOk M.setting a L) (es : List LogEntry)
    {m : Nat} (hm : m = i + es.length) (hlen : m < L.length)
    (hes : (L.drop (i + 1)).take es.length = es) (hi : i < ℓ.length)
    (hp : ℓ.take (i + 1) = L.take (i + 1)) : Accepts L m ℓ (splice ℓ (i + 1) es) :=
  splice_accepts_of_matching (fun _ _ _ hx hy ht => hℓ.agree hL hx hy ht) es hm hlen hes hi hp

end Splice

namespace RaftNode
variable {D : Type} [Storage D]

@[simp] theorem core_log (n : RaftNode D) : n.core.log = n.log := rfl

theorem pushLogEntry_core [Bincode] (n : RaftNode D) (e : LogEntry) :
    (n.pushLogEntry e).core = { n.core with log := n.log ++ [e] } := rfl

@[simp] theorem pushLogEntry_log [Bincode] (n : RaftNode D) (e : LogEntry) :
    (n.pushLogEntry e).log = n.log ++ [e] := rfl

@[simp] theorem pushLogEntry_outbox [Bincode] (n : RaftNode D) (e : LogEntry) :
    (n.pushLogEntry e).outbox = n.outbox := rfl

theorem truncateLog_core (n : RaftNode D) (i : Nat) :
    (n.truncateLog i).core = { n.core with log := n.log.take i } := rfl

@[simp] theorem truncateLog_log (n : RaftNode D) (i : Nat) : (n.truncateLog i).log = n.log.take i :=
  rfl

@[simp] theorem truncateLog_outbox (n : RaftNode D) (i : Nat) :
    (n.truncateLog i).outbox = n.outbox := rfl

theorem appendLoop_core [Bincode] (n : RaftNode D) (i : Nat) (es : List LogEntry) :
    (n.appendLoop i es).core = { n.core with log := splice n.log i es } ∧
      (n.appendLoop i es).outbox = n.outbox := by
  induction es generalizing n i with
  | nil => exact ⟨rfl, rfl⟩
  | cons e es ih =>
    rw [appendLoop, splice]
    cases n.log[i]? with
    | none =>
      obtain ⟨h1, h2⟩ := ih (n.pushLogEntry e) (i + 1)
      exact ⟨by simpa only [pushLogEntry_core, pushLogEntry_log] using h1, h2⟩
    | some old =>
      dsimp only
      by_cases ht : old.term ≠ e.term
      · obtain ⟨h1, h2⟩ := ih ((n.truncateLog i).pushLogEntry e) (i + 1)
        rw [if_pos ht, if_pos ht]
        exact ⟨by simpa only [pushLogEntry_core, pushLogEntry_log, truncateLog_core,
          truncateLog_log] using h1, h2⟩
      · rw [if_neg ht, if_neg ht]
        exact ih n (i + 1)

end RaftNode
end KvRaft
