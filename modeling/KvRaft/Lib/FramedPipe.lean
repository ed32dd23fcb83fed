import KvRaft.Lib.Bytes

/-! Messages over a byte stream that can break off. A writer puts one frame after the other into the stream
and a reader takes them off its front; when the stream breaks in the middle of a frame, the writer stops. -/

namespace FramedPipe
variable {α : Type}

/-- The frames of messages and their reader. It may give up on a frame, but it never takes one message for
another, nor a piece of a frame for a message. -/
structure Framing (α : Type) where
  frame : α → Bytes
  read : Bytes → Option (α × Bytes)
  read_nil : read [] = none
  read_frame : ∀ a rest, read (frame a ++ rest) = some (a, rest) ∨ read (frame a ++ rest) = none
  read_take : ∀ a k, k < (frame a).length → read ((frame a).take k) = none

structure Pipe (α : Type) where
  /-- What the writer has been given and has not written. -/
  queue : List α
  /-- What is written and not read. -/
  bytes : Bytes
  writing : Bool
  /-- On record: all that the writer was given. -/
  sent : List α
  /-- On record: all that the reader has passed on. -/
  received : List α

namespace Pipe

def fresh (writing : Bool) : Pipe α := ⟨[], [], writing, [], []⟩

/-- A writer that has stopped takes nothing any more. -/
def push (a : α) (p : Pipe α) : Pipe α :=
  if p.writing then { p with queue := p.queue ++ [a], sent := p.sent ++ [a] } else p

def shut (p : Pipe α) : Pipe α := { p with queue := [], writing := false }

variable (F : Framing α)

def write (p : Pipe α) : Option (Pipe α) :=
  match p.queue with
  | [] => none
  | a :: queue => if p.writing then some { p with queue := queue, bytes := p.bytes ++ F.frame a } else none

/-- The stream breaks after some bytes of a frame. -/
def tear (k : Nat) (p : Pipe α) : Option (Pipe α) :=
  match p.queue with
  | [] => none
  | a :: _ =>
    if p.writing ∧ k < (F.frame a).length then
      some ({ p with bytes := p.bytes ++ (F.frame a).take k } : Pipe α).shut
    else none

def read (p : Pipe α) : Option (α × Pipe α) :=
  (F.read p.bytes).map fun r => (r.1, { p with bytes := r.2, received := p.received ++ [r.1] })

/-- What is in the stream and in the queue goes on from what was received, in the order in which it was
sent; behind the whole frames there is at most a piece of one, and then the writer has stopped. -/
structure Sound (p : Pipe α) (wired : List α) (torn : Bytes) : Prop where
  bytes : p.bytes = wired.flatMap F.frame ++ torn
  piece : torn = [] ∨ ∃ a k, k < (F.frame a).length ∧ torn = (F.frame a).take k
  order : p.received ++ wired ++ p.queue <+: p.sent
  whole : p.writing = true → torn = [] ∧ p.received ++ wired ++ p.queue = p.sent

def Ok (p : Pipe α) : Prop := ∃ wired torn, p.Sound F wired torn

variable {F} {p p' : Pipe α} {a : α} {k : Nat}

theorem ok_fresh (writing : Bool) : (fresh writing : Pipe α).Ok F :=
  ⟨[], [], rfl, .inl rfl, List.prefix_rfl, fun _ => ⟨rfl, rfl⟩⟩

theorem Ok.push (h : p.Ok F) (a : α) : (p.push a).Ok F := by
  obtain ⟨wired, torn, h⟩ := h
  unfold Pipe.push
  split_ifs with hwriting
  · obtain ⟨htorn, hsent⟩ := h.whole hwriting
    have hmore : p.received ++ wired ++ (p.queue ++ [a]) = p.sent ++ [a] := by
      rw [← hsent, List.append_assoc _ p.queue]
    exact ⟨wired, torn, h.bytes, h.piece, hmore ▸ List.prefix_rfl, fun _ => ⟨htorn, hmore⟩⟩
  · exact ⟨wired, torn, h⟩

theorem mem_sent_push {b : α} (h : b ∈ (p.push a).sent) : b ∈ p.sent ∨ b = a := by
  unfold Pipe.push at h
  split_ifs at h
  · rcases List.mem_append.mp h with h | h
    · exact .inl h
    · exact .inr (List.mem_singleton.mp h)
  · exact .inl h

theorem Ok.shut (h : p.Ok F) : p.shut.Ok F := by
  obtain ⟨wired, torn, h⟩ := h
  refine ⟨wired, torn, h.bytes, h.piece, ?_, fun hwriting => (nomatch hwriting)⟩
  rw [Pipe.shut, List.append_nil]
  exact (List.prefix_append _ p.queue).trans h.order

theorem Ok.write (h : p.Ok F) (hp : p.write F = some p') : p'.Ok F := by
  obtain ⟨wired, torn, h⟩ := h
  unfold Pipe.write at hp
  split at hp
  · cases hp
  · next a queue hqueue =>
    split_ifs at hp with hwriting
    obtain rfl := Option.some.inj hp
    obtain ⟨rfl, hsent⟩ := h.whole hwriting
    have hmove : p.received ++ (wired ++ [a]) ++ queue = p.sent := by
      rw [← hsent, hqueue]
      simp
    refine ⟨wired ++ [a], [], ?_, .inl rfl, hmove ▸ List.prefix_rfl, fun _ => ⟨rfl, hmove⟩⟩
    simp [h.bytes]

theorem Ok.tear (h : p.Ok F) (hp : p.tear F k = some p') : p'.Ok F := by
  obtain ⟨wired, torn, h⟩ := h
  unfold Pipe.tear at hp
  split at hp
  · cases hp
  · next a queue hqueue =>
    split_ifs at hp with hbreak
    obtain rfl := Option.some.inj hp
    obtain ⟨rfl, -⟩ := h.whole hbreak.1
    refine ⟨wired, (F.frame a).take k, ?_, .inr ⟨a, k, hbreak.2, rfl⟩, ?_, fun hwriting => (nomatch hwriting)⟩
    · simp [Pipe.shut, h.bytes]
    · rw [Pipe.shut, List.append_nil]
      exact (List.prefix_append _ p.queue).trans h.order

theorem write_sent (hp : p.write F = some p') : p'.sent = p.sent := by
  unfold Pipe.write at hp
  split at hp
  · cases hp
  · split_ifs at hp
    exact Option.some.inj hp ▸ rfl

theorem tear_sent (hp : p.tear F k = some p') : p'.sent = p.sent := by
  unfold Pipe.tear at hp
  split at hp
  · cases hp
  · split_ifs at hp
    exact Option.some.inj hp ▸ rfl

theorem Sound.read {wired : List α} {torn : Bytes} (h : p.Sound F wired torn) (hp : p.read F = some (a, p')) :
    ∃ rest, wired = a :: rest ∧ p'.Sound F rest torn ∧ p'.sent = p.sent ∧ p'.received = p.received ++ [a] := by
  obtain ⟨⟨b, left⟩, hread, heq⟩ := Option.map_eq_some_iff.mp hp
  obtain ⟨rfl, rfl⟩ := Prod.mk.inj heq
  rw [h.bytes] at hread
  cases wired with
  | nil =>
    -- there is no message in a piece of a frame
    rw [List.flatMap_nil, List.nil_append] at hread
    rcases h.piece with rfl | ⟨c, k, hk, rfl⟩
    · cases F.read_nil.symm.trans hread
    · rw [F.read_take c k hk] at hread
      cases hread
  | cons c rest =>
    rw [List.flatMap_cons, List.append_assoc] at hread
    have hframe : F.read (F.frame c ++ (rest.flatMap F.frame ++ torn)) = some (c, rest.flatMap F.frame ++ torn) := by
      rcases F.read_frame c (rest.flatMap F.frame ++ torn) with hsome | hnone
      · exact hsome
      · cases hnone.symm.trans hread
    obtain ⟨rfl, rfl⟩ := Prod.mk.inj (Option.some.inj (hframe.symm.trans hread))
    have hmove : p.received ++ [c] ++ rest ++ p.queue = p.received ++ c :: rest ++ p.queue := by simp
    refine ⟨rest, rfl, ⟨rfl, h.piece, hmove ▸ h.order, fun hwriting => ?_⟩, rfl, rfl⟩
    obtain ⟨htorn, hsent⟩ := h.whole hwriting
    exact ⟨htorn, hmove.trans hsent⟩

end Pipe
end FramedPipe
