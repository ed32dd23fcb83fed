import KvRaft.Lib.Bytes

/-! Self-delimiting binary formats, built up from fixed-width integers. -/

open Bytes

/-- A format: what was written is read back, whatever follows it, and never from less of it. -/
structure Codec (α : Type) where
  enc : α → Bytes
  dec : Bytes → Option (α × Bytes)
  dec_enc : ∀ a rest, dec (enc a ++ rest) = some (a, rest)
  dec_take : ∀ a k, k < (enc a).length → dec ((enc a).take k) = none

namespace Codec
variable {α β γ : Type}

/-- A cut in two concatenated strings lies in the first or leaves it whole. -/
theorem take_append_cases {xs ys : Bytes} {k : Nat} (hk : k < (xs ++ ys).length) :
    (k < xs.length ∧ (xs ++ ys).take k = xs.take k) ∨
      ∃ j, j < ys.length ∧ (xs ++ ys).take k = xs ++ ys.take j := by
  rw [List.length_append] at hk
  by_cases hlt : k < xs.length
  · exact Or.inl ⟨hlt, List.take_append_of_le_length hlt.le⟩
  · refine Or.inr ⟨k - xs.length, by omega, ?_⟩
    rw [List.take_append, List.take_of_length_le (by omega)]

def follow (A : Codec α) (f : α → Bytes → Option (β × Bytes)) (bs : Bytes) : Option (β × Bytes) :=
  (A.dec bs).bind fun p => f p.1 p.2

theorem follow_enc (A : Codec α) (f : α → Bytes → Option (β × Bytes)) (a : α) (bs : Bytes) :
    A.follow f (A.enc a ++ bs) = f a bs := by
  rw [follow, A.dec_enc, Option.bind_some]

/-- Nothing is read from a cut-off concatenation if nothing is read from its second part cut off. -/
theorem follow_take (A : Codec α) (f : α → Bytes → Option (β × Bytes)) (a : α) (ys : Bytes)
    (hf : ∀ j < ys.length, f a (ys.take j) = none) (k : Nat) (hk : k < (A.enc a ++ ys).length) :
    A.follow f ((A.enc a ++ ys).take k) = none := by
  rcases take_append_cases hk with ⟨hlt, heq⟩ | ⟨j, hj, heq⟩
  · rw [heq, follow, A.dec_take _ _ hlt, Option.bind_none]
  · rw [heq, follow_enc, hf j hj]

def pair (A : Codec α) (B : Codec β) : Codec (α × β) where
  enc p := A.enc p.1 ++ B.enc p.2
  dec := A.follow fun a bs => (B.dec bs).map fun q => ((a, q.1), q.2)
  dec_enc p rest := by
    rw [List.append_assoc, follow_enc, B.dec_enc, Option.map_some]
  dec_take p := A.follow_take _ p.1 _ fun j hj => by
    rw [B.dec_take _ _ hj, Option.map_none]

def xmap (A : Codec α) (f : β → α) (g : α → Option β) (hgf : ∀ b, g (f b) = some b) : Codec β where
  enc b := A.enc (f b)
  dec bs := (A.dec bs).bind fun p => (g p.1).map fun b => (b, p.2)
  dec_enc b rest := by
    rw [A.dec_enc, Option.bind_some, hgf, Option.map_some]
  dec_take b k hk := by
    rw [A.dec_take _ _ hk, Option.bind_none]

def uint (w : Nat) : Codec (Fin (256 ^ w)) where
  enc n := leBytes w n
  dec bs := (readExact w bs).map fun p => (Fin.ofNat _ (leNat p.1), p.2)
  dec_enc n rest := by
    rw [readExact_append_of_length (leBytes_length w n), Option.map_some, leNat_leBytes n.isLt,
      Fin.ofNat_val_eq_self]
  dec_take n k hk := by
    rw [leBytes_length] at hk
    rw [readExact_short, Option.map_none]
    rw [List.length_take, leBytes_length]
    omega

def decUnary : Bytes → Option (Nat × Bytes)
  | [] => none
  | b :: bs => if b = 1 then (decUnary bs).map fun p => (p.1 + 1, p.2) else some (0, bs)

def unary : Codec Nat where
  enc n := List.replicate n 1 ++ [0]
  dec := decUnary
  dec_enc n rest := by
    induction n with
    | zero => rfl
    | succ n ih =>
      rw [List.replicate_succ, List.cons_append, List.cons_append, decUnary, if_pos rfl, ih,
        Option.map_some]
  dec_take n k hk := by
    induction n generalizing k with
    | zero =>
      obtain rfl : k = 0 := by simpa using hk
      rfl
    | succ n ih => cases k with
      | zero => rfl
      | succ k =>
        rw [List.replicate_succ, List.cons_append, List.length_cons] at hk
        rw [List.replicate_succ, List.cons_append, List.take_succ_cons, decUnary, if_pos rfl,
          ih k (by omega), Option.map_none]

def maxU64 : Fin (256 ^ 8) := ⟨256 ^ 8 - 1, by decide⟩

/-- Natural numbers as eight-byte integers; the ones from `2 ^ 64 - 1` on, which do not occur, are
written in unary behind `maxU64`. -/
def nat : Codec Nat where
  enc n := if h : n < maxU64 then (uint 8).enc ⟨n, h.trans maxU64.isLt⟩
    else (uint 8).enc maxU64 ++ unary.enc (n - maxU64)
  dec := (uint 8).follow fun m bs => if m < maxU64 then some (m.val, bs)
    else (unary.dec bs).map fun p => (p.1 + maxU64, p.2)
  dec_enc n rest := by
    split_ifs with hn
    · rw [follow_enc, if_pos (Fin.mk_lt_of_lt_val hn)]
    · rw [List.append_assoc, follow_enc, if_neg (lt_irrefl _), unary.dec_enc, Option.map_some,
        Nat.sub_add_cancel (Nat.not_lt.mp hn)]
  dec_take n k hk := by
    split_ifs at hk ⊢ with hn
    · rw [follow, (uint 8).dec_take _ _ hk, Option.bind_none]
    · refine (uint 8).follow_take _ _ _ (fun j hj => ?_) k hk
      rw [if_neg (lt_irrefl _), unary.dec_take _ _ hj, Option.map_none]

def variants (A : Codec α) (B : Codec β) (C : Codec γ) : Codec (α ⊕ β ⊕ γ) where
  enc
    | .inl a => (uint 4).enc 0 ++ A.enc a
    | .inr (.inl b) => (uint 4).enc 1 ++ B.enc b
    | .inr (.inr c) => (uint 4).enc 2 ++ C.enc c
  dec := (uint 4).follow fun t bs =>
    if t = 0 then (A.dec bs).map fun p => (.inl p.1, p.2)
    else if t = 1 then (B.dec bs).map fun p => (.inr (.inl p.1), p.2)
    else if t = 2 then (C.dec bs).map fun p => (.inr (.inr p.1), p.2)
    else none
  dec_enc x rest := by
    rcases x with a | b | c
    · rw [List.append_assoc, follow_enc, if_pos rfl, A.dec_enc, Option.map_some]
    · rw [List.append_assoc, follow_enc, if_neg (by decide), if_pos rfl, B.dec_enc, Option.map_some]
    · rw [List.append_assoc, follow_enc, if_neg (by decide), if_neg (by decide), if_pos rfl, C.dec_enc,
        Option.map_some]
  dec_take x := by
    rcases x with a | b | c
    · refine (uint 4).follow_take _ _ _ fun j hj => ?_
      rw [if_pos rfl, A.dec_take _ _ hj, Option.map_none]
    · refine (uint 4).follow_take _ _ _ fun j hj => ?_
      rw [if_neg (by decide), if_pos rfl, B.dec_take _ _ hj, Option.map_none]
    · refine (uint 4).follow_take _ _ _ fun j hj => ?_
      rw [if_neg (by decide), if_neg (by decide), if_pos rfl, C.dec_take _ _ hj, Option.map_none]

def bytes : Codec Bytes where
  enc bs := nat.enc bs.length ++ bs
  dec := nat.follow readExact
  dec_enc bs rest := by
    rw [List.append_assoc, follow_enc, readExact_append]
  dec_take bs := nat.follow_take _ _ _ fun j hj => readExact_short (by
    rw [List.length_take]
    omega)

def decMany (A : Codec α) : Nat → Bytes → Option (List α × Bytes)
  | 0, bs => some ([], bs)
  | n + 1, bs => A.follow (fun a bs => (decMany A n bs).map fun q => (a :: q.1, q.2)) bs

def list (A : Codec α) : Codec (List α) where
  enc l := nat.enc l.length ++ l.flatMap A.enc
  dec := nat.follow (decMany A)
  dec_enc l rest := by
    rw [List.append_assoc, follow_enc]
    induction l with
    | nil => rfl
    | cons a l ih =>
      rw [List.length_cons, List.flatMap_cons, List.append_assoc, decMany, follow_enc, ih, Option.map_some]
  dec_take l := nat.follow_take _ _ _ (by
    induction l with
    | nil => exact fun j hj => absurd hj (Nat.not_lt_zero j)
    | cons a l ih =>
      intro j hj
      rw [List.flatMap_cons] at hj ⊢
      refine A.follow_take _ a _ (fun i hi => ?_) j hj
      rw [ih i hi, Option.map_none])

def unit : Codec Unit where
  enc _ := []
  dec bs := some ((), bs)
  dec_enc _ _ := rfl
  dec_take _ k hk := absurd hk (Nat.not_lt_zero k)

/-- The `n` alternatives of a type: the number of a value's alternative, and the bytes of its fields. -/
structure Alternatives (n : Nat) (α : Type) where
  tag : α → Fin n
  enc : α → Bytes
  dec : Nat → Bytes → Option (α × Bytes)
  dec_enc : ∀ a rest, dec (tag a) (enc a ++ rest) = some (a, rest)
  dec_take : ∀ a k, k < (enc a).length → dec (tag a) ((enc a).take k) = none

namespace Alternatives

def none : Alternatives 0 Empty where
  tag := nofun
  enc := nofun
  dec _ _ := .none
  dec_enc := nofun
  dec_take := nofun

def first {n : Nat} (A : Codec α) (V : Alternatives n β) : Alternatives (n + 1) (α ⊕ β) where
  tag
    | .inl _ => 0
    | .inr b => (V.tag b).succ
  enc
    | .inl a => A.enc a
    | .inr b => V.enc b
  dec
    | 0, bs => (A.dec bs).map fun p => (.inl p.1, p.2)
    | t + 1, bs => (V.dec t bs).map fun p => (.inr p.1, p.2)
  dec_enc x rest := by
    rcases x with a | b
    · exact congrArg (Option.map _) (A.dec_enc a rest)
    · exact congrArg (Option.map _) (V.dec_enc b rest)
  dec_take x k hk := by
    rcases x with a | b
    · exact congrArg (Option.map _) (A.dec_take a k hk)
    · exact congrArg (Option.map _) (V.dec_take b k hk)

def codec {n : Nat} (V : Alternatives n α) (w : Nat) (hw : n ≤ 256 ^ w) : Codec α where
  enc a := (uint w).enc ((V.tag a).castLE hw) ++ V.enc a
  dec := (uint w).follow fun t bs => V.dec t bs
  dec_enc a rest := by
    rw [List.append_assoc, follow_enc]
    exact V.dec_enc a rest
  dec_take a := (uint w).follow_take _ _ _ (V.dec_take a)

end Alternatives

def empty : Codec Empty where
  enc := nofun
  dec _ := none
  dec_enc := nofun
  dec_take := nofun

end Codec
