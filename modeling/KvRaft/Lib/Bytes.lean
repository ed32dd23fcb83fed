import Mathlib.Tactic

/-! Little-endian integers and exact reads over byte strings. -/

abbrev Bytes := List UInt8

namespace Bytes

/-- The `w` low bytes of `n`, least significant first. -/
def leBytes : Nat → Nat → Bytes
  | 0, _ => []
  | w + 1, n => UInt8.ofNat n :: leBytes w (n / 256)

def leNat : Bytes → Nat
  | [] => 0
  | b :: bs => b.toNat + 256 * leNat bs

/-- Reads exactly `k` bytes, or nothing when fewer are left. -/
def readExact (k : Nat) (bs : Bytes) : Option (Bytes × Bytes) :=
  if k ≤ bs.length then some (bs.take k, bs.drop k) else none

@[simp] theorem leBytes_length (w n : Nat) : (leBytes w n).length = w := by
  induction w generalizing n with
  | zero => rfl
  | succ w ih => simp [leBytes, ih]

theorem leNat_leBytes_mod (w n : Nat) : leNat (leBytes w n) = n % 256 ^ w := by
  induction w generalizing n with
  | zero => simp [leBytes, leNat, Nat.mod_one]
  | succ w ih =>
    have hb : (UInt8.ofNat n).toNat = n % 256 := by simp
    rw [leBytes, leNat, ih, hb, pow_succ, Nat.mul_comm (256 ^ w) 256, Nat.mod_mul]

theorem leNat_leBytes {w n : Nat} (h : n < 256 ^ w) : leNat (leBytes w n) = n := by
  rw [leNat_leBytes_mod, Nat.mod_eq_of_lt h]

theorem leNat_lt (bs : Bytes) : leNat bs < 256 ^ bs.length := by
  induction bs with
  | nil => simp [leNat]
  | cons b bs ih =>
    have hb : b.toNat < 256 := b.toNat_lt
    rw [leNat, List.length_cons, pow_succ]
    omega

theorem leBytes_leNat (bs : Bytes) : leBytes bs.length (leNat bs) = bs := by
  induction bs with
  | nil => rfl
  | cons b bs ih =>
    have hb : b.toNat < 256 := b.toNat_lt
    have hlow : UInt8.ofNat (b.toNat + 256 * leNat bs) = b := by
      apply UInt8.toNat_inj.mp
      rw [UInt8.toNat_ofNat']
      omega
    have hhigh : (b.toNat + 256 * leNat bs) / 256 = leNat bs := by omega
    rw [List.length_cons, leNat, leBytes, hlow, hhigh, ih]

theorem leNat_append (bs bs' : Bytes) : leNat (bs ++ bs') = leNat bs + 256 ^ bs.length * leNat bs' := by
  induction bs with
  | nil => simp [leNat]
  | cons b bs ih =>
    rw [List.cons_append, leNat, leNat, ih, List.length_cons, pow_succ]
    ring

theorem leBytes_take {w k : Nat} (h : k ≤ w) (n : Nat) : (leBytes w n).take k = leBytes k n := by
  induction k generalizing w n with
  | zero => rfl
  | succ k ih =>
    obtain ⟨w, rfl⟩ := Nat.exists_eq_add_of_le' (Nat.lt_of_lt_of_le (Nat.succ_pos k) h)
    rw [leBytes, List.take_succ_cons, ih (Nat.le_of_succ_le_succ h), leBytes]

@[simp] theorem readExact_append (xs ys : Bytes) :
    readExact xs.length (xs ++ ys) = some (xs, ys) := by
  simp [readExact]

theorem readExact_append_of_length {k : Nat} {xs : Bytes} (h : xs.length = k) (ys : Bytes) :
    readExact k (xs ++ ys) = some (xs, ys) := by
  subst h
  exact readExact_append xs ys

theorem readExact_short {k : Nat} {bs : Bytes} (h : bs.length < k) : readExact k bs = none := by
  simp [readExact, Nat.not_le.mpr h]

theorem readExact_eq_some {k : Nat} {bs xs ys : Bytes} (h : readExact k bs = some (xs, ys)) :
    bs = xs ++ ys ∧ xs.length = k := by
  unfold readExact at h
  split_ifs at h with hk
  obtain ⟨rfl, rfl⟩ := Prod.mk.inj (Option.some.inj h)
  exact ⟨(List.take_append_drop k bs).symm, List.length_take_of_le hk⟩

theorem slice_append {i n : Nat} {xs : Bytes} (pre : Bytes) (hi : pre.length = i) (hn : xs.length = n)
    (ys : Bytes) : ((pre ++ (xs ++ ys)).drop i).take n = xs := by
  rw [List.drop_left' hi, List.take_left' hn]

end Bytes
