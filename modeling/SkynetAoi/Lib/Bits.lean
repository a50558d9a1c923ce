import Mathlib.Data.Nat.Bitwise

/-!
This module contains the masks of machine words.
-/

theorem Nat.or_mask_eq_iff {k a b : Nat}
    : a ||| (2 ^ k - 1) = b ||| (2 ^ k - 1) ↔ a / 2 ^ k = b / 2 ^ k := by
  constructor
  . intro h
    apply Nat.eq_of_testBit_eq
    intro i
    have hbit := congrArg (fun x => Nat.testBit x (k + i)) h
    simp only [Nat.testBit_or, Nat.testBit_two_pow_sub_one] at hbit
    have hi : ¬ k + i < k := by omega
    rw [Nat.testBit_div_two_pow, Nat.testBit_div_two_pow, Nat.add_comm i k]
    simpa [hi] using hbit
  . intro h
    apply Nat.eq_of_testBit_eq
    intro i
    rw [Nat.testBit_or, Nat.testBit_or, Nat.testBit_two_pow_sub_one]
    by_cases hi : i < k
    . simp [hi]
    . have hbit := congrArg (fun x => Nat.testBit x (i - k)) h
      simp only [Nat.testBit_div_two_pow] at hbit
      rw [show i - k + k = i by omega] at hbit
      rw [hbit]

namespace UInt32

theorem or_mask_eq_iff (k : Nat) {a b mask : UInt32} (hmask : mask.toNat = 2 ^ k - 1)
    : a ||| mask = b ||| mask ↔ a.toNat / 2 ^ k = b.toNat / 2 ^ k := by
  rw [← UInt32.toNat_inj, UInt32.toNat_or, UInt32.toNat_or, hmask, Nat.or_mask_eq_iff]

theorem and_mask (k : Nat) (a : UInt32) {mask : UInt32} (hmask : mask.toNat = 2 ^ k - 1)
    : (a &&& mask).toNat = a.toNat % 2 ^ k := by
  rw [UInt32.toNat_and, hmask, Nat.and_two_pow_sub_one_eq_mod]

theorem toNat_shift_left (k : Nat) {a s : UInt32} (hs : s.toNat = k) (hk : k < 32)
    (h : a.toNat * 2 ^ k < 2 ^ 32) : (a <<< s).toNat = a.toNat * 2 ^ k := by
  rw [UInt32.toNat_shiftLeft, hs, Nat.mod_eq_of_lt hk, Nat.shiftLeft_eq, Nat.mod_eq_of_lt h]

theorem toNat_shift_right (k : Nat) (a : UInt32) {s : UInt32} (hs : s.toNat = k) (hk : k < 32)
    : (a >>> s).toNat = a.toNat / 2 ^ k := by
  rw [UInt32.toNat_shiftRight, hs, Nat.mod_eq_of_lt hk, Nat.shiftRight_eq_div_pow]

theorem toNat_shift_left_or (k : Nat) {a s b : UInt32} (hs : s.toNat = k) (hk : k < 32)
    (h : a.toNat * 2 ^ k < 2 ^ 32) (hb : b.toNat < 2 ^ k)
    : (a <<< s ||| b).toNat = a.toNat * 2 ^ k + b.toNat := by
  rw [UInt32.toNat_or, toNat_shift_left k hs hk h, ← Nat.shiftLeft_eq,
    ← Nat.shiftLeft_add_eq_or_of_lt hb]

end UInt32
