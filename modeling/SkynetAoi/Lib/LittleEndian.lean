import SkynetAoi.Lib.Bytes
import Mathlib.Algebra.Ring.Nat

/-!
This module contains numbers as the bytes of a machine word, the least significant one first.
-/

namespace LittleEndian

def bytes (width n : Nat) : Bytes :=
  match width with
  | 0 => []
  | width + 1 => UInt8.ofNat n :: bytes width (n / 256)

def number (bs : Bytes) : Nat :=
  match bs with
  | [] => 0
  | b :: bs => b.toNat + 256 * number bs

@[simp]
theorem length_bytes (width n : Nat) : (bytes width n).length = width := by
  induction width generalizing n with
  | zero => rfl
  | succ width ih => rw [bytes, List.length_cons, ih]

theorem number_bytes {width n : Nat} (h : n < 256 ^ width) : number (bytes width n) = n := by
  induction width generalizing n with
  | zero =>
    rw [Nat.pow_zero] at h
    rw [bytes, number]
    omega
  | succ width ih =>
    rw [Nat.pow_succ] at h
    rw [bytes, number, ih (by omega), UInt8.toNat_ofNat']
    omega

theorem number_inj {a b : Bytes} (hlen : a.length = b.length) (h : number a = number b) : a = b := by
  induction a generalizing b with
  | nil => exact (List.eq_nil_of_length_eq_zero hlen.symm).symm
  | cons x a ih =>
    obtain ⟨y, b, rfl⟩ := List.exists_cons_of_length_eq_add_one hlen.symm
    have hx := x.toNat_lt
    have hy := y.toNat_lt
    rw [number, number] at h
    rw [List.length_cons, List.length_cons] at hlen
    rw [UInt8.toNat_inj.mp (by omega : x.toNat = y.toNat),
      ih (by omega) (by omega : number a = number b)]

end LittleEndian
