import Mathlib.Algebra.Ring.Nat
import Mathlib.Data.Nat.Log
import SkynetAoi.Lib.Framing

/-!
This module contains the functions of `utils.lua` that the gate uses for the lengths of packets. The
numbers are those that a double represents exactly.
-/

namespace Gate

def frexp (num : Nat) : Nat :=
  if num = 0 then 0 else Nat.log2 num + 1

def intToBytes.digits (n num : Nat) : List Nat × Nat :=
  match n with
  | 0 => ([], num)
  | n + 1 =>
    let mul := 2 ^ (8 * n)
    let digit := num / mul
    let (res, num) := digits n (num - digit * mul)
    (res ++ [digit], num)

-- Raises when something is left of the number.
def intToBytes (num : Nat) : Option (List Nat) :=
  let n := (frexp num + 7) / 8
  let (res, num) := intToBytes.digits n num
  if num = 0 then some res else none

def pack (cmd : Bytes) : Option Bytes := do
  let l ← intToBytes cmd.length
  return [UInt8.ofNat (l[1]?.getD 0), UInt8.ofNat (l[0]?.getD 0)] ++ cmd

-- With the big end first.
def bytesToInt (str : Bytes) : Nat :=
  (str.reverse.zipIdx.map fun (byte, k) => byte.toNat * 2 ^ (k * 8)).sum

@[simp]
theorem bytesToInt_pair (hi lo : UInt8) : bytesToInt [hi, lo] = Frame.size hi lo := by
  simp [bytesToInt, Frame.size]
  omega

theorem intToBytes_of_lt {num : Nat} (h : num < 0x10000)
    : ∃ l, intToBytes num = some l ∧ l[1]?.getD 0 = num / 256 ∧ l[0]?.getD 0 = num % 256 := by
  rcases Nat.eq_zero_or_pos num with rfl | hpos
  . exact ⟨[], rfl, rfl, rfl⟩
  . rcases Nat.lt_or_ge num 256 with hlt | hge
    . have hn : (frexp num + 7) / 8 = 1 := by
        have : num.log2 < 8 := (Nat.log2_lt (by omega)).mpr hlt
        rw [frexp, if_neg (by omega)]
        omega
      refine ⟨[num], ?_, ?_, ?_⟩
      . simp [intToBytes, hn, intToBytes.digits]
      . simp
        omega
      . simp
        omega
    . have hn : (frexp num + 7) / 8 = 2 := by
        have : num.log2 < 16 := (Nat.log2_lt (by omega)).mpr h
        have : ¬num.log2 < 8 := by
          rw [Nat.log2_lt (by omega)]
          omega
        rw [frexp, if_neg (by omega)]
        omega
      refine ⟨[num - num / 256 * 256, num / 256], ?_, ?_, ?_⟩
      . simp [intToBytes, hn, intToBytes.digits]
      . simp
      . simp
        omega

theorem pack_payload (p : Payload) : pack p.body = some (Frame.ofPayload p) := by
  obtain ⟨l, hl, hhi, hlo⟩ := intToBytes_of_lt p.length_lt
  simp [pack, hl, hhi, hlo, Frame.ofPayload, Frame.writeSize]

end Gate
