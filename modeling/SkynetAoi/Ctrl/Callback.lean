import SkynetAoi.Ctrl.Basic

/-!
This module contains how the `caoi` service reports a pair of ids: `callbackmessage` writes a text
into a buffer whose size it has counted before.
-/

namespace Ctrl

open Numeral

def callbackWord : Bytes :=
  ['a', 'o', 'i', 'c', 'a', 'l', 'l', 'b', 'a', 'c', 'k'].map Char.toUInt8

def getnumbercount (n : Nat) : Nat :=
  if n = 0 then 0 else getnumbercount (n / 10) + 1
termination_by n

-- `%d` takes the id for a signed number.
def asInt (id : UInt32) : Int := id.toBitVec.toInt

-- `sprintf(msg, "aoicallback %d %d", watcher, marker)`
def callbackText (watcher marker : UInt32) : Bytes :=
  callbackWord ++ space :: (signed (asInt watcher) ++ space :: signed (asInt marker))

def written (watcher marker : UInt32) : Nat := (callbackText watcher marker ++ [0]).length

def callbackSize (watcher marker : UInt32) : Nat :=
  getnumbercount watcher.toNat + getnumbercount marker.toNat + callbackWord.length + 2

-- The buffer was zero. What is written behind its end is not part of the message.
def callbackmessage (watcher marker : UInt32) : Bytes :=
  let sz := callbackSize watcher marker
  (callbackText watcher marker ++ [0] ++ List.replicate sz 0).take sz

theorem getnumbercount_eq (n : Nat) : getnumbercount n = (Nat.digits 10 n).length := by
  induction n using getnumbercount.induct with
  | case1 => simp [getnumbercount]
  | case2 n hne ih =>
    rw [getnumbercount, if_neg hne, ih,
      Nat.digits_eq_cons_digits_div (by norm_num) hne, List.length_cons]

theorem getnumbercount_le_iff (n k : Nat) : getnumbercount n ≤ k ↔ n < 10 ^ k := by
  rw [getnumbercount_eq]
  exact Nat.digits_length_le_iff (by norm_num) n

theorem getnumbercount_zero : getnumbercount 0 = 0 := by
  rw [getnumbercount, if_pos rfl]

theorem length_decimal {n : Nat} (h : n ≠ 0) : (decimal n).length = getnumbercount n := by
  simp [decimal, decimalDigits, h, getnumbercount_eq]

theorem asInt_of_lt {id : UInt32} (h : id.toNat < 2 ^ 31) : asInt id = id.toNat := by
  unfold asInt
  rw [BitVec.toInt_eq_toNat_cond, UInt32.toNat_toBitVec]
  omega

theorem asInt_of_ge {id : UInt32} (h : 2 ^ 31 ≤ id.toNat) : asInt id = id.toNat - 2 ^ 32 := by
  unfold asInt
  rw [BitVec.toInt_eq_toNat_cond, UInt32.toNat_toBitVec]
  omega

theorem signed_asInt_of_lt {id : UInt32} (h : id.toNat < 2 ^ 31)
    : signed (asInt id) = decimal id.toNat := by
  rw [asInt_of_lt h]
  simp [signed]

theorem signed_asInt_of_ge {id : UInt32} (h : 2 ^ 31 ≤ id.toNat)
    : signed (asInt id) = minus :: decimal (2 ^ 32 - id.toNat) := by
  have hlt := id.toNat_lt
  have habs : (id.toNat - 2 ^ 32 : Int).natAbs = 2 ^ 32 - id.toNat := by omega
  rw [asInt_of_ge h, signed, if_pos (by omega), habs]

def room (id : UInt32) : Int :=
  getnumbercount id.toNat - (signed (asInt id)).length

def Long (id : UInt32) : Prop :=
  id.toNat = 0 ∨ 2 ^ 31 ≤ id.toNat ∧ id.toNat ≤ 2 ^ 32 - 10 ^ 9

def Short (id : UInt32) : Prop := 2 ^ 32 - 10 ^ 8 < id.toNat

def VeryShort (id : UInt32) : Prop := 2 ^ 32 - 10 ^ 7 < id.toNat

theorem callbackText_length (watcher marker : UInt32)
    : written watcher marker + room watcher + room marker = callbackSize watcher marker + 1 := by
  simp only [written, callbackText, callbackSize, room, List.length_append, List.length_cons,
    List.length_nil]
  omega

theorem room_spec (id : UInt32)
    : -1 ≤ room id ∧ (room id < 0 ↔ Long id) ∧ (1 ≤ room id ↔ Short id)
        ∧ (2 ≤ room id ↔ VeryShort id) := by
  have hlt := id.toNat_lt
  unfold Long Short VeryShort
  unfold room
  by_cases hzero : id.toNat = 0
  . have hdecimal : (decimal 0).length = 1 := rfl
    rw [signed_asInt_of_lt (by omega), hzero, getnumbercount_zero, hdecimal]
    omega
  by_cases hpos : id.toNat < 2 ^ 31
  . rw [signed_asInt_of_lt hpos, length_decimal hzero]
    omega
  . have hten : getnumbercount id.toNat = 10 := by
      have hle := (getnumbercount_le_iff id.toNat 10).mpr (by omega)
      have hge := (getnumbercount_le_iff id.toNat 9).not.mpr (by omega)
      omega
    have h7 := getnumbercount_le_iff (2 ^ 32 - id.toNat) 7
    have h8 := getnumbercount_le_iff (2 ^ 32 - id.toNat) 8
    have h9 := getnumbercount_le_iff (2 ^ 32 - id.toNat) 9
    have h10 := (getnumbercount_le_iff (2 ^ 32 - id.toNat) 10).mpr (by omega)
    rw [signed_asInt_of_ge (by omega), List.length_cons, length_decimal (by omega), hten]
    omega

-- The NUL needs a byte that the count has no place for. Two ids that are positive never leave one.
theorem written_le_iff (watcher marker : UInt32)
    : written watcher marker ≤ callbackSize watcher marker
        ↔ VeryShort watcher ∨ VeryShort marker ∨ (Short watcher ∧ ¬Long marker)
            ∨ (¬Long watcher ∧ Short marker) := by
  have hlength := callbackText_length watcher marker
  obtain ⟨hw, hwLong, hwShort, hwVeryShort⟩ := room_spec watcher
  obtain ⟨hm, hmLong, hmShort, hmVeryShort⟩ := room_spec marker
  rw [← hwLong, ← hwShort, ← hwVeryShort, ← hmLong, ← hmShort, ← hmVeryShort]
  omega

theorem not_written_le_of_positive : ¬written 1 2 ≤ callbackSize 1 2 := by
  have hlength := callbackText_length 1 2
  obtain ⟨_, _, hwatcher, _⟩ := room_spec 1
  obtain ⟨_, _, hmarker, _⟩ := room_spec 2
  have hw := hwatcher.not.mpr (by unfold Short; decide)
  have hm := hmarker.not.mpr (by unfold Short; decide)
  omega

end Ctrl
