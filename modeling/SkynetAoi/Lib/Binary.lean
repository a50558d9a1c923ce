import Mathlib.Data.Int.Log
import Mathlib.Data.Rat.Floor
import Mathlib.Tactic.Linarith

/-!
This module contains binary floating point numbers as they are read from a text: a rational number
is rounded to the nearest one of a format, ties go to the even one. The two zeros are the same
number here.
-/

inductive Binary where
  | finite (q : ℚ)
  | infinite (negative : Bool)
  | nan
  deriving DecidableEq, Repr

namespace Binary

/--
The precision in bits, the exponent of the smallest positive number and the exponent of the first
power of two that is too large.
-/
structure Format where
  precision : Nat
  least : Int
  huge : Int
  precision_pos : 0 < precision
  least_le : least ≤ 0
  precision_lt : precision < huge

def Format.single : Format where
  precision := 24
  least := -149
  huge := 128
  precision_pos := by decide
  least_le := by decide
  precision_lt := by decide

def Format.double : Format where
  precision := 53
  least := -1074
  huge := 1024
  precision_pos := by decide
  least_le := by decide
  precision_lt := by decide

def roundEven (q : ℚ) : Int :=
  let n := ⌊q⌋
  if q - n < 1 / 2 then
    n
  else if q - n = 1 / 2 ∧ n % 2 = 0 then
    n
  else
    n + 1

def lastBit (fmt : Format) (q : ℚ) : Int :=
  max fmt.least (Int.log 2 |q| - (fmt.precision - 1))

def nearest (fmt : Format) (q : ℚ) : ℚ :=
  roundEven (q / 2 ^ lastBit fmt q) * 2 ^ lastBit fmt q

def round (fmt : Format) (q : ℚ) : Binary :=
  if 2 ^ fmt.huge ≤ |nearest fmt q| then
    infinite (q < 0)
  else
    finite (nearest fmt q)

@[simp]
theorem roundEven_intCast (n : Int) : roundEven n = n := by
  unfold roundEven
  simp

theorem nearest_of_multiple {fmt : Format} {q : ℚ} {n : Int} (h : q = n * 2 ^ lastBit fmt q) :
    nearest fmt q = q := by
  have hpos : (0 : ℚ) < 2 ^ lastBit fmt q := zpow_pos (by norm_num) _
  have hdiv : q / 2 ^ lastBit fmt q = n := by
    rw [div_eq_iff hpos.ne']
    exact h
  unfold nearest
  rw [hdiv, roundEven_intCast]
  exact h.symm

theorem mul_zpow_eq (n : Int) {e e' : Int} (he : e' ≤ e)
    : ∃ m : Int, (n : ℚ) * 2 ^ e = m * 2 ^ e' := by
  refine ⟨n * 2 ^ (e - e').toNat, ?_⟩
  have hexp : ((2 : ℚ) ^ (e - e').toNat) = 2 ^ (e - e') := by
    rw [← zpow_natCast]
    congr 1
    omega
  push_cast
  rw [hexp, mul_assoc, ← zpow_add₀ (by norm_num)]
  simp

theorem abs_intCast_le {fmt : Format} {n : Int} (h : |n| ≤ 2 ^ fmt.precision)
    : |(n : ℚ)| ≤ 2 ^ fmt.precision := by
  exact_mod_cast h

theorem abs_mul_zpow (n e : Int) : |(n : ℚ) * 2 ^ e| = |(n : ℚ)| * 2 ^ e := by
  have hpos : (0 : ℚ) < 2 ^ e := zpow_pos (by norm_num) e
  rw [abs_mul, abs_of_pos hpos]

@[simp]
theorem nearest_zero (fmt : Format) : nearest fmt 0 = 0 := by
  apply nearest_of_multiple (n := 0)
  simp

-- Only the power of two at the upper end of the range loses a bit, and this bit is zero.
theorem nearest_mul_zpow {fmt : Format} {n e : Int} (h : |n| ≤ 2 ^ fmt.precision)
    (he : fmt.least ≤ e)
    : nearest fmt (n * 2 ^ e) = n * 2 ^ e := by
  rcases eq_or_ne n 0 with rfl | hn
  . simp
  by_cases hlast : lastBit fmt ((n : ℚ) * 2 ^ e) ≤ e
  . obtain ⟨m, hm⟩ := mul_zpow_eq n hlast
    exact nearest_of_multiple hm
  . have hscale : (0 : ℚ) < 2 ^ e := zpow_pos (by norm_num) e
    have hpos : (0 : ℚ) < |(n : ℚ) * 2 ^ e| := by
      rw [abs_mul_zpow]
      have : (0 : ℚ) < |(n : ℚ)| := abs_pos.mpr (by exact_mod_cast hn)
      positivity
    have hlog : (fmt.precision : Int) + e ≤ Int.log 2 |(n : ℚ) * 2 ^ e| := by
      unfold lastBit at hlast
      omega
    have hge : (2 : ℚ) ^ fmt.precision ≤ |(n : ℚ)| := by
      have hle := (Int.zpow_le_iff_le_log (by norm_num) hpos).mpr hlog
      rw [abs_mul_zpow, Nat.cast_ofNat, zpow_add₀ (by norm_num), zpow_natCast] at hle
      exact le_of_mul_le_mul_right hle hscale
    have heq : |(n : ℚ)| = 2 ^ fmt.precision := le_antisymm (abs_intCast_le h) hge
    have hnext : lastBit fmt ((n : ℚ) * 2 ^ e) = e + 1 := by
      have hlog : Int.log 2 ((2 : ℚ) ^ ((fmt.precision : Int) + e)) = fmt.precision + e :=
        Int.log_zpow (by norm_num) _
      unfold lastBit
      rw [abs_mul_zpow, heq, ← zpow_natCast, ← zpow_add₀ (by norm_num), hlog]
      omega
    have hsucc : (2 : ℚ) ^ fmt.precision = 2 ^ (fmt.precision - 1) * 2 := by
      rw [← pow_succ]
      congr 1
      have := fmt.precision_pos
      omega
    rcases abs_choice (n : ℚ) with hsign | hsign
    . apply nearest_of_multiple (n := 2 ^ (fmt.precision - 1))
      rw [hnext, ← hsign, heq, hsucc, zpow_add₀ (by norm_num)]
      push_cast
      ring
    . apply nearest_of_multiple (n := -2 ^ (fmt.precision - 1))
      rw [hnext, ← neg_neg (n : ℚ), ← hsign, heq, hsucc, zpow_add₀ (by norm_num)]
      push_cast
      ring

theorem nearest_intCast {fmt : Format} {n : Int} (h : |n| ≤ 2 ^ fmt.precision)
    : nearest fmt n = n := by
  simpa using nearest_mul_zpow h fmt.least_le

theorem le_roundEven {n : Int} {q : ℚ} (h : (n : ℚ) ≤ q) : n ≤ roundEven q := by
  have hfloor : n ≤ ⌊q⌋ := Int.le_floor.mpr h
  unfold roundEven
  dsimp only
  split
  . exact hfloor
  . split
    . exact hfloor
    . omega

theorem abs_roundEven_sub_le (q : ℚ) : |roundEven q - q| ≤ 1 / 2 := by
  have hle := Int.floor_le q
  have hlt := Int.lt_floor_add_one q
  unfold roundEven
  dsimp only
  rw [abs_le]
  split
  . next hdown =>
    constructor
    . linarith
    . linarith
  . next hdown =>
    split
    . next htie =>
      constructor
      . linarith [htie.1]
      . linarith
    . push_cast
      constructor
      . linarith
      . linarith

theorem le_nearest {fmt : Format} {k : Int} {q : ℚ} (hk : fmt.least ≤ k) (h : 2 ^ k ≤ q)
    : 2 ^ k ≤ nearest fmt q := by
  have hpos : (0 : ℚ) < q := lt_of_lt_of_le (zpow_pos (by norm_num) k) h
  have hlog : k ≤ Int.log 2 q := by
    apply (Int.zpow_le_iff_le_log (by norm_num) hpos).mp
    exact_mod_cast h
  have hlast : lastBit fmt q ≤ Int.log 2 q := by
    unfold lastBit
    rw [abs_of_pos hpos]
    have := fmt.precision_pos
    omega
  have hscale : (0 : ℚ) < 2 ^ lastBit fmt q := zpow_pos (by norm_num) _
  obtain ⟨n, hn⟩ := mul_zpow_eq 1 hlast
  rw [Int.cast_one, one_mul] at hn
  have hle : (n : ℚ) ≤ q / 2 ^ lastBit fmt q := by
    rw [le_div_iff₀ hscale, ← hn]
    exact_mod_cast Int.zpow_log_le_self (b := 2) (by norm_num) hpos
  have hround : (n : ℚ) ≤ roundEven (q / 2 ^ lastBit fmt q) := by
    exact_mod_cast le_roundEven hle
  calc (2 : ℚ) ^ k ≤ 2 ^ Int.log 2 q := zpow_le_zpow_right₀ (by norm_num) hlog
    _ = n * 2 ^ lastBit fmt q := hn
    _ ≤ nearest fmt q := mul_le_mul_of_nonneg_right hround hscale.le

theorem abs_nearest_sub_le (fmt : Format) (q : ℚ)
    : |nearest fmt q - q| ≤ 2 ^ lastBit fmt q / 2 := by
  have hpos : (0 : ℚ) < 2 ^ lastBit fmt q := zpow_pos (by norm_num) _
  have hround := abs_roundEven_sub_le (q / 2 ^ lastBit fmt q)
  have heq : nearest fmt q - q
      = (roundEven (q / 2 ^ lastBit fmt q) - q / 2 ^ lastBit fmt q) * 2 ^ lastBit fmt q := by
    unfold nearest
    rw [sub_mul, div_mul_cancel₀ _ hpos.ne']
  rw [heq, abs_mul, abs_of_pos hpos]
  calc |(roundEven (q / 2 ^ lastBit fmt q) : ℚ) - q / 2 ^ lastBit fmt q| * 2 ^ lastBit fmt q
      ≤ 1 / 2 * 2 ^ lastBit fmt q := mul_le_mul_of_nonneg_right hround hpos.le
    _ = 2 ^ lastBit fmt q / 2 := by ring

theorem round_intCast {fmt : Format} {n : Int} (h : |n| ≤ 2 ^ fmt.precision)
    : round fmt n = finite n := by
  have hsmall : |(n : ℚ)| < 2 ^ fmt.huge := by
    calc |(n : ℚ)| ≤ 2 ^ fmt.precision := abs_intCast_le h
      _ = 2 ^ (fmt.precision : Int) := (zpow_natCast _ _).symm
      _ < 2 ^ fmt.huge := zpow_lt_zpow_right₀ (by norm_num) fmt.precision_lt
  unfold round
  rw [nearest_intCast h, if_neg (not_le.mpr hsmall)]

end Binary
