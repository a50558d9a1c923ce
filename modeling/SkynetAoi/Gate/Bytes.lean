import Mathlib.Data.Nat.Digits.Lemmas
import SkynetAoi.Gate.Utils
import SkynetAoi.Lib.Binary

/-!
This module contains `int_to_bytes` and `bytes_to_int` of the gate for any number, sign and order of
the bytes, and for which integers the second one undoes the first one.
-/

namespace Gate
namespace Utils

def big : List Char := ['b', 'i', 'g']

def small : List Char := ['s', 'm', 'a', 'l', 'l']

-- Every operation rounds its result, all numbers here are far from an infinity.
def double (q : ℚ) : ℚ := Binary.nearest .double q

def frexp (num : ℚ) : Int :=
  if num = 0 then 0 else Int.log 2 |num| + 1

-- The loop goes down to the last digit, `res[k]` is the digit of `256 ^ (k - 1)`.
def intToBytes.digits (n : Nat) (num : ℚ) : List Int × ℚ :=
  match n with
  | 0 => ([], num)
  | n + 1 =>
    let mul : ℚ := 2 ^ (8 * n)
    let digit := ⌊double (num / mul)⌋
    let (res, num) := digits n (double (num - double (digit * mul)))
    (res ++ [digit], num)

-- Raises when something is left of the number.
def intToBytes (num : ℚ) (endian : List Char) (signed : Bool) : Option (List Int) :=
  let num := if num < 0 ∧ signed = false then -num else num
  let n := ⌈double (frexp num / 8)⌉
  let num := if signed = true ∧ num < 0 then double (num + 2 ^ n) else num
  let (res, num) := intToBytes.digits n.toNat num
  if num = 0 then some (if endian = small then res.reverse else res) else none

-- `string.char`, it raises on a number that is no byte.
def char (res : List Int) : Option Bytes :=
  res.mapM fun b => if 0 ≤ b ∧ b < 256 then some (UInt8.ofNat b.toNat) else none

def bytesToInt.sum (n : ℚ) (k : Nat) (t : Bytes) : ℚ :=
  match t with
  | [] => n
  | b :: t => sum (double (n + double (b.toNat * 2 ^ (k * 8)))) (k + 1) t

def bytesToInt.sign (length : Nat) (n : ℚ) : ℚ :=
  if n > double (2 ^ ((length : Int) - 1) - 1) then double (n - 2 ^ length) else n

def bytesToInt (str : Bytes) (endian : List Char) (signed : Bool) : ℚ :=
  let t := if endian = big then str.reverse else str
  let n := bytesToInt.sum 0 0 t
  if signed then bytesToInt.sign t.length n else n

theorem double_mul_zpow {n e : Int} (hn : |n| ≤ 2 ^ 53) (he : -1074 ≤ e)
    : double (n * 2 ^ e) = n * 2 ^ e :=
  Binary.nearest_mul_zpow hn he

theorem double_intCast {n : Int} (hn : |n| ≤ 2 ^ 53) : double n = n :=
  Binary.nearest_intCast hn

theorem double_natCast {n : Nat} (hn : n ≤ 2 ^ 53) : double n = n := by
  have := double_intCast (n := n) (by rw [Nat.abs_cast]; exact_mod_cast hn)
  simpa using this

theorem double_div_two_pow {n : Int} {k : Nat} (hn : |n| ≤ 2 ^ 53) (hk : k ≤ 1074)
    : double (n / 2 ^ k) = n / 2 ^ k := by
  have heq : (n : ℚ) / 2 ^ k = n * 2 ^ (-k : Int) := by
    rw [zpow_neg, zpow_natCast, div_eq_mul_inv]
  rw [heq]
  exact double_mul_zpow hn (by omega)

theorem double_mul_two_pow {n : Int} (k : Nat) (hn : |n| ≤ 2 ^ 53)
    : double (n * 2 ^ k) = n * 2 ^ k := by
  have := double_mul_zpow (e := k) hn (by omega)
  rw [zpow_natCast] at this
  exact this

theorem two_pow_eq {R : Type} [Semiring R] (k : Nat) : (2 : R) ^ (8 * k) = 256 ^ k := by
  rw [pow_mul]
  norm_num

namespace intToBytes

theorem digits_succ {n : Nat} (hn : n ≤ 6) {num : Int} (hnum : |num| ≤ 2 ^ 53)
    : digits (n + 1) num
        = ((digits n (num % 2 ^ (8 * n) : Int)).1 ++ [num / 2 ^ (8 * n)],
          (digits n (num % 2 ^ (8 * n) : Int)).2) := by
  have hpos : (0 : Int) < 2 ^ (8 * n) := by positivity
  have hpow : (2 : Int) ^ (8 * n) ≤ 2 ^ 53 := pow_le_pow_right₀ (by norm_num) (by omega)
  have hfloor : ⌊double ((num : ℚ) / 2 ^ (8 * n))⌋ = num / 2 ^ (8 * n) := by
    rw [double_div_two_pow hnum (by omega)]
    have := Rat.floor_intCast_div_natCast num (2 ^ (8 * n))
    push_cast at this
    exact this
  have hdigit : |num / 2 ^ (8 * n)| ≤ 2 ^ 53 := (Int.abs_ediv_le_abs _ _).trans hnum
  have hrest : |num % 2 ^ (8 * n)| ≤ 2 ^ 53 := by
    have hlt := Int.emod_lt_of_pos num hpos
    rw [abs_of_nonneg (Int.emod_nonneg _ hpos.ne')]
    omega
  have hsub : (num : ℚ) - (num / 2 ^ (8 * n) : Int) * 2 ^ (8 * n)
      = (num % 2 ^ (8 * n) : Int) := by
    have := Int.emod_def num (2 ^ (8 * n))
    rw [this]
    push_cast
    ring
  rw [digits]
  dsimp only
  rw [hfloor, double_mul_two_pow (8 * n) hdigit, hsub, double_intCast hrest]

theorem digitsAppend_succ {n num : Nat} (hnum : num < 256 ^ (n + 1))
    : Nat.digitsAppend 256 (n + 1) num
        = Nat.digitsAppend 256 n (num % 256 ^ n) ++ [num / 256 ^ n] := by
  have hrest : num % 256 ^ n < 256 ^ n := Nat.mod_lt _ (by positivity)
  have htop : num / 256 ^ n < 256 := by
    rw [Nat.div_lt_iff_lt_mul (by positivity)]
    rw [Nat.pow_succ] at hnum
    omega
  have hlen := Nat.length_digitsAppend (b := 256) (by norm_num) n hrest
  apply Nat.ofDigits_inj_of_len_eq (b := 256) (by norm_num)
  . rw [Nat.length_digitsAppend (by norm_num) _ hnum, List.length_append, hlen]
    rfl
  . intro d hd
    exact Nat.lt_of_mem_digitsAppend (by norm_num) _ d hd
  . intro d hd
    rw [List.mem_append, List.mem_singleton] at hd
    rcases hd with hd | rfl
    . exact Nat.lt_of_mem_digitsAppend (by norm_num) _ d hd
    . exact htop
  . rw [Nat.ofDigits_append, hlen]
    simp only [Nat.digitsAppend, Nat.ofDigits_append_replicate_zero, Nat.ofDigits_digits,
      Nat.ofDigits_singleton]
    exact (Nat.mod_add_div num (256 ^ n)).symm

theorem digits_natCast {n num : Nat} (hn : n ≤ 7) (hlt : num < 256 ^ n) (hnum : num ≤ 2 ^ 53)
    : digits n num = ((Nat.digitsAppend 256 n num).map Int.ofNat, 0) := by
  induction n generalizing num with
  | zero =>
    have : num = 0 := by omega
    rw [this]
    simp [digits, Nat.digitsAppend]
  | succ n ih =>
    have hrest : num % 256 ^ n < 256 ^ n := Nat.mod_lt _ (by positivity)
    have hpow : (2 : Int) ^ (8 * n) = ((256 ^ n : Nat) : Int) := by
      rw [two_pow_eq]
      push_cast
      rfl
    have habs : |(num : Int)| ≤ 2 ^ 53 := by
      rw [Nat.abs_cast]
      exact_mod_cast hnum
    have hsucc := digits_succ (by omega : n ≤ 6) habs
    rw [hpow, ← Int.natCast_mod, ← Int.natCast_div, Int.cast_natCast, Int.cast_natCast] at hsucc
    rw [hsucc, ih (by omega) hrest ((Nat.mod_le _ _).trans hnum), digitsAppend_succ hlt,
      List.map_append]
    rfl

end intToBytes

theorem frexp_intCast {n : Int} (hn : n ≠ 0) : frexp n = Nat.log 2 n.natAbs + 1 := by
  have habs : |(n : ℚ)| = (n.natAbs : ℚ) := by
    rw [Nat.cast_natAbs]
    push_cast
    rfl
  unfold frexp
  rw [if_neg (by exact_mod_cast hn), habs, Int.log_natCast]

theorem width_intCast {n : Int} (hn : n.natAbs < 2 ^ 53)
    : ⌈double (frexp n / 8)⌉ = (Nat.digits 256 n.natAbs).length := by
  rcases eq_or_ne n 0 with rfl | hne
  . simp [frexp, double]
  have hpos : n.natAbs ≠ 0 := by omega
  have hlog : Nat.log 2 n.natAbs < 53 := Nat.log_lt_of_lt_pow hpos hn
  have hdiv := double_div_two_pow (n := Nat.log 2 n.natAbs + 1) (k := 3) (by
    rw [abs_of_nonneg (by positivity)]
    omega) (by omega)
  have hceil := Rat.ceil_intCast_div_natCast (Nat.log 2 n.natAbs + 1) 8
  rw [frexp_intCast hne, Nat.length_digits 256 _ (by norm_num) hpos]
  have hbase : Nat.log 256 n.natAbs = Nat.log 2 n.natAbs / 8 := Nat.log_pow_left 2 8 n.natAbs
  norm_num at hdiv hceil ⊢
  rw [hdiv, hceil, hbase]
  omega

theorem length_digits_le {n : Nat} (hn : n < 2 ^ 53) : (Nat.digits 256 n).length ≤ 7 := by
  rw [Nat.digits_length_le_iff (by norm_num)]
  omega

theorem exists_length {n : Nat} (hpos : 0 < n)
    : ∃ l, (Nat.digits 256 n).length = l + 1 ∧ 256 ^ l ≤ n := by
  have hne : (Nat.digits 256 n).length ≠ 0 := by
    rw [ne_eq, List.length_eq_zero_iff, Nat.digits_eq_nil_iff_eq_zero]
    omega
  obtain ⟨l, hl⟩ := Nat.exists_eq_succ_of_ne_zero hne
  have hle := Nat.base_pow_length_digits_le 256 n (by norm_num) (by omega)
  rw [hl, Nat.pow_succ] at hle
  exact ⟨l, hl, by omega⟩

theorem digitsAppend_length (n : Nat)
    : Nat.digitsAppend 256 (Nat.digits 256 n).length n = Nat.digits 256 n := by
  simp [Nat.digitsAppend]

theorem intToBytes_natCast {n : Nat} (hn : n < 2 ^ 53) (endian : List Char) (signed : Bool)
    : intToBytes n endian signed
        = some ((if endian = small then (Nat.digits 256 n).reverse
          else Nat.digits 256 n).map Int.ofNat) := by
  have hnonneg : ¬(n : ℚ) < 0 := by
    rw [not_lt]
    exact_mod_cast Nat.zero_le n
  have hwidth := width_intCast (n := n) (by simpa using hn)
  rw [Int.cast_natCast, Int.natAbs_natCast] at hwidth
  have hlt : n < 256 ^ (Nat.digits 256 n).length := Nat.lt_base_pow_length_digits (by norm_num)
  unfold intToBytes
  simp only [hnonneg, false_and, and_false, ↓reduceIte, hwidth, Int.toNat_natCast]
  rw [intToBytes.digits_natCast (length_digits_le hn) hlt hn.le, digitsAppend_length]
  by_cases hsmall : endian = small
  . simp [hsmall]
  . simp [hsmall]

theorem char_digits {ds : List Nat} (h : ∀ d ∈ ds, d < 256)
    : char (ds.map Int.ofNat) = some (ds.map UInt8.ofNat) := by
  unfold char
  induction ds with
  | nil => rfl
  | cons d ds ih =>
    have hd : d < 256 := h d (by simp)
    rw [List.map_cons, List.mapM_cons, ih (fun d hd => h d (by simp [hd]))]
    simp [hd]

theorem toNat_digits {ds : List Nat} (h : ∀ d ∈ ds, d < 256)
    : (ds.map UInt8.ofNat).map UInt8.toNat = ds := by
  rw [List.map_map]
  conv =>
    rhs
    rw [← List.map_id ds]
  apply List.map_congr_left
  intro d hd
  exact UInt8.toNat_ofNat_of_lt' (h d hd)

namespace bytesToInt

def value (t : Bytes) : Nat := Nat.ofDigits 256 (t.map UInt8.toNat)

theorem value_cons (b : UInt8) (t : Bytes) : value (b :: t) = b.toNat + 256 * value t := by
  simp [value, Nat.ofDigits_cons]

theorem value_lt (t : Bytes) : value t < 256 ^ t.length := by
  have := Nat.ofDigits_lt_base_pow_length (b := 256) (l := t.map UInt8.toNat) (by norm_num) (by
    intro d hd
    obtain ⟨b, -, rfl⟩ := List.mem_map.mp hd
    exact b.toNat_lt)
  rwa [List.length_map] at this

theorem sum_eq (t : Bytes) (hne : t ≠ []) {k n : Nat} (hn : n < 256 ^ k) (hk : k + t.length ≤ 7)
    : sum n k t = double ((n + 256 ^ k * value t : Nat) : ℚ) := by
  induction t generalizing k n with
  | nil => exact absurd rfl hne
  | cons b t ih =>
    have hb := b.toNat_lt
    have hpow : (2 : ℚ) ^ (k * 8) = ((256 ^ k : Nat) : ℚ) := by
      rw [mul_comm, two_pow_eq]
      push_cast
      rfl
    have hterm := double_mul_two_pow (n := b.toNat) (k * 8) (by
      rw [Nat.abs_cast]
      have : b.toNat ≤ 2 ^ 53 := by omega
      exact_mod_cast this)
    rw [Int.cast_natCast] at hterm
    have hsum : (n : ℚ) + b.toNat * 2 ^ (k * 8) = ((n + 256 ^ k * b.toNat : Nat) : ℚ) := by
      rw [hpow]
      push_cast
      ring
    rw [sum, hterm, hsum, value_cons]
    cases t with
    | nil => simp [sum, value]
    | cons b' t =>
      rw [List.length_cons, List.length_cons] at hk
      have hlt : n + 256 ^ k * b.toNat < 256 ^ (k + 1) := by
        have : 256 ^ k * b.toNat ≤ 256 ^ k * 255 := Nat.mul_le_mul_left _ (by omega)
        rw [Nat.pow_succ]
        omega
      have hle : 256 ^ (k + 1) ≤ 256 ^ 6 := Nat.pow_le_pow_right (by norm_num) (by omega)
      rw [double_natCast (by omega), ih (by simp) hlt (by rw [List.length_cons]; omega)]
      congr 2
      ring

theorem eq_double (str : Bytes) (endian : List Char) (signed : Bool) (hlen : str.length ≤ 7)
    : bytesToInt str endian signed
        = let n := double (value (if endian = big then str.reverse else str))
          if signed then sign str.length n else n := by
  unfold bytesToInt
  dsimp only
  generalize ht : (if endian = big then str.reverse else str) = t
  have htlen : t.length = str.length := by
    rw [← ht]
    split
    . exact List.length_reverse
    . rfl
  have hsum : sum 0 0 t = double (value t) := by
    cases t with
    | nil => simp [sum, value, double]
    | cons b t =>
      have := sum_eq (b :: t) (by simp) (k := 0) (n := 0) (by norm_num) (by omega)
      simpa using this
  rw [hsum, htlen]

end bytesToInt

def RoundTrips (num : ℚ) (endian : List Char) (signed : Bool) : Prop :=
  ∃ res str, intToBytes num endian signed = some res
    ∧ char res = some str
    ∧ bytesToInt str endian signed = num

-- Both functions turn the bytes around for one of the orders, but not for the same one.
def reversed (n : Nat) : Nat := Nat.ofDigits 256 (Nat.digits 256 n).reverse

theorem roundTrips_natCast {n : Nat} (hn : n < 2 ^ 53) {endian : List Char}
    (hendian : endian = big ∨ endian = small) (signed : Bool)
    : RoundTrips n endian signed
        ↔ (if signed then bytesToInt.sign (Nat.digits 256 n).length (double (reversed n))
          else double (reversed n)) = n := by
  have hbytes : ∀ d ∈ (if endian = small then (Nat.digits 256 n).reverse else Nat.digits 256 n),
      d < 256 := by
    intro d hd
    apply Nat.digits_lt_base (b := 256) (m := n) (by norm_num)
    split at hd
    . exact List.mem_reverse.mp hd
    . exact hd
  have hints := intToBytes_natCast hn endian signed
  have hchar := char_digits hbytes
  have hlen := length_digits_le hn
  generalize hds : (if endian = small then (Nat.digits 256 n).reverse else Nat.digits 256 n) = ds
    at hbytes hints hchar
  have hdslen : (ds.map UInt8.ofNat).length = (Nat.digits 256 n).length := by
    rw [List.length_map, ← hds]
    split
    . exact List.length_reverse
    . rfl
  have hvalue : bytesToInt.value (if endian = big then (ds.map UInt8.ofNat).reverse
      else ds.map UInt8.ofNat) = reversed n := by
    unfold bytesToInt.value reversed
    rcases hendian with rfl | rfl
    . rw [if_pos rfl, List.map_reverse, toNat_digits hbytes, ← hds, if_neg (by decide)]
    . rw [if_neg (by decide), toNat_digits hbytes, ← hds, if_pos rfl]
  have hread := bytesToInt.eq_double (ds.map UInt8.ofNat) endian signed (by omega)
  dsimp only at hread
  rw [hvalue, hdslen] at hread
  rw [← hread]
  constructor
  . rintro ⟨res, str, hres, hstr, h⟩
    rw [hints, Option.some.injEq] at hres
    rw [← hres, hchar, Option.some.injEq] at hstr
    rw [hstr]
    exact h
  . intro h
    exact ⟨_, _, hints, hchar, h⟩

theorem le_double {k : Nat} {q : ℚ} (h : 2 ^ k ≤ q) : 2 ^ k ≤ double q := by
  have hpow : (2 : ℚ) ^ (k : Int) ≤ q := by rwa [zpow_natCast]
  have := Binary.le_nearest (Binary.Format.double.least_le.trans (by omega)) hpow
  rwa [zpow_natCast] at this

theorem eq_of_double_lt {v : Nat} (h : double v < 2 ^ 53) : double v = v := by
  by_cases hv : v < 2 ^ 53
  . exact double_natCast hv.le
  . have hge : (2 : ℚ) ^ 53 ≤ v := by
      rw [not_lt] at hv
      exact_mod_cast hv
    have := le_double hge
    linarith

theorem unsigned_iff {n : Nat} (hn : n < 2 ^ 53)
    : double (reversed n) = n ↔ (Nat.digits 256 n).reverse = Nat.digits 256 n := by
  have hcast : (n : ℚ) < 2 ^ 53 := by exact_mod_cast hn
  constructor
  . intro h
    have heq := eq_of_double_lt (v := reversed n) (by rw [h]; exact hcast)
    rw [h, Nat.cast_inj] at heq
    apply Nat.ofDigits_inj_of_len_eq (b := 256) (by norm_num) List.length_reverse
    . intro d hd
      exact Nat.digits_lt_base (by norm_num) (List.mem_reverse.mp hd)
    . intro d hd
      exact Nat.digits_lt_base (by norm_num) hd
    . rw [Nat.ofDigits_digits]
      exact heq.symm
  . intro h
    unfold reversed
    rw [h, Nat.ofDigits_digits]
    exact double_natCast hn.le

theorem reversed_mod (n : Nat) : reversed n % 255 = n % 255 := by
  have hsum : ∀ ds : List Nat, Nat.ofDigits 256 ds % 255 = ds.sum % 255 := by
    intro ds
    rw [Nat.ofDigits_mod]
    simp [Nat.ofDigits_one]
  have hn := hsum (Nat.digits 256 n)
  rw [Nat.ofDigits_digits] at hn
  unfold reversed
  rw [hsum, List.sum_reverse, hn]

theorem double_near {v : Nat} (h : double v < 2 ^ 53 + 128)
    : ∃ z : Int, double v = z ∧ |z - v| ≤ 1 := by
  by_cases hv : v < 2 ^ 53
  . refine ⟨v, ?_, by simp⟩
    rw [double_natCast hv.le]
    rfl
  . have hlt : v < 2 ^ 54 := by
      by_contra hge
      have hge : (2 : ℚ) ^ 54 ≤ v := by
        rw [not_lt] at hge
        exact_mod_cast hge
      have := le_double hge
      linarith
    have hlog : Nat.log 2 v = 53 := Nat.log_eq_of_pow_le_of_lt_pow (by omega) hlt
    have hlast : Binary.lastBit .double v = 1 := by
      unfold Binary.lastBit
      rw [Nat.abs_cast, Int.log_natCast, hlog]
      rfl
    have heq : double v = ((Binary.roundEven (v / 2 ^ (1 : Int)) * 2 : Int) : ℚ) := by
      unfold double Binary.nearest
      rw [hlast]
      push_cast
      rfl
    refine ⟨_, heq, ?_⟩
    have hnear : |double v - v| ≤ 2 ^ (1 : Int) / 2 := by
      rw [← hlast]
      exact Binary.abs_nearest_sub_le .double v
    rw [heq, zpow_one, div_self (by norm_num)] at hnear
    exact_mod_cast hnear

theorem sign_zero : bytesToInt.sign 0 (double (reversed 0)) = -1 := by
  have hthreshold := double_mul_zpow (n := -1) (e := -1) (by norm_num) (by norm_num)
  have hone := double_intCast (n := -1) (by norm_num)
  have hzero : double ((reversed 0 : Nat) : ℚ) = 0 := by
    simp [reversed, double]
  rw [hzero]
  unfold bytesToInt.sign
  norm_num at hthreshold hone ⊢
  rw [hthreshold, hone]
  norm_num

theorem threshold {length : Nat} (hpos : 0 < length) (hlen : length ≤ 7)
    : double (2 ^ ((length : Int) - 1) - 1) = ((2 ^ (length - 1) - 1 : Nat) : ℚ) := by
  have hpow : (2 : ℚ) ^ ((length : Int) - 1) - 1 = ((2 ^ (length - 1) - 1 : Nat) : ℚ) := by
    have hexp : (length : Int) - 1 = ((length - 1 : Nat) : Int) := by omega
    rw [hexp, zpow_natCast, Nat.cast_sub Nat.one_le_two_pow]
    push_cast
    rfl
  have hle : 2 ^ (length - 1) ≤ 2 ^ 6 := Nat.pow_le_pow_right (by norm_num) (by omega)
  rw [hpow]
  exact double_natCast (by omega)

theorem double_sub_ne {n v length : Nat} (hn : n < 2 ^ 53) (hmod : v % 255 = n % 255)
    (hpos : 0 < length) (hlen : length ≤ 7)
    : double (double v - 2 ^ length) ≠ n := by
  intro h
  have hcast : (n : ℚ) < 2 ^ 53 := by exact_mod_cast hn
  have hlt : double v - 2 ^ length < 2 ^ 53 := by
    by_contra hge
    have := le_double (not_lt.mp hge)
    linarith
  have hpow : (2 : ℚ) ^ length ≤ 2 ^ 7 := pow_le_pow_right₀ (by norm_num) hlen
  obtain ⟨z, hz, hnear⟩ := double_near (v := v) (by linarith)
  have hsub : (z : ℚ) - 2 ^ length = (z - 2 ^ length : Int) := by
    push_cast
    rfl
  have hpow' : (2 : Int) ^ length ≤ 2 ^ 7 := pow_le_pow_right₀ (by norm_num) hlen
  rw [hz, hsub] at h hlt
  have hlt' : z - 2 ^ length < 2 ^ 53 := by exact_mod_cast hlt
  rw [abs_le] at hnear
  rw [double_intCast (abs_le.mpr ⟨by omega, by omega⟩)] at h
  have heq : z - 2 ^ length = (n : Int) := by exact_mod_cast h
  clear hpow hpow' hsub h hlt hlt' hz
  interval_cases length
  all_goals omega

theorem sign_ne {n : Nat} (hn : n < 2 ^ 53)
    : bytesToInt.sign (Nat.digits 256 n).length (double (reversed n)) ≠ n := by
  rcases Nat.eq_zero_or_pos n with rfl | hpos
  . rw [Nat.digits_zero, List.length_nil, sign_zero]
    norm_num
  have hlen := length_digits_le hn
  obtain ⟨l, hl, hge⟩ := exists_length hpos
  rw [hl] at hlen ⊢
  unfold bytesToInt.sign
  rw [threshold (by omega) hlen, Nat.add_sub_cancel]
  split
  . exact double_sub_ne hn (reversed_mod n) (by omega) hlen
  . next hsmall =>
    intro h
    rw [h, gt_iff_lt, not_lt, Nat.cast_le] at hsmall
    have hpow : 2 ^ l ≤ 256 ^ l := Nat.pow_le_pow_left (by norm_num) l
    have hone : 1 ≤ 2 ^ l := Nat.one_le_two_pow
    omega

theorem mem_char {res : List Int} {str : Bytes} (h : char res = some str) {b : Int} (hb : b ∈ res)
    : 0 ≤ b ∧ b < 256 := by
  unfold char at h
  induction res generalizing str with
  | nil => simp at hb
  | cons b' res ih =>
    rw [List.mapM_cons] at h
    by_cases hbyte : 0 ≤ b' ∧ b' < 256
    . cases hrest : res.mapM fun b =>
        if 0 ≤ b ∧ b < 256 then some (UInt8.ofNat b.toNat) else none with
      | none => simp [hbyte, hrest] at h
      | some str' =>
        rw [List.mem_cons] at hb
        rcases hb with rfl | hb
        . exact hbyte
        . exact ih hrest hb
    . simp [hbyte] at h

-- The power of two that is added has as many bits as the number has bytes.
theorem intToBytes_neg {n : Int} (hneg : n < 0) (hn : n.natAbs < 2 ^ 53) (endian : List Char)
    : ∃ l res, l ≤ 6
        ∧ 256 ^ l ≤ n.natAbs
        ∧ (n + 2 ^ (l + 1)) / 2 ^ (8 * l) ∈ res
        ∧ (l = 0 → res = [n + 2])
        ∧ intToBytes n endian true = some res := by
  have hlen := length_digits_le hn
  obtain ⟨l, hl, hge⟩ := exists_length (n := n.natAbs) (by omega)
  have hpow : (2 : Int) ^ (l + 1) ≤ 2 ^ 7 := pow_le_pow_right₀ (by norm_num) (by omega)
  have hpow' : (0 : Int) < 2 ^ (l + 1) := by positivity
  have hz : |n + 2 ^ (l + 1)| ≤ 2 ^ 53 := abs_le.mpr ⟨by omega, by omega⟩
  have hcast : (n : ℚ) + 2 ^ (l + 1) = (n + 2 ^ (l + 1) : Int) := by
    push_cast
    rfl
  have hmod : (n + 2 ^ (l + 1)) % 2 ^ (8 * l)
      = (((n + 2 ^ (l + 1)) % 2 ^ (8 * l)).toNat : Int) := by
    have := Int.emod_nonneg (n + 2 ^ (l + 1)) (by positivity : (2 : Int) ^ (8 * l) ≠ 0)
    omega
  have hlt : ((n + 2 ^ (l + 1)) % 2 ^ (8 * l)).toNat < 256 ^ l := by
    have := Int.emod_lt_of_pos (n + 2 ^ (l + 1)) (by positivity : (0 : Int) < 2 ^ (8 * l))
    rw [two_pow_eq] at this ⊢
    zify
    omega
  have hdigits := intToBytes.digits_succ (n := l) (by omega) hz
  rw [hmod, Int.cast_natCast, intToBytes.digits_natCast (by omega) hlt (by omega)] at hdigits
  generalize ((n + 2 ^ (l + 1)) % 2 ^ (8 * l)).toNat = rest at hdigits hlt
  have hints : intToBytes n endian true
      = some (if endian = small then
          ((Nat.digitsAppend 256 l rest).map Int.ofNat
            ++ [(n + 2 ^ (l + 1)) / 2 ^ (8 * l)]).reverse
        else
          (Nat.digitsAppend 256 l rest).map Int.ofNat ++ [(n + 2 ^ (l + 1)) / 2 ^ (8 * l)]) := by
    have hneg' : (n : ℚ) < 0 := by exact_mod_cast hneg
    unfold intToBytes
    simp only [hneg', Bool.true_eq_false, and_false, and_true, ↓reduceIte, width_intCast hn,
      Int.toNat_natCast, hl, zpow_natCast]
    rw [hcast, double_intCast hz, hdigits]
    rfl
  refine ⟨l, _, by omega, hge, ?_, ?_, hints⟩
  . split
    . simp
    . simp
  . rintro rfl
    have : rest = 0 := by omega
    rw [this]
    simp [Nat.digitsAppend]

theorem bytesToInt_one (b : UInt8) (endian : List Char)
    : bytesToInt [b] endian true = if 0 < b.toNat then double ((b.toNat : ℚ) - 2) else 0 := by
  have hb := b.toNat_lt
  have hvalue : bytesToInt.value (if endian = big then [b].reverse else [b]) = b.toNat := by
    split
    . simp [bytesToInt.value]
    . simp [bytesToInt.value]
  have hread := bytesToInt.eq_double [b] endian true (by simp)
  dsimp only at hread
  rw [hread, hvalue, double_natCast (by omega)]
  simp only [↓reduceIte, List.length_singleton]
  unfold bytesToInt.sign
  rw [threshold (by norm_num) (by norm_num)]
  rcases Nat.eq_zero_or_pos b.toNat with hzero | hpos
  . simp [hzero]
  . have hcast : (0 : ℚ) < b.toNat := by exact_mod_cast hpos
    simp [hpos, hcast]

theorem signed_iff_of_neg {n : Int} (hneg : n < 0) (hn : n.natAbs < 2 ^ 53) (endian : List Char)
    : RoundTrips n endian true ↔ n = -1 := by
  obtain ⟨l, res, hl, hge, hmem, hres, hints⟩ := intToBytes_neg hneg hn endian
  constructor
  . rintro ⟨res', str, hints', hchar, hread⟩
    rw [hints, Option.some.injEq] at hints'
    subst hints'
    have hnonneg : 0 ≤ n + 2 ^ (l + 1) := by
      by_contra hlt
      have hdiv : (n + 2 ^ (l + 1)) / 2 ^ (8 * l) < 0 :=
        Int.ediv_neg_of_neg_of_pos (by omega) (by positivity)
      exact absurd (mem_char hchar hmem).1 (not_le.mpr hdiv)
    have hzero : l = 0 := by
      clear hmem hres hints hchar hread
      interval_cases l
      all_goals omega
    rw [hzero] at hnonneg
    by_contra hne
    have htwo : n = -2 := by omega
    rw [hres hzero, htwo] at hchar
    have hstr : str = [0] := by
      have : char [-2 + 2] = some [0] := by decide
      rw [this, Option.some.injEq] at hchar
      exact hchar.symm
    rw [hstr, bytesToInt_one, htwo] at hread
    norm_num at hread
  . rintro rfl
    have hzero : l = 0 := by
      clear hmem hres hints
      interval_cases l
      all_goals omega
    refine ⟨[-1 + 2], [1], ?_, by decide, ?_⟩
    . rw [hints, hres hzero]
    . have hone := double_intCast (n := -1) (by norm_num)
      have hbyte : (1 : UInt8).toNat = 1 := rfl
      rw [bytesToInt_one, hbyte, if_pos (by norm_num)]
      norm_num at hone ⊢
      exact hone

theorem signed_iff {n : Int} (hn : |n| < 2 ^ 53) {endian : List Char}
    (hendian : endian = big ∨ endian = small)
    : RoundTrips n endian true ↔ n = -1 := by
  rw [abs_lt] at hn
  rcases lt_or_ge n 0 with hneg | hnonneg
  . exact signed_iff_of_neg hneg (by omega) endian
  . obtain ⟨n, rfl⟩ := Int.eq_ofNat_of_zero_le hnonneg
    have hlt : n < 2 ^ 53 := by omega
    rw [Int.cast_natCast, roundTrips_natCast hlt hendian]
    constructor
    . intro h
      exact absurd h (sign_ne hlt)
    . intro h
      omega

theorem intToBytes_asserts {n : Int} (hn : |n| < 2 ^ 53) (endian : List Char) {signed : Bool}
    (hsigned : signed = true ∨ 0 ≤ n)
    : ∃ res, intToBytes n endian signed = some res := by
  rw [abs_lt] at hn
  rcases lt_or_ge n 0 with hneg | hnonneg
  . have htrue : signed = true := by
      rcases hsigned with h | h
      . exact h
      . omega
    obtain ⟨-, res, -, -, -, -, hints⟩ := intToBytes_neg hneg (by omega) endian
    rw [htrue]
    exact ⟨res, hints⟩
  . obtain ⟨n, rfl⟩ := Int.eq_ofNat_of_zero_le hnonneg
    rw [Int.cast_natCast]
    exact ⟨_, intToBytes_natCast (by omega) endian signed⟩

/--
A signed number is read back only if it is minus one, any other one if its bytes are the same in both
orders.
-/
theorem roundTrips_iff {n : Int} (hn : |n| < 2 ^ 53) {endian : List Char}
    (hendian : endian = big ∨ endian = small) {signed : Bool} (hsigned : signed = true ∨ 0 ≤ n)
    : RoundTrips n endian signed
        ↔
      if signed then
        n = -1
      else
        (Nat.digits 256 n.toNat).reverse = Nat.digits 256 n.toNat := by
  cases signed with
  | true => exact signed_iff hn hendian
  | false =>
    have hnonneg : 0 ≤ n := by
      rcases hsigned with h | h
      . cases h
      . exact h
    obtain ⟨n, rfl⟩ := Int.eq_ofNat_of_zero_le hnonneg
    rw [abs_lt] at hn
    have hlt : n < 2 ^ 53 := by omega
    rw [Int.cast_natCast, roundTrips_natCast hlt hendian]
    exact unsigned_iff hlt

theorem roundTrips_iff_palindrome
    : |(66049 : Int)| < 2 ^ 53
        ∧ RoundTrips (66049 : Int) big false := by
  have hlt : |(66049 : Int)| < 2 ^ 53 := by norm_num
  refine ⟨hlt, ?_⟩
  have htoNat : (66049 : Int).toNat = 66049 := rfl
  rw [roundTrips_iff hlt (.inl rfl) (.inr (by norm_num)), htoNat]
  norm_num

theorem not_roundTrips_of_signed
    : ¬∀ (n : Int) (endian : List Char) (signed : Bool), |n| < 2 ^ 53 →
        endian = big ∨ endian = small → signed = true ∨ 0 ≤ n → RoundTrips n endian signed := by
  intro h
  have hlt : |(200 : Int)| < 2 ^ 53 := by norm_num
  have hread := h 200 big true hlt (.inl rfl) (.inl rfl)
  rw [signed_iff hlt (.inl rfl)] at hread
  norm_num at hread

theorem bytesToInt_reverse {n : Nat} (hn : n < 2 ^ 53) {endian : List Char}
    (hendian : endian = big ∨ endian = small) (signed : Bool)
    : ∃ res str, intToBytes n endian signed = some res
        ∧ char res.reverse = some str
        ∧ bytesToInt str endian false = n := by
  have hbytes : ∀ d ∈ Nat.digits 256 n, d < 256 := fun d hd => Nat.digits_lt_base (by norm_num) hd
  have hbytes' : ∀ d ∈ (Nat.digits 256 n).reverse, d < 256 := by
    intro d hd
    exact hbytes d (List.mem_reverse.mp hd)
  have hlen := length_digits_le hn
  have hints := intToBytes_natCast hn endian signed
  rcases hendian with rfl | rfl
  . rw [if_neg (by decide)] at hints
    refine ⟨_, _, hints, by rw [← List.map_reverse]; exact char_digits hbytes', ?_⟩
    rw [bytesToInt.eq_double _ _ _ (by simpa using hlen)]
    simp only [↓reduceIte, Bool.false_eq_true, bytesToInt.value, ← List.map_reverse,
      List.reverse_reverse, toNat_digits hbytes, Nat.ofDigits_digits]
    exact double_natCast hn.le
  . rw [if_pos rfl] at hints
    refine ⟨_, _, hints, by rw [← List.map_reverse, List.reverse_reverse]; exact char_digits hbytes,
      ?_⟩
    have hne : ¬small = big := by decide
    rw [bytesToInt.eq_double _ _ _ (by simpa using hlen)]
    simp only [hne, ↓reduceIte, Bool.false_eq_true, bytesToInt.value, toNat_digits hbytes,
      Nat.ofDigits_digits]
    exact double_natCast hn.le

theorem digits_eq {n num : Nat} (hlt : num < 256 ^ n)
    : Gate.intToBytes.digits n num = (Nat.digitsAppend 256 n num, 0) := by
  induction n generalizing num with
  | zero =>
    have : num = 0 := by omega
    rw [this]
    simp [Gate.intToBytes.digits, Nat.digitsAppend]
  | succ n ih =>
    have hrest : num % 256 ^ n < 256 ^ n := Nat.mod_lt _ (by positivity)
    have hsub : num - num / 256 ^ n * 256 ^ n = num % 256 ^ n := by
      have := Nat.div_add_mod' num (256 ^ n)
      omega
    rw [Gate.intToBytes.digits]
    dsimp only
    rw [two_pow_eq, hsub, ih hrest, intToBytes.digitsAppend_succ hlt]

theorem intToBytes_eq {n : Nat} (hn : n < 2 ^ 53) (signed : Bool)
    : intToBytes n big signed = (Gate.intToBytes n).map (·.map Int.ofNat) := by
  have hwidth : (Gate.frexp n + 7) / 8 = (Nat.digits 256 n).length := by
    rcases Nat.eq_zero_or_pos n with rfl | hpos
    . simp [Gate.frexp]
    . have hbase : Nat.log 256 n = Nat.log 2 n / 8 := Nat.log_pow_left 2 8 n
      rw [Gate.frexp, if_neg (by omega), Nat.length_digits 256 _ (by norm_num) (by omega), hbase,
        Nat.log2_eq_log_two]
      omega
  have hlt : n < 256 ^ (Nat.digits 256 n).length := Nat.lt_base_pow_length_digits (by norm_num)
  rw [intToBytes_natCast hn, if_neg (by decide)]
  unfold Gate.intToBytes
  dsimp only
  rw [hwidth, digits_eq hlt, digitsAppend_length]
  rfl

theorem value_eq (t : Bytes) (k : Nat)
    : ((t.zipIdx k).map fun (byte, k) => byte.toNat * 2 ^ (k * 8)).sum
        = 256 ^ k * bytesToInt.value t := by
  induction t generalizing k with
  | nil => simp [bytesToInt.value]
  | cons b t ih =>
    rw [List.zipIdx_cons, List.map_cons, List.sum_cons, ih, bytesToInt.value_cons]
    dsimp only
    rw [mul_comm k 8, two_pow_eq]
    ring

theorem bytesToInt_eq {str : Bytes} (hlen : str.length ≤ 6)
    : bytesToInt str big false = Gate.bytesToInt str := by
  have hvalue := value_eq str.reverse 0
  rw [pow_zero, one_mul] at hvalue
  have hlt := bytesToInt.value_lt str.reverse
  rw [List.length_reverse] at hlt
  have hpow : 256 ^ str.length ≤ 256 ^ 6 := Nat.pow_le_pow_right (by norm_num) hlen
  have hread := bytesToInt.eq_double str big false (by omega)
  simp only [↓reduceIte, Bool.false_eq_true] at hread
  rw [hread, double_natCast (by omega), ← hvalue]
  rfl

end Utils
end Gate
