import SkynetAoi.Lib.Bits
import SkynetAoi.Watchdog.Crypt
import Mathlib.Data.List.Induction

/-!
This module contains the ways in which `lua-crypt.c` reads bytes back from a text, hexadecimal and
base64, and what they accept.
-/

namespace Crypt

def hex : List Char :=
  ['0', '1', '2', '3', '4', '5', '6', '7', '8', '9', 'a', 'b', 'c', 'd', 'e', 'f']

def hexDigit (v : UInt8) : UInt8 := (hex.getD v.toNat '0').toUInt8

def tohex (text : Bytes) : Bytes :=
  match text with
  | [] => []
  | x :: text => hexDigit (x >>> 4) :: hexDigit (x &&& 0xf) :: tohex text

def hexValue (c : UInt8) : UInt8 :=
  if c ≥ '0'.toUInt8 ∧ c ≤ '9'.toUInt8 then c - '0'.toUInt8 else c - 'a'.toUInt8 + 10

-- `none` is an error.
def fromhex (text : Bytes) : Option Bytes :=
  match text with
  | [] => some []
  | [_] => none
  | x :: y :: text =>
    let hi := hexValue x
    let low := hexValue y
    if hi > 16 ∨ low > 16 then none else (fromhex text).map fun bs => (hi <<< 4 ||| low) :: bs

def decoding : List Int :=
  [62, -1, -1, -1, 63, 52, 53, 54, 55, 56, 57, 58, 59, 60, 61, -1, -1, -1, -2, -1, -1, -1, 0, 1, 2, 3,
    4, 5, 6, 7, 8, 9, 10, 11, 12, 13, 14, 15, 16, 17, 18, 19, 20, 21, 22, 23, 24, 25, -1, -1, -1, -1,
    -1, -1, 26, 27, 28, 29, 30, 31, 32, 33, 34, 35, 36, 37, 38, 39, 40, 41, 42, 43, 44, 45, 46, 47, 48,
    49, 50, 51]

def b64index (c : UInt8) : Int :=
  if c < 43 then -1 else decoding.getD (c - 43).toNat (-1)

-- The inner loop of `lb64decode`: what is no letter is left out, and the text must not end here.
def readGroup (text : Bytes) (j : Nat) : Option (List Int × Bytes) :=
  match text, j with
  | text, 0 => some ([], text)
  | [], _ + 1 => none
  | x :: text, j + 1 =>
    if b64index x = -1 then
      readGroup text (j + 1)
    else
      (readGroup text j).map fun (c, text) => (b64index x :: c, text)

def decodeGroup (c : List Int) : Option Bytes :=
  match c with
  | [c0, c1, c2, c3] =>
    let u (c : Int) : UInt32 := UInt32.ofNat c.toNat
    match c.count (-2) with
    | 0 =>
      let v := u c0 <<< 18 ||| u c1 <<< 12 ||| u c2 <<< 6 ||| u c3
      some [(v >>> 16).toUInt8, (v >>> 8 &&& 0xff).toUInt8, (v &&& 0xff).toUInt8]
    | 1 =>
      if c3 ≠ -2 ∨ u c2 &&& 3 ≠ 0 then
        none
      else
        let v := u c0 <<< 10 ||| u c1 <<< 4 ||| u c2 >>> 2
        some [(v >>> 8).toUInt8, (v &&& 0xff).toUInt8]
    | 2 =>
      if c3 ≠ -2 ∨ c2 ≠ -2 ∨ u c1 &&& 0xf ≠ 0 then
        none
      else
        let v := u c0 <<< 2 ||| u c1 >>> 4
        some [v.toUInt8]
    | _ => none
  | _ => none

-- The outer loop, which reads at least four letters in each round. `none` is an error.
def decodeLoop (rounds : Nat) (text : Bytes) : Option Bytes :=
  match rounds with
  | 0 => none
  | rounds + 1 =>
    match text with
    | [] => some []
    | text => do
      let (c, text) ← readGroup text 4
      let bs ← decodeGroup c
      let rest ← decodeLoop rounds text
      some (bs ++ rest)

def base64decode (text : Bytes) : Option Bytes := decodeLoop (text.length + 1) text

theorem toNat_high (x : UInt8) : (x >>> 4).toNat = x.toNat / 16 := by
  rw [UInt8.toNat_shiftRight, Nat.shiftRight_eq_div_pow]
  rfl

theorem toNat_low (x : UInt8) : (x &&& 0xf).toNat = x.toNat % 16 := by
  rw [UInt8.toNat_and]
  exact Nat.and_two_pow_sub_one_eq_mod x.toNat 4

theorem toNat_nibbles {hi low : UInt8} (hhi : hi.toNat < 16) (hlow : low.toNat < 16)
    : (hi <<< 4 ||| low).toNat = hi.toNat * 16 + low.toNat := by
  rw [UInt8.toNat_or, UInt8.toNat_shiftLeft]
  change hi.toNat <<< 4 % 2 ^ 8 ||| low.toNat = _
  rw [Nat.mod_eq_of_lt (by rw [Nat.shiftLeft_eq]; omega), ← Nat.shiftLeft_add_eq_or_of_lt hlow,
    Nat.shiftLeft_eq]

theorem hexDigit_eq {x : UInt8} (h : x.toNat < 16)
    : hexDigit x = UInt8.ofNat (if x.toNat < 10 then x.toNat + 48 else x.toNat + 87) := by
  have hall : ∀ n < 16,
      hexDigit (UInt8.ofNat n) = UInt8.ofNat (if n < 10 then n + 48 else n + 87) := by
    decide
  have := hall x.toNat h
  rwa [UInt8.ofNat_toNat] at this

theorem hexValue_hexDigit {x : UInt8} (h : x.toNat < 16) : hexValue (hexDigit x) = x := by
  have hall : ∀ n < 16, hexValue (hexDigit (UInt8.ofNat n)) = UInt8.ofNat n := by
    decide
  have := hall x.toNat h
  rwa [UInt8.ofNat_toNat] at this

theorem fromhex_tohex (text : Bytes) : fromhex (tohex text) = some text := by
  induction text with
  | nil => rfl
  | cons x text ih =>
    have hx := x.toNat_lt
    have hhigh := toNat_high x
    have hlow := toNat_low x
    have hsame : (x >>> 4) <<< 4 ||| (x &&& 0xf) = x := by
      rw [← UInt8.toNat_inj, toNat_nibbles (by omega) (by omega)]
      omega
    have hgood : ¬ (x >>> 4 > 16 ∨ x &&& 0xf > 16) := by
      simp only [gt_iff_lt, UInt8.lt_iff_toNat_lt, UInt8.reduceToNat]
      omega
    rw [tohex, fromhex, hexValue_hexDigit (by omega), hexValue_hexDigit (by omega), if_neg hgood, ih,
      hsame]
    rfl

-- A digit may be `g`, which is 16, and what is in front of `a` up to `W`, which is 0.
theorem hexValue_le_iff (c : UInt8)
    : hexValue c ≤ 16
        ↔
      ('0'.toUInt8 ≤ c ∧ c ≤ '9'.toUInt8) ∨ ('W'.toUInt8 ≤ c ∧ c ≤ 'g'.toUInt8) := by
  have hc := c.toNat_lt
  have h0 : '0'.toUInt8.toNat = 48 := rfl
  have h9 : '9'.toUInt8.toNat = 57 := rfl
  have hW : 'W'.toUInt8.toNat = 87 := rfl
  have ha : 'a'.toUInt8.toNat = 97 := rfl
  have hg : 'g'.toUInt8.toNat = 103 := rfl
  unfold hexValue
  split
  . next hdigit =>
    rw [UInt8.le_iff_toNat_le, UInt8.toNat_sub, h0]
    simp only [ge_iff_le, UInt8.le_iff_toNat_le, h0, h9, hW, hg, UInt8.reduceToNat] at hdigit ⊢
    omega
  . next hdigit =>
    rw [UInt8.le_iff_toNat_le, UInt8.toNat_add, UInt8.toNat_sub, ha]
    simp only [ge_iff_le, UInt8.le_iff_toNat_le, h0, h9, hW, hg, UInt8.reduceToNat] at hdigit ⊢
    omega

theorem fromhex_isSome_iff (text : Bytes)
    : (fromhex text).isSome = true
        ↔
      text.length % 2 = 0
        ∧ ∀ c ∈ text, ('0'.toUInt8 ≤ c ∧ c ≤ '9'.toUInt8) ∨ ('W'.toUInt8 ≤ c ∧ c ≤ 'g'.toUInt8) := by
  simp only [← hexValue_le_iff]
  fun_induction fromhex text with
  | case1 => simp
  | case2 => simp
  | case3 x y text hi low hbad =>
    simp only [Option.isSome_none, Bool.false_eq_true, List.mem_cons, false_iff]
    rintro ⟨-, hall⟩
    have hx := hall x (by simp)
    have hy := hall y (by simp)
    rcases hbad with hbad | hbad
    . exact absurd hx (UInt8.not_le.mpr hbad)
    . exact absurd hy (UInt8.not_le.mpr hbad)
  | case4 x y text hi low hgood ih =>
    rw [not_or, gt_iff_lt, gt_iff_lt, UInt8.not_lt, UInt8.not_lt] at hgood
    rw [Option.isSome_map, ih]
    simp only [List.length_cons, List.mem_cons, forall_eq_or_imp]
    constructor
    . rintro ⟨hlen, hall⟩
      exact ⟨by omega, hgood.1, hgood.2, hall⟩
    . rintro ⟨hlen, -, -, hall⟩
      exact ⟨by omega, hall⟩

def isHex (c : UInt8) : Bool := ('0'.toUInt8 ≤ c ∧ c ≤ '9'.toUInt8) ∨ ('a'.toUInt8 ≤ c ∧ c ≤ 'f'.toUInt8)

theorem isHex_iff (c : UInt8)
    : isHex c = true ↔ (48 ≤ c.toNat ∧ c.toNat ≤ 57) ∨ (97 ≤ c.toNat ∧ c.toNat ≤ 102) := by
  rw [isHex, decide_eq_true_eq]
  simp only [UInt8.le_iff_toNat_le]
  exact Iff.rfl

theorem isHex_hexDigit {x : UInt8} (h : x.toNat < 16) : isHex (hexDigit x) = true := by
  rw [isHex_iff, hexDigit_eq h, UInt8.toNat_ofNat']
  split <;> omega

theorem exists_nibble {c : UInt8} (h : isHex c = true) : ∃ x : UInt8, x.toNat < 16 ∧ c = hexDigit x := by
  rw [isHex_iff] at h
  by_cases hdigit : c.toNat ≤ 57
  . have hx : (UInt8.ofNat (c.toNat - 48)).toNat = c.toNat - 48 := by
      rw [UInt8.toNat_ofNat']
      omega
    refine ⟨UInt8.ofNat (c.toNat - 48), by omega, ?_⟩
    rw [hexDigit_eq (by omega), hx, if_pos (by omega), ← UInt8.toNat_inj, UInt8.toNat_ofNat']
    omega
  . have hx : (UInt8.ofNat (c.toNat - 87)).toNat = c.toNat - 87 := by
      rw [UInt8.toNat_ofNat']
      omega
    refine ⟨UInt8.ofNat (c.toNat - 87), by omega, ?_⟩
    rw [hexDigit_eq (by omega), hx, if_neg (by omega), ← UInt8.toNat_inj, UInt8.toNat_ofNat']
    omega

theorem exists_tohex_iff (text : Bytes)
    : (∃ bs, tohex bs = text) ↔ text.length % 2 = 0 ∧ ∀ c ∈ text, isHex c = true := by
  constructor
  . rintro ⟨bs, rfl⟩
    induction bs with
    | nil => simp [tohex]
    | cons x bs ih =>
      rw [tohex, List.length_cons, List.length_cons, List.forall_mem_cons, List.forall_mem_cons]
      have hx := x.toNat_lt
      have hhigh := toNat_high x
      have hlow := toNat_low x
      exact ⟨by omega, isHex_hexDigit (by omega), isHex_hexDigit (by omega), ih.2⟩
  . rintro ⟨hlen, hall⟩
    induction text using List.twoStepInduction with
    | nil => exact ⟨[], rfl⟩
    | singleton x => simp at hlen
    | cons_cons x y text ih =>
      rw [List.forall_mem_cons, List.forall_mem_cons] at hall
      rw [List.length_cons, List.length_cons] at hlen
      obtain ⟨bs, rfl⟩ := ih (by omega) hall.2.2
      obtain ⟨hi, hhi, rfl⟩ := exists_nibble hall.1
      obtain ⟨low, hlow, rfl⟩ := exists_nibble hall.2.1
      have hsum := toNat_nibbles hhi hlow
      have hhigh : (hi <<< 4 ||| low) >>> 4 = hi := by
        rw [← UInt8.toNat_inj, toNat_high]
        omega
      have hback : (hi <<< 4 ||| low) &&& 0xf = low := by
        rw [← UInt8.toNat_inj, toNat_low]
        omega
      exact ⟨(hi <<< 4 ||| low) :: bs, by rw [tohex, hhigh, hback]⟩

/--
What `fromhex` accepts, by a comparison with 16 instead of 15 and by digits that wrap around, and what
of it is a text that `tohex` gives.
-/
theorem fromhex_iff (text : Bytes)
    : ((fromhex text).isSome = true
        ↔
      text.length % 2 = 0
        ∧ ∀ c ∈ text, ('0'.toUInt8 ≤ c ∧ c ≤ '9'.toUInt8) ∨ ('W'.toUInt8 ≤ c ∧ c ≤ 'g'.toUInt8))
      ∧ ((fromhex text).map tohex = some text
        ↔
      text.length % 2 = 0 ∧ ∀ c ∈ text, isHex c = true) := by
  refine ⟨fromhex_isSome_iff text, ?_⟩
  rw [← exists_tohex_iff, Option.map_eq_some_iff]
  constructor
  . rintro ⟨bs, -, hbs⟩
    exact ⟨bs, hbs⟩
  . rintro ⟨bs, rfl⟩
    exact ⟨bs, fromhex_tohex bs, rfl⟩

theorem b64index_encode {w : UInt32} (h : w.toNat < 64) : b64index (encode w) = w.toNat := by
  have hall : ∀ n < 64, b64index (encode (UInt32.ofNat n)) = n := by
    decide
  have := hall w.toNat h
  rwa [UInt32.ofNat_toNat] at this

theorem b64index_pad : b64index '='.toUInt8 = -2 := by
  decide

theorem ofNat_toNat_cast (w : UInt32) : UInt32.ofNat (w.toNat : Int).toNat = w := by
  rw [Int.toNat_natCast, UInt32.ofNat_toNat]

theorem toNat_field (k : Nat) (v : UInt32) {s : UInt32} (hs : s.toNat = k) (hk : k < 32)
    : (v >>> s &&& 0x3f).toNat = v.toNat / 2 ^ k % 2 ^ 6 := by
  rw [UInt32.and_mask 6 _ rfl, UInt32.toNat_shift_right k v hs hk]

theorem decodeGroup_three (x y z : UInt8) {v : UInt32}
    (hv : v = x.toUInt32 <<< 16 ||| y.toUInt32 <<< 8 ||| z.toUInt32)
    : (v >>> 18).toNat < 64
        ∧ decodeGroup [(v >>> 18).toNat, (v >>> 12 &&& 0x3f).toNat, (v >>> 6 &&& 0x3f).toNat,
          (v &&& 0x3f).toNat] = some [x, y, z] := by
  have hx := x.toNat_lt
  have hy := y.toNat_lt
  have hz := z.toNat_lt
  have hn : v.toNat = x.toNat * 2 ^ 16 + (y.toNat * 2 ^ 8 + z.toNat) := by
    have hlow : (y.toUInt32 <<< 8 ||| z.toUInt32).toNat = y.toNat * 2 ^ 8 + z.toNat := by
      rw [UInt32.toNat_shift_left_or 8 rfl (by decide) (by simp; omega) (by simp; omega)]
      simp
    rw [hv, UInt32.or_assoc, UInt32.toNat_shift_left_or 16 rfl (by decide) (by simp; omega) (by omega),
      hlow]
    simp
  have h18 := UInt32.toNat_shift_right 18 v (s := 18) rfl (by decide)
  have h12 := toNat_field 12 v (s := 12) rfl (by decide)
  have h6 := toNat_field 6 v (s := 6) rfl (by decide)
  have h0 := @UInt32.and_mask 6 v 0x3f rfl
  have hsame : (v >>> 18) <<< 18 ||| (v >>> 12 &&& 0x3f) <<< 12 ||| (v >>> 6 &&& 0x3f) <<< 6
      ||| (v &&& 0x3f) = v := by
    have h1 := UInt32.toNat_shift_left_or 6 (a := v >>> 6 &&& 0x3f) (s := 6) (b := v &&& 0x3f) rfl
      (by decide) (by omega) (by omega)
    have h2 := UInt32.toNat_shift_left_or 12 (a := v >>> 12 &&& 0x3f) (s := 12) rfl (by decide)
      (by omega) (b := (v >>> 6 &&& 0x3f) <<< 6 ||| (v &&& 0x3f)) (by omega)
    rw [← UInt32.toNat_inj, UInt32.or_assoc, UInt32.or_assoc,
      UInt32.toNat_shift_left_or 18 rfl (by decide) (by omega) (by omega), h2, h1]
    omega
  refine ⟨by omega, ?_⟩
  have hcount : ∀ a b c d : Nat, List.count (-2 : Int) [(a : Int), b, c, d] = 0 := by
    intro a b c d
    rw [List.count_eq_zero]
    simp
  simp only [decodeGroup, hcount, ofNat_toNat_cast, hsame]
  have hb0 : (v >>> 16).toUInt8 = x := by
    rw [← UInt8.toNat_inj, UInt32.toNat_toUInt8, UInt32.toNat_shift_right 16 v rfl (by decide)]
    omega
  have hb1 : (v >>> 8 &&& 0xff).toUInt8 = y := by
    rw [← UInt8.toNat_inj, UInt32.toNat_toUInt8, UInt32.and_mask 8 _ rfl,
      UInt32.toNat_shift_right 8 v rfl (by decide)]
    omega
  have hb2 : (v &&& 0xff).toUInt8 = z := by
    rw [← UInt8.toNat_inj, UInt32.toNat_toUInt8, UInt32.and_mask 8 _ rfl]
    omega
  rw [hb0, hb1, hb2]

theorem decodeGroup_two (x y : UInt8) {v : UInt32} (hv : v = x.toUInt32 <<< 8 ||| y.toUInt32)
    : (v >>> 10).toNat < 64 ∧ ((v &&& 0xf) <<< 2).toNat < 64
        ∧ decodeGroup [(v >>> 10).toNat, (v >>> 4 &&& 0x3f).toNat, ((v &&& 0xf) <<< 2).toNat, -2]
          = some [x, y] := by
  have hx := x.toNat_lt
  have hy := y.toNat_lt
  have hn : v.toNat = x.toNat * 2 ^ 8 + y.toNat := by
    rw [hv, UInt32.toNat_shift_left_or 8 rfl (by decide) (by simp; omega) (by simp; omega)]
    simp
  have h10 := UInt32.toNat_shift_right 10 v (s := 10) rfl (by decide)
  have h4 := toNat_field 4 v (s := 4) rfl (by decide)
  have h0 := @UInt32.and_mask 4 v 0xf rfl
  have hlast := UInt32.toNat_shift_left 2 (a := v &&& 0xf) (s := 2) rfl (by decide) (by omega)
  have hback := UInt32.toNat_shift_right 2 ((v &&& 0xf) <<< 2) (s := 2) rfl (by decide)
  have hsame : (v >>> 10) <<< 10 ||| (v >>> 4 &&& 0x3f) <<< 4 ||| (v &&& 0xf) <<< 2 >>> 2 = v := by
    have h1 := UInt32.toNat_shift_left_or 4 (a := v >>> 4 &&& 0x3f) (s := 4) rfl (by decide)
      (b := (v &&& 0xf) <<< 2 >>> 2) (by omega) (by omega)
    rw [← UInt32.toNat_inj, UInt32.or_assoc,
      UInt32.toNat_shift_left_or 10 rfl (by decide) (by omega) (by omega), h1]
    omega
  refine ⟨by omega, by omega, ?_⟩
  have hcount : ∀ a b c : Nat, List.count (-2 : Int) [(a : Int), b, c, -2] = 1 := by
    intro a b c
    have : List.count (-2 : Int) [(a : Int), b, c] = 0 := by
      rw [List.count_eq_zero]
      simp
    rw [show [(a : Int), b, c, -2] = [(a : Int), b, c] ++ [-2] from rfl, List.count_append, this]
    rfl
  have hzero : (v &&& 0xf) <<< 2 &&& 3 = 0 := by
    rw [← UInt32.toNat_inj, UInt32.and_mask 2 _ rfl, hlast]
    change _ = 0
    omega
  simp only [decodeGroup, hcount, ofNat_toNat_cast, hsame, hzero]
  have hb0 : (v >>> 8).toUInt8 = x := by
    rw [← UInt8.toNat_inj, UInt32.toNat_toUInt8, UInt32.toNat_shift_right 8 v rfl (by decide)]
    omega
  have hb1 : (v &&& 0xff).toUInt8 = y := by
    rw [← UInt8.toNat_inj, UInt32.toNat_toUInt8, UInt32.and_mask 8 _ rfl]
    omega
  simp [hb0, hb1]

theorem decodeGroup_one (x : UInt8) {v : UInt32} (hv : v = x.toUInt32)
    : (v >>> 2).toNat < 64 ∧ ((v &&& 3) <<< 4).toNat < 64
        ∧ decodeGroup [(v >>> 2).toNat, ((v &&& 3) <<< 4).toNat, -2, -2] = some [x] := by
  have hx := x.toNat_lt
  have hn : v.toNat = x.toNat := by rw [hv, UInt8.toNat_toUInt32]
  have h2 := UInt32.toNat_shift_right 2 v (s := 2) rfl (by decide)
  have h0 := @UInt32.and_mask 2 v 3 rfl
  have hlast := UInt32.toNat_shift_left 4 (a := v &&& 3) (s := 4) rfl (by decide) (by omega)
  have hback := UInt32.toNat_shift_right 4 ((v &&& 3) <<< 4) (s := 4) rfl (by decide)
  have hsame : (v >>> 2) <<< 2 ||| (v &&& 3) <<< 4 >>> 4 = v := by
    rw [← UInt32.toNat_inj, UInt32.toNat_shift_left_or 2 rfl (by decide) (by omega) (by omega)]
    omega
  refine ⟨by omega, by omega, ?_⟩
  have hcount : ∀ a b : Nat, List.count (-2 : Int) [(a : Int), b, -2, -2] = 2 := by
    intro a b
    have : List.count (-2 : Int) [(a : Int), b] = 0 := by
      rw [List.count_eq_zero]
      simp
    rw [show [(a : Int), b, -2, -2] = [(a : Int), b] ++ [-2, -2] from rfl, List.count_append, this]
    rfl
  have hzero : (v &&& 3) <<< 4 &&& 0xf = 0 := by
    rw [← UInt32.toNat_inj, UInt32.and_mask 4 _ rfl, hlast]
    change _ = 0
    omega
  simp only [decodeGroup, hcount, ofNat_toNat_cast, hsame, hzero]
  have hb : v.toUInt8 = x := by
    rw [← UInt8.toNat_inj, UInt32.toNat_toUInt8]
    omega
  simp [hb]

def noise (x : UInt8) : Bool := b64index x = -1

def letters (text : Bytes) : Bytes := text.filter fun x => !noise x

def Closed (text : Bytes) : Prop := ∀ x ∈ text.getLast?, noise x = false

theorem closed_cons_iff {x : UInt8} {text : Bytes} (h : text ≠ [] ∨ noise x = false)
    : Closed (x :: text) ↔ Closed text := by
  unfold Closed
  cases text with
  | nil =>
    have hx := h.resolve_left (by simp)
    simp [hx]
  | cons y text => rw [List.getLast?_cons_cons]

theorem readGroup_letters {text first rest : Bytes} (h : letters text = first ++ rest)
    (hne : first ≠ [])
    : ∃ text', readGroup text first.length = some (first.map b64index, text')
        ∧ letters text' = rest ∧ (Closed text ↔ Closed text')
        ∧ text'.length + first.length ≤ text.length := by
  induction text generalizing first with
  | nil => simp [letters, hne] at h
  | cons x text ih =>
    obtain ⟨y, first, rfl⟩ := List.exists_cons_of_ne_nil hne
    rw [List.length_cons, readGroup]
    unfold letters at h
    by_cases hx : noise x = true
    . rw [List.filter_cons_of_neg (by simp [hx])] at h
      obtain ⟨text', hread, hrest, hclosed, hlen⟩ := ih h hne
      have htext : text ≠ [] := by
        rintro rfl
        simp at h
      rw [if_pos (by simpa [noise] using hx), closed_cons_iff (.inl htext)]
      rw [List.length_cons] at hread hlen
      exact ⟨text', hread, hrest, hclosed, by rw [List.length_cons]; omega⟩
    . rw [Bool.not_eq_true] at hx
      rw [List.filter_cons_of_pos (by simp [hx]), List.cons_append, List.cons.injEq] at h
      obtain ⟨rfl, h⟩ := h
      rw [if_neg (by simpa [noise] using hx), closed_cons_iff (.inr hx)]
      by_cases hfirst : first = []
      . subst hfirst
        refine ⟨text, ?_, h, Iff.rfl, by simp⟩
        rw [List.length_nil]
        cases text <;> rfl
      . obtain ⟨text', hread, hrest, hclosed, hlen⟩ := ih h hfirst
        refine ⟨text', ?_, hrest, hclosed, by rw [List.length_cons]; omega⟩
        rw [hread]
        rfl

theorem readGroup_of_no_letters {text : Bytes} (h : letters text = []) (j : Nat)
    : readGroup text (j + 1) = none := by
  induction text with
  | nil => rfl
  | cons x text ih =>
    unfold letters at h
    by_cases hx : noise x = true
    . rw [List.filter_cons_of_neg (by simp [hx])] at h
      rw [readGroup, if_pos (by simpa [noise] using hx)]
      exact ih h
    . rw [List.filter_cons_of_pos (by simpa using hx)] at h
      cases h

theorem decodeLoop_group {rounds : Nat} {text first rest bs : Bytes}
    (h : letters text = first ++ rest) (hlen : first.length = 4)
    (hgroup : decodeGroup (first.map b64index) = some bs) (hrounds : text.length < rounds)
    : ∃ rounds' text', decodeLoop rounds text = (decodeLoop rounds' text').map (bs ++ ·)
        ∧ letters text' = rest ∧ (Closed text ↔ Closed text') ∧ text'.length < rounds' := by
  obtain ⟨rounds, rfl⟩ := Nat.exists_eq_succ_of_ne_zero (by omega : rounds ≠ 0)
  have hne : first ≠ [] := by
    rintro rfl
    simp at hlen
  obtain ⟨text', hread, hrest, hclosed, hle⟩ := readGroup_letters h hne
  rw [hlen] at hread hle
  refine ⟨rounds, text', ?_, hrest, hclosed, by omega⟩
  cases text with
  | nil => simp [letters, hne] at h
  | cons x text =>
    rw [decodeLoop]
    . simp only [hread, Option.bind_eq_bind, Option.bind_some, hgroup]
      cases decodeLoop rounds text' with
      | none => rfl
      | some out => rfl
    . simp

theorem decodeLoop_of_no_letters {rounds : Nat} {text : Bytes} (h : letters text = [])
    (hrounds : text.length < rounds) : decodeLoop rounds text = some [] ↔ Closed text := by
  obtain ⟨rounds, rfl⟩ := Nat.exists_eq_succ_of_ne_zero (by omega : rounds ≠ 0)
  cases text with
  | nil => simp [decodeLoop, Closed]
  | cons x text =>
    have hlast : ¬ Closed (x :: text) := by
      intro hclosed
      have hmem := List.getLast?_eq_some_getLast (List.cons_ne_nil x text)
      have hfalse := hclosed _ hmem
      have : (x :: text).getLast (by simp) ∈ letters (x :: text) :=
        List.mem_filter.mpr ⟨List.getLast_mem _, by simp [hfalse]⟩
      rw [h] at this
      cases this
    simp only [hlast, iff_false]
    rw [decodeLoop]
    . simp [readGroup_of_no_letters h 3]
    . simp

theorem decodeLoop_append_iff {rounds : Nat} {s first rest bs out : Bytes}
    (h : letters s = first ++ rest) (hlen : first.length = 4)
    (hgroup : decodeGroup (first.map b64index) = some bs) (hrounds : s.length < rounds)
    (hrest : ∀ rounds s, letters s = rest → s.length < rounds
      → (decodeLoop rounds s = some out ↔ Closed s))
    : decodeLoop rounds s = some (bs ++ out) ↔ Closed s := by
  obtain ⟨rounds', s', hloop, hs', hclosed, hlt⟩ := decodeLoop_group h hlen hgroup hrounds
  rw [hloop, hclosed, ← hrest rounds' s' hs' hlt, Option.map_eq_some_iff]
  simp only [List.append_cancel_left_eq, exists_eq_right]

theorem toNat_and_lt (v : UInt32) : (v &&& 0x3f).toNat < 64 := by
  rw [UInt32.and_mask 6 _ rfl]
  exact Nat.mod_lt _ (by decide)

theorem decodeLoop_iff (text : Bytes) (rounds : Nat) (s : Bytes) (h : letters s = base64encode text)
    (hrounds : s.length < rounds) : decodeLoop rounds s = some text ↔ Closed s := by
  induction text using base64encode.induct generalizing rounds s with
  | case1 x y z text ih =>
    rw [base64encode] at h
    generalize hv : x.toUInt32 <<< 16 ||| y.toUInt32 <<< 8 ||| z.toUInt32 = v at h
    obtain ⟨h18, hgroup⟩ := decodeGroup_three x y z hv.symm
    have hsplit : letters s = [encode (v >>> 18), encode (v >>> 12 &&& 0x3f),
        encode (v >>> 6 &&& 0x3f), encode (v &&& 0x3f)] ++ base64encode text := h
    refine decodeLoop_append_iff hsplit rfl (Eq.trans ?_ hgroup) hrounds ih
    simp only [List.map_cons, List.map_nil, b64index_encode h18, b64index_encode (toNat_and_lt _)]
  | case2 x y =>
    rw [base64encode] at h
    generalize hv : x.toUInt32 <<< 8 ||| y.toUInt32 = v at h
    obtain ⟨h10, hlast, hgroup⟩ := decodeGroup_two x y hv.symm
    rw [← List.append_nil [encode _, _, _, _]] at h
    refine decodeLoop_append_iff h rfl (Eq.trans ?_ hgroup) hrounds
      (fun _ _ => decodeLoop_of_no_letters)
    simp only [List.map_cons, List.map_nil, b64index_encode h10, b64index_encode hlast,
      b64index_encode (toNat_and_lt _), b64index_pad]
  | case3 x =>
    rw [base64encode] at h
    generalize hv : x.toUInt32 = v at h
    obtain ⟨h2, hlast, hgroup⟩ := decodeGroup_one x hv.symm
    rw [← List.append_nil [encode _, _, _, _]] at h
    refine decodeLoop_append_iff h rfl (Eq.trans ?_ hgroup) hrounds
      (fun _ _ => decodeLoop_of_no_letters)
    simp only [List.map_cons, List.map_nil, b64index_encode h2, b64index_encode hlast, b64index_pad]
  | case4 => exact decodeLoop_of_no_letters h hrounds

theorem base64decode_eq_some_iff (text s : Bytes) (h : letters s = base64encode text)
    : base64decode s = some text ↔ Closed s :=
  decodeLoop_iff text _ s h (Nat.lt_succ_self _)

theorem base64decode_eq_some_iff_lineBreak
    : base64decode [81, 85, 10, 74, 68] = some [65, 66, 67] ↔ Closed [81, 85, 10, 74, 68] :=
  base64decode_eq_some_iff [65, 66, 67] _ (by decide)

theorem letters_base64encode (text : Bytes) : letters (base64encode text) = base64encode text := by
  have hencode : ∀ {w : UInt32}, w.toNat < 64 → noise (encode w) = false := by
    intro w hw
    rw [noise, b64index_encode hw, decide_eq_false_iff_not]
    omega
  have hpad : noise '='.toUInt8 = false := by
    rw [noise, b64index_pad]
    rfl
  unfold letters
  rw [List.filter_eq_self]
  intro c hc
  rw [Bool.not_eq_true']
  induction text using base64encode.induct with
  | case1 x y z text ih =>
    rw [base64encode] at hc
    obtain ⟨h18, -⟩ := decodeGroup_three x y z rfl
    simp only [List.mem_cons] at hc
    rcases hc with rfl | rfl | rfl | rfl | hc
    . exact hencode h18
    . exact hencode (toNat_and_lt _)
    . exact hencode (toNat_and_lt _)
    . exact hencode (toNat_and_lt _)
    . exact ih hc
  | case2 x y =>
    rw [base64encode] at hc
    obtain ⟨h10, hlast, -⟩ := decodeGroup_two x y rfl
    simp only [List.mem_cons, List.not_mem_nil, or_false] at hc
    rcases hc with rfl | rfl | rfl | rfl
    . exact hencode h10
    . exact hencode (toNat_and_lt _)
    . exact hencode hlast
    . exact hpad
  | case3 x =>
    rw [base64encode] at hc
    obtain ⟨h2, hlast, -⟩ := decodeGroup_one x rfl
    simp only [List.mem_cons, List.not_mem_nil, or_false] at hc
    rcases hc with rfl | rfl | rfl | rfl
    . exact hencode h2
    . exact hencode hlast
    . exact hpad
    . exact hpad
  | case4 => cases hc

theorem base64decode_base64encode (text : Bytes) : base64decode (base64encode text) = some text := by
  apply (decodeLoop_iff text _ _ (letters_base64encode text) (Nat.lt_succ_self _)).mpr
  intro c hc
  have hmem := List.mem_of_getLast? hc
  rw [← letters_base64encode, letters, List.mem_filter] at hmem
  simpa using hmem.2

end Crypt
