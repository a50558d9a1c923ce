import Mathlib.Data.Nat.Digits.Lemmas
import SkynetAoi.Lib.Binary
import SkynetAoi.Lib.Bytes

/-!
This module contains numbers as texts: how `printf` writes an integer, how `strtol`, `strtof` and
`strtod` of the C library read a number and what the `tonumber` of Lua makes of a string.
-/

namespace Numeral

def space : UInt8 := 32

def isSpace (c : UInt8) : Bool := c = space || (9 ≤ c && c ≤ 13)

def minus : UInt8 := 45

def plus : UInt8 := 43

def point : UInt8 := 46

def digit (d : Nat) : UInt8 := UInt8.ofNat (48 + d)

def decimalDigits (n : Nat) : List Nat := if n = 0 then [0] else (Nat.digits 10 n).reverse

def decimal (n : Nat) : Bytes := (decimalDigits n).map digit

-- `%d`
def signed (n : Int) : Bytes := if n < 0 then minus :: decimal n.natAbs else decimal n.natAbs

def lower (c : UInt8) : UInt8 := if 65 ≤ c && c ≤ 90 then c + 32 else c

def digitValue (base : Nat) (c : UInt8) : Option Nat :=
  let c := lower c
  let d := if c < 58 then c.toNat - 48 else c.toNat - 87
  if (48 ≤ c && c < 58 || 97 ≤ c && c ≤ 122) && d < base then some d else none

def readDigits (base : Nat) (s : Bytes) : List Nat × Bytes :=
  match s with
  | [] => ([], [])
  | c :: rest =>
    match digitValue base c with
    | none => ([], c :: rest)
    | some d =>
      let (ds, rest) := readDigits base rest
      (d :: ds, rest)

def ofDigits (base : Nat) (ds : List Nat) : Nat := Nat.ofDigits base ds.reverse

def readSign (s : Bytes) : Bool × Bytes :=
  match s with
  | [] => (false, [])
  | c :: rest =>
    if c = minus then (true, rest) else if c = plus then (false, rest) else (false, c :: rest)

def negate (negative : Bool) (n : Int) : Int := if negative then -n else n

-- Where `long` has 64 bits.
def strtol (s : Bytes) : Int :=
  let (negative, s) := readSign (s.dropWhile isSpace)
  max (-2 ^ 63) (min (2 ^ 63 - 1) (negate negative (ofDigits 10 (readDigits 10 s).1)))

def readHexPrefix (s : Bytes) : Option Bytes :=
  match s with
  | zero :: x :: rest => if zero = digit 0 && lower x = 120 then some rest else none
  | _ => none

def readWord (word : Bytes) (s : Bytes) : Option Bytes :=
  if (s.take word.length).map lower = word then some (s.drop word.length) else none

-- An exponent without digits is not part of the number.
def readExponent (mark : UInt8) (s : Bytes) : Int × Bytes :=
  match s with
  | [] => (0, [])
  | c :: rest =>
    if lower c = mark then
      let (negative, rest) := readSign rest
      let (ds, rest) := readDigits 10 rest
      if ds.isEmpty then (0, s) else (negate negative (ofDigits 10 ds), rest)
    else
      (0, s)

def readFraction (base : Nat) (s : Bytes) : List Nat × Bytes :=
  match s with
  | [] => ([], [])
  | c :: rest => if c = point then readDigits base rest else ([], c :: rest)

-- Digits with a radix point at most once and an exponent, which counts powers of `radix`.
def readRational (base radix : Nat) (mark : UInt8) (s : Bytes) : Option (ℚ × Bytes) :=
  let (whole, s) := readDigits base s
  let (fraction, s) := readFraction base s
  if whole.isEmpty && fraction.isEmpty then
    none
  else
    let (exponent, s) := readExponent mark s
    some (ofDigits base (whole ++ fraction) / base ^ fraction.length * radix ^ exponent, s)

def readUnsigned (s : Bytes) : Option (ℚ × Bytes) :=
  match (readHexPrefix s).bind (readRational 16 2 112) with
  | some read => some read
  | none => readRational 10 10 101 s

def infWord : Bytes := [105, 110, 102]

def inityWord : Bytes := [105, 110, 105, 116, 121]

def nanWord : Bytes := [110, 97, 110]

def isPayload (c : UInt8) : Bool :=
  (digitValue 36 c).isSome || c = 95

def readPayload (s : Bytes) : Bytes :=
  match s with
  | [] => []
  | c :: rest =>
    match rest.dropWhile isPayload with
    | [] => s
    | close :: rest => if c = 40 && close = 41 then rest else s

-- `strtof` and `strtod`: the value and the text after it, all of the text if there is no number.
def strto (fmt : Binary.Format) (s : Bytes) : Binary × Bytes :=
  let (negative, t) := readSign (s.dropWhile isSpace)
  match readUnsigned t with
  | some (q, rest) => (Binary.round fmt (if negative then -q else q), rest)
  | none =>
    match readWord infWord t with
    | some rest => (.infinite negative, (readWord inityWord rest).getD rest)
    | none =>
      match readWord nanWord t with
      | some rest => (.nan, readPayload rest)
      | none => (.finite 0, s)

def strtof (s : Bytes) : Binary := (strto .single s).1

inductive LuaNumber where
  | integer (n : Int)
  | float (x : Binary)
  deriving DecidableEq, Repr

-- Nothing but spaces may follow, so a string with a NUL in it is not a number.
def ends (s : Bytes) : Bool := (s.dropWhile isSpace).isEmpty

-- `l_str2int`: hexadecimal numbers wrap around, decimal ones that are too large are not integers.
def str2int (s : Bytes) : Option Int :=
  let (negative, s) := readSign (s.dropWhile isSpace)
  match readHexPrefix s with
  | some s =>
    let (ds, rest) := readDigits 16 s
    if ds.isEmpty || !ends rest then
      none
    else
      some ((negate negative (ofDigits 16 ds)).bmod (2 ^ 64))
  | none =>
    let (ds, rest) := readDigits 10 s
    let n := ofDigits 10 ds
    if ds.isEmpty || !ends rest || n > 2 ^ 63 - 1 + negative.toNat then
      none
    else
      some (negate negative n)

def isSpecial (c : UInt8) : Bool := c = point || lower c = 120 || lower c = 110

def str2d (s : Bytes) : Option Binary :=
  if (s.find? isSpecial).map lower = some 110 then
    none
  else
    let (x, rest) := strto .double s
    if rest = s || !ends rest then none else some x

def tonumber (s : Bytes) : Option LuaNumber :=
  match str2int s with
  | some n => some (.integer n)
  | none => (str2d s).map .float

theorem digitValue_digit {d : Nat} (h : d < 10) : digitValue 10 (digit d) = some d := by
  revert d
  decide

theorem decimalDigits_lt {n d : Nat} (h : d ∈ decimalDigits n) : d < 10 := by
  unfold decimalDigits at h
  split at h
  . simp only [List.mem_singleton] at h
    omega
  . exact Nat.digits_lt_base (by norm_num) (List.mem_reverse.mp h)

theorem decimalDigits_ne_nil (n : Nat) : decimalDigits n ≠ [] := by
  unfold decimalDigits
  split
  . simp
  . simpa using Nat.digits_ne_nil_iff_ne_zero.mpr ‹_›

theorem ofDigits_decimalDigits (n : Nat) : ofDigits 10 (decimalDigits n) = n := by
  unfold ofDigits decimalDigits
  split
  . subst n
    rfl
  . rw [List.reverse_reverse, Nat.ofDigits_digits]

theorem mem_decimal {n : Nat} {c : UInt8} (h : c ∈ decimal n) : ∃ d < 10, c = digit d := by
  unfold decimal at h
  obtain ⟨d, hd, rfl⟩ := List.mem_map.mp h
  exact ⟨d, decimalDigits_lt hd, rfl⟩

theorem decimal_ne_nil (n : Nat) : decimal n ≠ [] := by
  simp [decimal, decimalDigits_ne_nil]

theorem decimal_of_lt {n : Nat} (h : n < 10) : decimal n = [digit n] := by
  unfold decimal decimalDigits
  split
  . subst n
    rfl
  . rw [Nat.digits_of_lt 10 n ‹_› h]
    rfl

theorem decimal_of_ge {n : Nat} (h : 10 ≤ n)
    : decimal n = decimal (n / 10) ++ [digit (n % 10)] := by
  have hne : n ≠ 0 := by omega
  have hdiv : n / 10 ≠ 0 := by omega
  simp only [decimal, decimalDigits, if_neg hne, if_neg hdiv]
  rw [Nat.digits_eq_cons_digits_div (by norm_num) hne, List.reverse_cons, List.map_append]
  rfl

theorem decimal_eq_cons (n : Nat) : ∃ d rest, d < 10 ∧ decimal n = digit d :: rest := by
  cases h : decimal n with
  | nil => exact absurd h (decimal_ne_nil n)
  | cons c rest =>
    obtain ⟨d, hd, rfl⟩ := mem_decimal (n := n) (c := c) (by simp [h])
    exact ⟨d, rest, hd, rfl⟩

theorem digit_forall {p : UInt8 → Prop} (h : ∀ d < 10, p (digit d)) {n : Nat} {c : UInt8}
    (hc : c ∈ decimal n) : p c := by
  obtain ⟨d, hd, rfl⟩ := mem_decimal hc
  exact h d hd

theorem signed_forall {p : UInt8 → Prop} (h : ∀ d < 10, p (digit d)) (hminus : p minus) {n : Int}
    {c : UInt8} (hc : c ∈ signed n) : p c := by
  unfold signed at hc
  split at hc
  . rcases List.mem_cons.mp hc with rfl | hc
    . exact hminus
    . exact digit_forall h hc
  . exact digit_forall h hc

theorem readDigits_map_digit {ds : List Nat} (h : ∀ d ∈ ds, d < 10)
    : readDigits 10 (ds.map digit) = (ds, []) := by
  induction ds with
  | nil => rfl
  | cons d ds ih =>
    have hd : digitValue 10 (digit d) = some d := digitValue_digit (h d (by simp))
    have hds := ih fun d hd => h d (by simp [hd])
    simp [readDigits, hd, hds]

@[simp]
theorem readDigits_decimal (n : Nat) : readDigits 10 (decimal n) = (decimalDigits n, []) :=
  readDigits_map_digit fun _ hd => decimalDigits_lt hd

@[simp]
theorem dropWhile_decimal (n : Nat) : (decimal n).dropWhile isSpace = decimal n := by
  obtain ⟨d, rest, hd, heq⟩ := decimal_eq_cons n
  have hspace : ∀ d < 10, isSpace (digit d) = false := by decide
  rw [heq, List.dropWhile_cons_of_neg (by simp [hspace d hd])]

@[simp]
theorem readSign_decimal (n : Nat) : readSign (decimal n) = (false, decimal n) := by
  obtain ⟨d, rest, hd, heq⟩ := decimal_eq_cons n
  have hminus : ∀ d < 10, digit d ≠ minus := by decide
  have hplus : ∀ d < 10, digit d ≠ plus := by decide
  simp [heq, readSign, hminus d hd, hplus d hd]

theorem strtol_decimal {n : Nat} (h : n < 2 ^ 63) : strtol (decimal n) = n := by
  simp only [strtol, dropWhile_decimal, readSign_decimal, readDigits_decimal, negate,
    ofDigits_decimalDigits]
  simp only [Bool.false_eq_true, if_false]
  omega

@[simp]
theorem readHexPrefix_decimal (n : Nat) : readHexPrefix (decimal n) = none := by
  have hx : ∀ d < 10, lower (digit d) ≠ 120 := by decide
  cases h : decimal n with
  | nil => rfl
  | cons c rest =>
    cases rest with
    | nil => rfl
    | cons x rest =>
      obtain ⟨d, hd, rfl⟩ := mem_decimal (n := n) (c := x) (by simp [h])
      simp [readHexPrefix, hx d hd]

@[simp]
theorem readUnsigned_decimal (n : Nat) : readUnsigned (decimal n) = some ((n : ℚ), []) := by
  simp [readUnsigned, readRational, readFraction, readExponent, decimalDigits_ne_nil,
    ofDigits_decimalDigits]

theorem readSign_signed (n : Int)
    : readSign ((signed n).dropWhile isSpace) = (decide (n < 0), decimal n.natAbs) := by
  unfold signed
  split
  . rename_i hneg
    have hspace : isSpace minus = false := by decide
    rw [List.dropWhile_cons_of_neg (by simp [hspace])]
    simp [readSign, hneg]
  . rename_i hneg
    simp [hneg]

theorem strtof_signed {n : Int} (h : |n| ≤ 2 ^ 24) : strtof (signed n) = .finite n := by
  have hvalue : (if decide (n < 0) then -(n.natAbs : ℚ) else (n.natAbs : ℚ)) = n := by
    have : (n.natAbs : ℚ) = ((n.natAbs : Int) : ℚ) := by simp
    rw [this]
    split
    . rename_i hneg
      rw [decide_eq_true_iff] at hneg
      exact_mod_cast (by omega : -(n.natAbs : Int) = n)
    . rename_i hneg
      rw [decide_eq_true_iff] at hneg
      exact_mod_cast (by omega : (n.natAbs : Int) = n)
  unfold strtof strto
  rw [readSign_signed]
  simp only [readUnsigned_decimal]
  rw [hvalue]
  exact Binary.round_intCast h

theorem str2int_decimal {n : Nat} (h : n < 2 ^ 63) : str2int (decimal n) = some (n : Int) := by
  have hlarge : ¬n > 9223372036854775807 := by omega
  simp [str2int, negate, ends, ofDigits_decimalDigits, decimalDigits_ne_nil, hlarge]

theorem tonumber_decimal {n : Nat} (h : n < 2 ^ 63)
    : tonumber (decimal n) = some (.integer n) := by
  simp [tonumber, str2int_decimal h]

theorem tonumber_minus {s : Bytes} {n : Int} (hs : ∀ c ∈ s, lower c ≠ 120)
    (h : tonumber (minus :: s) = some (.integer n)) : n ≤ 0 := by
  have hspace : isSpace minus = false := by decide
  have hhex : readHexPrefix s = none := by
    unfold readHexPrefix
    split
    . rename_i x rest
      simp [hs x (by simp)]
    . rfl
  have hint : str2int (minus :: s) = some n := by
    unfold tonumber at h
    cases hint : str2int (minus :: s) with
    | none => simp [hint] at h
    | some m => simpa [hint] using h
  unfold str2int at hint
  rw [List.dropWhile_cons_of_neg (by simp [hspace])] at hint
  simp only [readSign, if_pos, hhex] at hint
  split at hint
  . cases hint
  . simp only [negate, if_pos, Option.some.injEq] at hint
    omega

end Numeral
