import SkynetAoi.Crypt.DesInverse
import SkynetAoi.Lib.LittleEndian
import SkynetAoi.Watchdog.Crypt
import Mathlib.Data.Nat.ModEq
import Mathlib.Tactic.Ring

/-!
This module contains the key exchange of `lua-crypt.c`: the powers modulo `P` that it computes within 64
bits, and that both sides end with the same secret.
-/

namespace Crypt

def primeP : UInt64 := 0xffffffffffffffc5

def generatorG : UInt64 := 5

def mulLoop (rounds : Nat) (m a b : UInt64) : UInt64 :=
  match rounds with
  | 0 => m
  | rounds + 1 =>
    if b = 0 then
      m
    else
      let t := primeP - a
      let m := if b &&& 1 ≠ 0 then (if m ≥ t then m - t else m + a) else m
      let a := if a ≥ primeP - a then a * 2 - primeP else a * 2
      mulLoop rounds m a (b >>> 1)

def mulModP (a b : UInt64) : UInt64 := mulLoop 64 0 a b

-- `none` is a recursion that does not come to an end.
def powModP (fuel : Nat) (a b : UInt64) : Option UInt64 :=
  match fuel with
  | 0 => none
  | fuel + 1 =>
    if b = 1 then
      some a
    else
      match powModP fuel a (b >>> 1) with
      | none => none
      | some t =>
        let t := mulModP t t
        some (if b % 2 ≠ 0 then mulModP t a else t)

def powmodp (a b : UInt64) : Option UInt64 :=
  powModP 64 (if a > primeP then a % primeP else a) b

def qword (x : UInt32 × UInt32) : UInt64 := x.1.toUInt64 ||| x.2.toUInt64 <<< 32

def push64 (r : UInt64) : Bytes :=
  [r.toUInt8, (r >>> 8).toUInt8, (r >>> 16).toUInt8, (r >>> 24).toUInt8, (r >>> 32).toUInt8,
    (r >>> 40).toUInt8, (r >>> 48).toUInt8, (r >>> 56).toUInt8]

-- `none` where it raises, as for a key that is 0.
def dhexchange (x : Bytes) : Option Bytes :=
  match read64 x with
  | none => none
  | some x => if qword x = 0 then none else (powmodp generatorG (qword x)).map push64

def dhsecret (x y : Bytes) : Option Bytes :=
  match read64 x, read64 y with
  | some x, some y =>
    if qword x = 0 ∨ qword y = 0 then none else (powmodp (qword x) (qword y)).map push64
  | _, _ => none

structure Random8 where
  b0 : UInt8
  b1 : UInt8
  b2 : UInt8
  b3 : UInt8
  b4 : UInt8
  b5 : UInt8
  b6 : UInt8
  b7 : UInt8

def randomkey (r : Random8) : Bytes :=
  let x := r.b0 ^^^ r.b1 ^^^ r.b2 ^^^ r.b3 ^^^ r.b4 ^^^ r.b5 ^^^ r.b6 ^^^ r.b7
  [if x = 0 then r.b0 ||| 1 else r.b0, r.b1, r.b2, r.b3, r.b4, r.b5, r.b6, r.b7]

theorem toNat_primeP : primeP.toNat = 18446744073709551557 := rfl

theorem toNat_addModP {m a : UInt64} (hm : m.toNat < primeP.toNat) (ha : a.toNat ≤ primeP.toNat)
    : (if m ≥ primeP - a then m - (primeP - a) else m + a).toNat < primeP.toNat
        ∧ ∃ k, (if m ≥ primeP - a then m - (primeP - a) else m + a).toNat + k * primeP.toNat
          = m.toNat + a.toNat := by
  have hP := toNat_primeP
  have hsub : (primeP - a).toNat = primeP.toNat - a.toNat :=
    UInt64.toNat_sub_of_le _ _ (UInt64.le_iff_toNat_le.mpr ha)
  split
  . next hge =>
    rw [UInt64.toNat_sub_of_le _ _ hge]
    rw [ge_iff_le, UInt64.le_iff_toNat_le] at hge
    exact ⟨by omega, 1, by omega⟩
  . next hlt =>
    rw [ge_iff_le, UInt64.le_iff_toNat_le] at hlt
    have hadd : (m + a).toNat = m.toNat + a.toNat := by
      rw [UInt64.toNat_add]
      omega
    exact ⟨by omega, 0, by omega⟩

theorem toNat_doubleModP {a : UInt64} (ha : a.toNat ≤ primeP.toNat)
    : (if a ≥ primeP - a then a * 2 - primeP else a * 2).toNat ≤ primeP.toNat
        ∧ ∃ k, (if a ≥ primeP - a then a * 2 - primeP else a * 2).toNat + k * primeP.toNat
          = a.toNat * 2 := by
  have hP := toNat_primeP
  have hsub : (primeP - a).toNat = primeP.toNat - a.toNat :=
    UInt64.toNat_sub_of_le _ _ (UInt64.le_iff_toNat_le.mpr ha)
  have hdouble : (a * 2).toNat = a.toNat * 2 % 2 ^ 64 := UInt64.toNat_mul a 2
  split
  . next hge =>
    rw [ge_iff_le, UInt64.le_iff_toNat_le] at hge
    -- The double may be too big for a word, and the difference is right all the same.
    have hdiff : (a * 2 - primeP).toNat = a.toNat * 2 - primeP.toNat := by
      rw [UInt64.toNat_sub]
      omega
    exact ⟨by omega, 1, by omega⟩
  . next hlt =>
    rw [ge_iff_le, UInt64.le_iff_toNat_le] at hlt
    exact ⟨by omega, 0, by omega⟩

theorem toNat_half (b : UInt64) : (b >>> 1).toNat = b.toNat / 2 := by
  rw [UInt64.toNat_shiftRight, Nat.shiftRight_eq_div_pow]
  rfl

theorem toNat_mulLoop {rounds : Nat} {m a b : UInt64} (hm : m.toNat < primeP.toNat)
    (ha : a.toNat ≤ primeP.toNat) (hb : b.toNat < 2 ^ rounds)
    : (mulLoop rounds m a b).toNat = (m.toNat + a.toNat * b.toNat) % primeP.toNat := by
  induction rounds generalizing m a b with
  | zero =>
    have hzero : b.toNat = 0 := by simpa using hb
    rw [mulLoop, hzero, Nat.mul_zero, Nat.add_zero, Nat.mod_eq_of_lt hm]
  | succ rounds ih =>
    rw [mulLoop]
    split
    . next hzero =>
      rw [hzero]
      change m.toNat = (m.toNat + a.toNat * 0) % primeP.toNat
      rw [Nat.mul_zero, Nat.add_zero, Nat.mod_eq_of_lt hm]
    . have hhalf := toNat_half b
      have hodd : b &&& 1 ≠ 0 ↔ b.toNat % 2 = 1 := by
        rw [ne_eq, ← UInt64.toNat_inj, UInt64.toNat_and]
        change ¬ b.toNat &&& 2 ^ 1 - 1 = 0 ↔ _
        rw [Nat.and_two_pow_sub_one_eq_mod]
        omega
      obtain ⟨hsum, k, hk⟩ := toNat_addModP hm ha
      obtain ⟨hdouble, j, hj⟩ := toNat_doubleModP ha
      have hm' : (if b &&& 1 ≠ 0 then (if m ≥ primeP - a then m - (primeP - a) else m + a)
            else m).toNat < primeP.toNat
          ∧ ∃ k, (if b &&& 1 ≠ 0 then (if m ≥ primeP - a then m - (primeP - a) else m + a)
            else m).toNat + k * primeP.toNat = m.toNat + a.toNat * (b.toNat % 2) := by
        split
        . next hbit => exact ⟨hsum, k, by rw [hk, hodd.mp hbit, Nat.mul_one]⟩
        . next hbit =>
          have hzero : b.toNat % 2 = 0 := by
            have := mt hodd.mpr hbit
            omega
          exact ⟨hm, 0, by rw [hzero, Nat.zero_mul, Nat.mul_zero]⟩
      obtain ⟨hlt, i, hi⟩ := hm'
      dsimp only
      rw [ih hlt hdouble (by rw [hhalf]; omega), hhalf]
      generalize (if a ≥ primeP - a then a * 2 - primeP else a * 2).toNat = a' at hj
      generalize (if b &&& 1 ≠ 0 then (if m ≥ primeP - a then m - (primeP - a) else m + a)
        else m).toNat = m' at hi
      have hb2 : b.toNat = b.toNat % 2 + 2 * (b.toNat / 2) := (Nat.mod_add_div _ 2).symm
      have hsame : m' + a' * (b.toNat / 2) + (i + j * (b.toNat / 2)) * primeP.toNat
          = m.toNat + a.toNat * b.toNat := by
        calc m' + a' * (b.toNat / 2) + (i + j * (b.toNat / 2)) * primeP.toNat
            = (m' + i * primeP.toNat) + (a' + j * primeP.toNat) * (b.toNat / 2) := by ring
          _ = m.toNat + a.toNat * (b.toNat % 2) + a.toNat * 2 * (b.toNat / 2) := by rw [hi, hj]
          _ = m.toNat + a.toNat * (b.toNat % 2 + 2 * (b.toNat / 2)) := by ring
          _ = m.toNat + a.toNat * b.toNat := by rw [← hb2]
      rw [← hsame, Nat.add_mul_mod_self_right]

theorem toNat_mulModP {a : UInt64} (ha : a.toNat ≤ primeP.toNat) (b : UInt64)
    : (mulModP a b).toNat = a.toNat * b.toNat % primeP.toNat := by
  have h := @toNat_mulLoop 64 0 a b (by decide) ha b.toNat_lt
  rw [mulModP, h]
  change (0 + _) % _ = _
  rw [Nat.zero_add]

theorem powModP_spec {fuel : Nat} {a b : UInt64} (ha : a.toNat ≤ primeP.toNat)
    (hb : b.toNat < 2 ^ fuel) (hne : b.toNat ≠ 0)
    : ∃ r, powModP fuel a b = some r ∧ r.toNat ≤ primeP.toNat
        ∧ (a.toNat < primeP.toNat → r.toNat < primeP.toNat)
        ∧ r.toNat % primeP.toNat = a.toNat ^ b.toNat % primeP.toNat := by
  have hpos : 0 < primeP.toNat := by decide
  induction fuel generalizing b with
  | zero => omega
  | succ fuel ih =>
    rw [powModP]
    split
    . next hone =>
      rw [hone]
      exact ⟨a, rfl, ha, id, by rw [UInt64.toNat_one, Nat.pow_one]⟩
    . next hone =>
      have hone' : b.toNat ≠ 1 := by
        intro h
        exact hone (UInt64.toNat_inj.mp h)
      have hhalf := toNat_half b
      obtain ⟨t, ht, hle, -, hmod⟩ := ih (b := b >>> 1) (by omega) (by omega)
      rw [ht]
      dsimp only
      have hsquare := toNat_mulModP hle t
      rw [Nat.mul_mod, hmod, ← Nat.mul_mod, ← Nat.pow_add, hhalf] at hsquare
      have hlt : (mulModP t t).toNat < primeP.toNat := by
        rw [hsquare]
        exact Nat.mod_lt _ hpos
      have hodd : b % 2 ≠ 0 ↔ b.toNat % 2 = 1 := by
        rw [ne_eq, ← UInt64.toNat_inj, UInt64.toNat_mod]
        change ¬ b.toNat % 2 = 0 ↔ _
        omega
      refine ⟨_, rfl, ?_⟩
      split
      . next hbit =>
        have hlast := toNat_mulModP (Nat.le_of_lt hlt) a
        rw [Nat.mul_mod, hsquare, Nat.mod_mod, ← Nat.mul_mod, ← Nat.pow_succ,
          show (b.toNat / 2 + b.toNat / 2).succ = b.toNat by have := hodd.mp hbit; omega] at hlast
        have hlt' : (mulModP (mulModP t t) a).toNat < primeP.toNat := by
          rw [hlast]
          exact Nat.mod_lt _ hpos
        exact ⟨Nat.le_of_lt hlt', fun _ => hlt', by rw [hlast, Nat.mod_mod]⟩
      . next hbit =>
        have heven : b.toNat / 2 + b.toNat / 2 = b.toNat := by
          have := mt hodd.mpr hbit
          omega
        rw [heven] at hsquare
        exact ⟨Nat.le_of_lt hlt, fun _ => hlt, by rw [hsquare, Nat.mod_mod]⟩

theorem powModP_zero (fuel : Nat) (a : UInt64) : powModP fuel a 0 = none := by
  induction fuel with
  | zero => rfl
  | succ fuel ih =>
    rw [powModP, if_neg (by decide)]
    change (match powModP fuel a 0 with
      | none => none
      | some t => _) = none
    rw [ih]

theorem powmodp_spec (a : UInt64) {b : UInt64} (hne : b ≠ 0)
    : ∃ r, powmodp a b = some r
        ∧ r.toNat % primeP.toNat = a.toNat ^ b.toNat % primeP.toNat
        ∧ (a ≠ primeP → r.toNat < primeP.toNat) := by
  have hb : b.toNat ≠ 0 := by
    intro h
    exact hne (UInt64.toNat_inj.mp h)
  unfold powmodp
  split
  . next hgt =>
    have hmod : (a % primeP).toNat = a.toNat % primeP.toNat := UInt64.toNat_mod a primeP
    have hlt : (a % primeP).toNat < primeP.toNat := by
      rw [hmod]
      exact Nat.mod_lt _ (by decide)
    obtain ⟨r, hr, -, hless, heq⟩ := powModP_spec (Nat.le_of_lt hlt) b.toNat_lt hb
    rw [hmod, ← Nat.pow_mod] at heq
    exact ⟨r, hr, heq, fun _ => hless hlt⟩
  . next hle =>
    rw [gt_iff_lt, UInt64.lt_iff_toNat_lt] at hle
    obtain ⟨r, hr, -, hless, heq⟩ := powModP_spec (a := a) (by omega) b.toNat_lt hb
    refine ⟨r, hr, heq, ?_⟩
    intro ha
    have := mt UInt64.toNat_inj.mp ha
    exact hless (by omega)

theorem word_eq (x0 x1 x2 x3 : UInt8) : word x0 x1 x2 x3 = getUint32 x3 x2 x1 x0 := by
  unfold word getUint32
  rw [UInt32.or_comm _ (x3.toUInt32 <<< 24), UInt32.or_comm _ (x2.toUInt32 <<< 16),
    UInt32.or_comm x0.toUInt32, UInt32.or_assoc (x3.toUInt32 <<< 24 ||| x2.toUInt32 <<< 16),
    UInt32.or_assoc (x3.toUInt32 <<< 24)]

theorem toNat_qword (x : UInt32 × UInt32) : (qword x).toNat = x.1.toNat + x.2.toNat * 2 ^ 32 := by
  have h1 := x.1.toNat_lt
  have h2 := x.2.toNat_lt
  unfold qword
  rw [UInt64.toNat_or, UInt64.toNat_shiftLeft, UInt32.toNat_toUInt64, UInt32.toNat_toUInt64,
    Nat.or_comm]
  change x.2.toNat <<< 32 % 2 ^ 64 ||| x.1.toNat = _
  rw [Nat.mod_eq_of_lt (by rw [Nat.shiftLeft_eq]; omega), ← Nat.shiftLeft_add_eq_or_of_lt h1,
    Nat.shiftLeft_eq, Nat.add_comm]

theorem length_push64 (r : UInt64) : (push64 r).length = 8 := rfl

theorem toNat_byte (k : Nat) (r : UInt64) {s : UInt64} (hs : s.toNat = k) (hk : k < 64)
    : (r >>> s).toUInt8.toNat = r.toNat / 2 ^ k % 256 := by
  rw [UInt64.toNat_toUInt8, UInt64.toNat_shiftRight, hs, Nat.mod_eq_of_lt hk,
    Nat.shiftRight_eq_div_pow]

theorem qword_word (x0 x1 x2 x3 x4 x5 x6 x7 : UInt8)
    : (qword (word x0 x1 x2 x3, word x4 x5 x6 x7)).toNat
        = x0.toNat + x1.toNat * 2 ^ 8 + x2.toNat * 2 ^ 16 + x3.toNat * 2 ^ 24 + x4.toNat * 2 ^ 32
          + x5.toNat * 2 ^ 40 + x6.toNat * 2 ^ 48 + x7.toNat * 2 ^ 56 := by
  rw [toNat_qword, word_eq, word_eq, toNat_getUint32, toNat_getUint32]
  omega

theorem read64_push64 (r : UInt64) : ∃ x, read64 (push64 r) = some x ∧ qword x = r := by
  refine ⟨_, rfl, ?_⟩
  have hr := r.toNat_lt
  have h0 : r.toUInt8.toNat = r.toNat % 256 := UInt64.toNat_toUInt8 r
  have h1 := toNat_byte (s := 8) 8 r rfl (by decide)
  have h2 := toNat_byte (s := 16) 16 r rfl (by decide)
  have h3 := toNat_byte (s := 24) 24 r rfl (by decide)
  have h4 := toNat_byte (s := 32) 32 r rfl (by decide)
  have h5 := toNat_byte (s := 40) 40 r rfl (by decide)
  have h6 := toNat_byte (s := 48) 48 r rfl (by decide)
  have h7 := toNat_byte (s := 56) 56 r rfl (by decide)
  rw [← UInt64.toNat_inj, qword_word, h0, h1, h2, h3, h4, h5, h6, h7]
  omega

def IsKey (x : Bytes) : Prop := x.length = 8 ∧ LittleEndian.number x ≠ 0

theorem read64_spec {x : Bytes} (h : x.length = 8)
    : ∃ p, read64 x = some p ∧ (qword p).toNat = LittleEndian.number x := by
  match x, h with
  | [x0, x1, x2, x3, x4, x5, x6, x7], _ =>
    refine ⟨_, rfl, ?_⟩
    rw [qword_word]
    simp only [LittleEndian.number]
    omega

theorem number_push64 (r : UInt64) : LittleEndian.number (push64 r) = r.toNat := by
  obtain ⟨p, hp, hnumber⟩ := read64_spec (length_push64 r)
  obtain ⟨q, hq, rfl⟩ := read64_push64 r
  rw [hp, Option.some.injEq] at hq
  rw [← hnumber, hq]

theorem isKey_iff (x : Bytes) : IsKey x ↔ ∃ p, read64 x = some p ∧ qword p ≠ 0 := by
  constructor
  . rintro ⟨hlen, hne⟩
    obtain ⟨p, hp, hnumber⟩ := read64_spec hlen
    refine ⟨p, hp, ?_⟩
    intro hzero
    rw [← hnumber, hzero] at hne
    exact hne rfl
  . rintro ⟨p, hp, hne⟩
    have hlen : x.length = 8 := by
      have := read64_isSome x
      rw [hp] at this
      simpa using this
    obtain ⟨q, hq, hnumber⟩ := read64_spec hlen
    rw [hp, Option.some.injEq] at hq
    refine ⟨hlen, ?_⟩
    rw [← hnumber, ← hq]
    intro hzero
    exact hne (UInt64.toNat_inj.mp hzero)

theorem dhexchange_spec {x : Bytes} (h : IsKey x)
    : ∃ e, dhexchange x = some e ∧ e.length = 8
        ∧ LittleEndian.number e = 5 ^ LittleEndian.number x % primeP.toNat := by
  obtain ⟨p, hp, hnumber⟩ := read64_spec h.1
  obtain ⟨q, hq, hne⟩ := (isKey_iff x).mp h
  rw [hp, Option.some.injEq] at hq
  subst hq
  obtain ⟨r, hr, hpow, hlt⟩ := powmodp_spec generatorG hne
  refine ⟨push64 r, ?_, length_push64 r, ?_⟩
  . rw [dhexchange, hp]
    simp only [if_neg hne, hr, Option.map_some]
  . rw [number_push64, ← hnumber, ← Nat.mod_eq_of_lt (hlt (by decide)), hpow]
    rfl

theorem dhsecret_spec {x y : Bytes} (hx : IsKey x) (hy : IsKey y)
    (hP : LittleEndian.number x ≠ primeP.toNat)
    : ∃ secret, dhsecret x y = some secret ∧ secret.length = 8
        ∧ LittleEndian.number secret
          = LittleEndian.number x ^ LittleEndian.number y % primeP.toNat := by
  obtain ⟨p, hp, hpnumber⟩ := read64_spec hx.1
  obtain ⟨p', hp', hpne⟩ := (isKey_iff x).mp hx
  obtain ⟨q, hq, hqnumber⟩ := read64_spec hy.1
  obtain ⟨q', hq', hqne⟩ := (isKey_iff y).mp hy
  rw [hp, Option.some.injEq] at hp'
  rw [hq, Option.some.injEq] at hq'
  subst hp' hq'
  obtain ⟨r, hr, hpow, hlt⟩ := powmodp_spec (qword p) hqne
  refine ⟨push64 r, ?_, length_push64 r, ?_⟩
  . rw [dhsecret, hp, hq]
    simp only [hpne, hqne, or_self, if_false, hr, Option.map_some]
  . have hless := hlt (by rintro heq; rw [heq] at hpnumber; exact hP hpnumber.symm)
    rw [number_push64, ← hpnumber, ← hqnumber, ← Nat.mod_eq_of_lt hless, hpow]

theorem isKey_of_power {e : Bytes} {n : Nat} (hlen : e.length = 8)
    (he : LittleEndian.number e = 5 ^ n % primeP.toNat)
    : IsKey e ∧ LittleEndian.number e < primeP.toNat := by
  have hcoprime : Nat.Coprime primeP.toNat (5 ^ n) := by
    apply Nat.Coprime.pow_right
    decide
  refine ⟨⟨hlen, ?_⟩, ?_⟩
  . intro hzero
    rw [hzero, eq_comm, ← Nat.dvd_iff_mod_eq_zero] at he
    have hone := Nat.Coprime.eq_one_of_dvd hcoprime he
    rw [toNat_primeP] at hone
    omega
  . rw [he]
    exact Nat.mod_lt _ (by decide)

theorem dh_agree {x y : Bytes} (hx : IsKey x) (hy : IsKey y)
    : ∃ e e' secret, dhexchange x = some e ∧ dhexchange y = some e'
        ∧ dhsecret e' x = some secret ∧ dhsecret e y = some secret
        ∧ e.length = 8 ∧ e'.length = 8 ∧ secret.length = 8
        ∧ LittleEndian.number secret
          = 5 ^ (LittleEndian.number x * LittleEndian.number y) % primeP.toNat := by
  obtain ⟨e, he, hlen, hnumber⟩ := dhexchange_spec hx
  obtain ⟨e', he', hlen', hnumber'⟩ := dhexchange_spec hy
  obtain ⟨hkey, hlt⟩ := isKey_of_power hlen hnumber
  obtain ⟨hkey', hlt'⟩ := isKey_of_power hlen' hnumber'
  obtain ⟨secret, hsecret, hslen, hsnumber⟩ := dhsecret_spec hkey' hx (Nat.ne_of_lt hlt')
  obtain ⟨secret', hsecret', hslen', hsnumber'⟩ := dhsecret_spec hkey hy (Nat.ne_of_lt hlt)
  rw [hnumber, ← Nat.pow_mod, ← Nat.pow_mul] at hsnumber'
  rw [hnumber', ← Nat.pow_mod, ← Nat.pow_mul, Nat.mul_comm] at hsnumber
  have hsame : secret = secret' :=
    LittleEndian.number_inj (hslen.trans hslen'.symm) (hsnumber.trans hsnumber'.symm)
  exact ⟨e, e', secret, he, he', hsecret, hsame ▸ hsecret', hlen, hlen', hslen, hsnumber⟩

theorem isKey_of_dhexchange {x e : Bytes} (h : dhexchange x = some e) : IsKey x := by
  rw [isKey_iff]
  unfold dhexchange at h
  cases hp : read64 x with
  | none =>
    rw [hp] at h
    cases h
  | some p =>
    refine ⟨p, rfl, ?_⟩
    intro hzero
    rw [hp] at h
    simp only [hzero, if_true] at h
    cases h

theorem dh_agree_iff (x y : Bytes)
    : (∃ e e' secret, dhexchange x = some e ∧ dhexchange y = some e'
        ∧ dhsecret e' x = some secret ∧ dhsecret e y = some secret ∧ secret.length = 8
        ∧ LittleEndian.number secret
          = 5 ^ (LittleEndian.number x * LittleEndian.number y) % primeP.toNat)
        ↔
      IsKey x ∧ IsKey y := by
  constructor
  . rintro ⟨e, e', -, he, he', -⟩
    exact ⟨isKey_of_dhexchange he, isKey_of_dhexchange he'⟩
  . rintro ⟨hx, hy⟩
    obtain ⟨e, e', secret, he, he', hsecret, hsecret', -, -, hlen, hnumber⟩ := dh_agree hx hy
    exact ⟨e, e', secret, he, he', hsecret, hsecret', hlen, hnumber⟩

theorem isKey_randomkey (r : Random8) : IsKey (randomkey r) := by
  refine ⟨rfl, ?_⟩
  unfold randomkey
  dsimp only
  split
  . have hbit : (r.b0 ||| 1).toNat % 2 = 1 := by
      rw [UInt8.toNat_or]
      exact Nat.or_mod_two_eq_one.mpr (.inr rfl)
    rw [LittleEndian.number]
    omega
  . next hne =>
    intro hzero
    have hzeros : [r.b0, r.b1, r.b2, r.b3, r.b4, r.b5, r.b6, r.b7] = List.replicate 8 0 :=
      LittleEndian.number_inj rfl hzero
    simp only [List.replicate, List.cons.injEq, and_true] at hzeros
    obtain ⟨h0, h1, h2, h3, h4, h5, h6, h7⟩ := hzeros
    rw [h0, h1, h2, h3, h4, h5, h6, h7] at hne
    exact hne rfl

end Crypt
