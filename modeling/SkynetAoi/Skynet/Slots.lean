import SkynetAoi.Skynet.Handle
import Mathlib.Data.Nat.Bitwise
import Mathlib.Data.List.Pairwise

/-!
This module contains the table of the contexts: which handles `skynet_handle_register` tries, when it
finds one, and what becomes of the table when it grows.
-/

namespace SkynetHandle

theorem hash_eq {slot : List (Option Nat)} {k : Nat} (hk : slot.length = 2 ^ k) (h : UInt32)
    : hash slot h = h.toNat % 2 ^ k := by
  rw [hash, hk, Nat.and_two_pow_sub_one_eq_mod]

theorem slotAt_eq_some_iff {slot : List (Option Nat)} {i ctx : Nat}
    : slotAt slot i = some ctx ↔ slot[i]? = some (some ctx) := by
  rw [slotAt, Option.join_eq_some_iff]

theorem slotAt_eq_none_iff {slot : List (Option Nat)} {i : Nat} (hi : i < slot.length)
    : slotAt slot i = none ↔ slot[i]? = some none := by
  rw [slotAt, List.getElem?_eq_getElem hi]
  simp

theorem slotAt_set {slot : List (Option Nat)} {i : Nat} (hi : i < slot.length) (c : Option Nat) (j : Nat)
    : slotAt (slot.set i c) j = if i = j then c else slotAt slot j := by
  rw [slotAt, List.getElem?_set]
  split
  . rfl
  . rfl

theorem mem_iff_slotAt {slot : List (Option Nat)} {ctx : Nat}
    : some ctx ∈ slot ↔ ∃ i, slotAt slot i = some ctx := by
  simp only [slotAt_eq_some_iff]
  exact List.mem_iff_getElem?

def tried (x i : Nat) : Nat := (x - 1 + i) % (2 ^ 24 - 1) + 1

theorem tried_lt (x i : Nat) : tried x i < 2 ^ 24 := by
  have : (x - 1 + i) % (2 ^ 24 - 1) < 2 ^ 24 - 1 := Nat.mod_lt _ (by decide)
  unfold tried
  omega

theorem tried_succ {x : Nat} (hx : 0 < x) (hle : x ≤ 2 ^ 24) (i : Nat)
    : tried (tried x 0 + 1) i = tried x (i + 1) := by
  unfold tried
  omega

theorem toNat_first {x : UInt32} (hx : 0 < x.toNat) (hle : x.toNat ≤ 2 ^ 24)
    : (if x > handleMask then 1 else x).toNat = tried x.toNat 0 := by
  have hmask : handleMask.toNat = 2 ^ 24 - 1 := rfl
  unfold tried
  split
  . next hgt =>
    rw [gt_iff_lt, UInt32.lt_iff_toNat_lt, hmask] at hgt
    change 1 = _
    omega
  . next hgt =>
    rw [gt_iff_lt, UInt32.lt_iff_toNat_lt, hmask] at hgt
    omega

section

variable {slot : List (Option Nat)} {k : Nat} (hk : slot.length = 2 ^ k)

include hk

theorem findFree_cases (rounds : Nat) {x : UInt32} (hx : 0 < x.toNat) (hle : x.toNat ≤ 2 ^ 24)
    : (findFree slot rounds x = none
          ∧ ∀ i < rounds, slotAt slot (tried x.toNat i % 2 ^ k) ≠ none)
        ∨ ∃ h i, findFree slot rounds x = some h ∧ i < rounds ∧ h.toNat = tried x.toNat i
          ∧ slotAt slot (hash slot h) = none := by
  induction rounds generalizing x with
  | zero => exact .inl ⟨rfl, by simp⟩
  | succ rounds ih =>
    rw [findFree]
    have hfirst := toNat_first hx hle
    generalize (if x > handleMask then 1 else x) = y at hfirst ⊢
    have hslot : hash slot y = tried x.toNat 0 % 2 ^ k := by rw [hash_eq hk, hfirst]
    split
    . next hfree =>
      exact .inr ⟨y, 0, rfl, Nat.succ_pos _, hfirst, by simpa using hfree⟩
    . next htaken =>
      have hlt := tried_lt x.toNat 0
      have hadd : (y + 1).toNat = tried x.toNat 0 + 1 := by
        rw [UInt32.toNat_add, hfirst]
        change (tried x.toNat 0 + 1) % 2 ^ 32 = _
        omega
      have hnext := ih (x := y + 1) (by omega) (by omega)
      rw [hadd] at hnext
      simp only [tried_succ hx hle] at hnext
      rcases hnext with ⟨hnone, hall⟩ | ⟨h, i, hsome, hi, htried, hfree⟩
      . refine .inl ⟨hnone, ?_⟩
        intro i hi
        cases i with
        | zero =>
          rw [← hslot]
          simpa using htaken
        | succ i => exact hall i (by omega)
      . exact .inr ⟨h, i + 1, hsome, by omega, htried, hfree⟩

end

theorem exists_add_mod {n : Nat} (c : Nat) {j : Nat} (hj : j < n) : ∃ i < n, (c + i) % n = j := by
  have hc := Nat.div_add_mod c n
  have hr := Nat.mod_lt c (by omega : 0 < n)
  by_cases hle : c % n ≤ j
  . refine ⟨j - c % n, by omega, ?_⟩
    rw [show c + (j - c % n) = n * (c / n) + j by omega, Nat.mul_add_mod, Nat.mod_eq_of_lt hj]
  . refine ⟨j + n - c % n, by omega, ?_⟩
    rw [show c + (j + n - c % n) = n * (c / n + 1) + j by rw [Nat.mul_succ]; omega, Nat.mul_add_mod,
      Nat.mod_eq_of_lt hj]

section

variable {x k : Nat}

theorem exists_tried (hk : k ≤ 24) {j : Nat} (hj : 0 < j) (hlt : j < 2 ^ k)
    : ∃ i < 2 ^ k, tried x i % 2 ^ k = j := by
  obtain ⟨m, hm⟩ : 2 ^ k ∣ 2 ^ 24 := Nat.pow_dvd_pow 2 hk
  have hlow : 2 ^ k ≤ 2 ^ 24 := Nat.pow_le_pow_right (by decide) hk
  generalize 2 ^ k = n at *
  have hmod : ∀ i, tried x i = ((x - 1) % (2 ^ 24 - 1) + i) % (2 ^ 24 - 1) + 1 := by
    intro i
    unfold tried
    omega
  have ha : (x - 1) % (2 ^ 24 - 1) < 2 ^ 24 - 1 := Nat.mod_lt _ (by decide)
  generalize (x - 1) % (2 ^ 24 - 1) = a at *
  obtain ⟨i, hi, heq⟩ := exists_add_mod (a + 1) hlt
  by_cases hend : a + i < 2 ^ 24 - 1
  . refine ⟨i, hi, ?_⟩
    rw [hmod, Nat.mod_eq_of_lt hend, show a + i + 1 = a + 1 + i by omega, heq]
  . -- The place `j` is not 0, so the handle before has already gone past the end.
    have hne : a + i ≠ 2 ^ 24 - 1 := by
      intro hsame
      rw [show a + 1 + i = n * m by omega, Nat.mul_mod_right] at heq
      omega
    refine ⟨i - 1, by omega, ?_⟩
    have hsub : (a + (i - 1)) % (2 ^ 24 - 1) + 1 + n * m = a + 1 + i := by
      rw [Nat.mod_eq_sub_mod (by omega), Nat.mod_eq_of_lt (by omega)]
      omega
    rw [hmod, ← Nat.add_mul_mod_self_left _ n m, hsub, heq]

theorem tried_mod_ne_zero (hx : 0 < x) (hk : k ≤ 23) (hstart : x < 2 ^ 24)
    (hwrap : 2 ^ 24 < x + 2 ^ k) {i : Nat} (hi : i < 2 ^ k) : tried x i % 2 ^ k ≠ 0 := by
  obtain ⟨m, hm⟩ : 2 ^ k ∣ 2 ^ 24 := Nat.pow_dvd_pow 2 (by omega)
  have hlow : 2 ^ k ≤ 2 ^ 23 := Nat.pow_le_pow_right (by decide) hk
  generalize 2 ^ k = n at *
  have hdvd : n ∣ 2 ^ 24 := ⟨m, hm⟩
  intro hzero
  have htried := Nat.dvd_of_mod_eq_zero hzero
  by_cases hend : x - 1 + i < 2 ^ 24 - 1
  . have hval : tried x i = x + i := by
      rw [tried, Nat.mod_eq_of_lt hend]
      omega
    have hrest := Nat.le_of_dvd (by omega) (Nat.dvd_sub hdvd htried)
    omega
  . have hval : tried x i = x + i - (2 ^ 24 - 1) := by
      rw [tried, Nat.mod_eq_sub_mod (by omega), Nat.mod_eq_of_lt (by omega)]
      omega
    have := Nat.le_of_dvd (by omega) htried
    omega

theorem exists_tried_zero (hx : 0 < x) (hle : x ≤ 2 ^ 24) (hk : k ≤ 23)
    (h : ¬ (x < 2 ^ 24 ∧ 2 ^ 24 < x + 2 ^ k))
    : ∃ i < 2 ^ k, tried x i % 2 ^ k = 0 := by
  have hlow : 2 ^ k ≤ 2 ^ 23 := Nat.pow_le_pow_right (by decide) hk
  have hpos : 0 < 2 ^ k := Nat.two_pow_pos k
  generalize 2 ^ k = n at *
  by_cases hlast : x = 2 ^ 24
  . refine ⟨n - 1, by omega, ?_⟩
    have hval : tried x (n - 1) = n := by
      unfold tried
      omega
    rw [hval, Nat.mod_self]
  . obtain ⟨i, hi, heq⟩ := exists_add_mod x hpos
    refine ⟨i, hi, ?_⟩
    have hval : tried x i = x + i := by
      unfold tried
      omega
    rw [hval, heq]

end

/--
No handle that is tried has a free place: all places but 0 are taken, and 0 is never tried, as the table
is as big as it can be or as the handles start again at 1 on the way to it.
-/
def Stuck (slot : List (Option Nat)) (x : UInt32) : Prop :=
  (∀ j, 0 < j → j < slot.length → slotAt slot j ≠ none)
    ∧ (slot.length = 2 ^ 24
      ∨ slotAt slot 0 = none ∧ x.toNat < 2 ^ 24 ∧ 2 ^ 24 < x.toNat + slot.length)

section

variable {slot : List (Option Nat)} {k : Nat} (hk : slot.length = 2 ^ k) {x : UInt32}
  (hx : 0 < x.toNat) (hle : x.toNat ≤ 2 ^ 24)

include hk hx hle

theorem taken_of_findFree (hlow : k ≤ 24) (h : findFree slot slot.length x = none) {j : Nat}
    (hj : 0 < j) (hlt : j < slot.length) : slotAt slot j ≠ none := by
  rcases findFree_cases hk slot.length hx hle with ⟨-, hall⟩ | ⟨h', -, hsome, -⟩
  . rw [hk] at hlt hall
    obtain ⟨i, hi, heq⟩ := exists_tried (x := x.toNat) hlow hj hlt
    rw [← heq]
    exact hall i hi
  . simp [h] at hsome

theorem full_of_findFree (hlow : k ≤ 24) (hstuck : ¬ Stuck slot x)
    (h : findFree slot slot.length x = none)
    : k ≤ 23 ∧ ∀ j < slot.length, slotAt slot j ≠ none := by
  have hrest : ∀ j, 0 < j → j < slot.length → slotAt slot j ≠ none :=
    fun j hj hlt => taken_of_findFree hk hx hle hlow h hj hlt
  have hmost : k ≤ 23 := by
    by_contra hmost
    have htop : k = 24 := by omega
    exact hstuck ⟨hrest, .inl (by rw [hk, htop])⟩
  refine ⟨hmost, ?_⟩
  intro j hlt
  rcases Nat.eq_zero_or_pos j with rfl | hj
  . intro hfree
    have hwrap : ¬ (x.toNat < 2 ^ 24 ∧ 2 ^ 24 < x.toNat + 2 ^ k) := by
      rw [← hk]
      exact fun hwrap => hstuck ⟨hrest, .inr ⟨hfree, hwrap⟩⟩
    obtain ⟨i, hi, heq⟩ := exists_tried_zero hx hle hmost hwrap
    rcases findFree_cases hk slot.length hx hle with ⟨-, hall⟩ | ⟨h', -, hsome, -⟩
    . rw [hk] at hall
      have := hall i hi
      rw [heq] at this
      exact this hfree
    . simp [h] at hsome
  . exact hrest j hj hlt

theorem findFree_of_stuck (hlow : k ≤ 24) (hstuck : Stuck slot x)
    : findFree slot slot.length x = none := by
  rcases findFree_cases hk slot.length hx hle with ⟨hnone, -⟩ | ⟨h, i, -, hi, htried, hfree⟩
  . exact hnone
  . exfalso
    rw [hash_eq hk, htried] at hfree
    have hmod := Nat.mod_lt (tried x.toNat i) (Nat.two_pow_pos k)
    rcases Nat.eq_zero_or_pos (tried x.toNat i % 2 ^ k) with hzero | hpos
    . rcases hstuck.2 with htop | ⟨-, hstart, hwrap⟩
      . -- As big as it can be, the table has a place for each handle, and 0 is no handle.
        rw [← hk, htop, Nat.mod_eq_of_lt (tried_lt _ _)] at hzero
        simp [tried] at hzero
      . by_cases hmost : k ≤ 23
        . rw [hk] at hi hwrap
          exact tried_mod_ne_zero hx hmost hstart hwrap hi hzero
        . have htop : k = 24 := by omega
          rw [htop, Nat.mod_eq_of_lt (tried_lt _ _)] at hzero
          simp [tried] at hzero
    . rw [← hk] at hmod hfree hpos
      exact hstuck.1 _ hpos hmod hfree

end

theorem moveAll_of_hole (handle : Nat → UInt32) {slot : List (Option Nat)} (h : none ∈ slot)
    (newSlot : List (Option Nat)) : moveAll handle slot newSlot = none := by
  induction slot generalizing newSlot with
  | nil => simp at h
  | cons c slot ih =>
    cases c with
    | none => rfl
    | some ctx =>
      rw [moveAll]
      split
      . rfl
      . exact ih (by simpa using h) _

theorem registerLoop_of_stuck (handle : Nat → UInt32) {s : HandleStorage} {k : Nat}
    (hk : s.slot.length = 2 ^ k) (hlow : k ≤ 24) (hx : 0 < s.handleIndex.toNat)
    (hle : s.handleIndex.toNat ≤ 2 ^ 24) (hstuck : Stuck s.slot s.handleIndex) (fuel ctx : Nat)
    : registerLoop handle fuel s ctx = none := by
  cases fuel with
  | zero => rfl
  | succ fuel =>
    rw [registerLoop, findFree_of_stuck hk hx hle hlow hstuck]
    dsimp only
    split
    . next hroom =>
      rcases hstuck.2 with htop | ⟨hfree, -⟩
      . rw [htop] at hroom
        exact absurd hroom (by decide)
      . have hpos : 0 < s.slot.length := by
          rw [hk]
          exact Nat.two_pow_pos k
        rw [slotAt_eq_none_iff hpos] at hfree
        rw [moveAll_of_hole handle (List.mem_of_getElem? hfree)]
    . rfl

def Placed (g : Nat → UInt32) (slot : List (Option Nat)) : Prop :=
  ∀ i ctx, slotAt slot i = some ctx → hash slot (g ctx) = i

theorem hash_set (slot : List (Option Nat)) (i : Nat) (c : Option Nat) (h : UInt32)
    : hash (slot.set i c) h = hash slot h := by
  rw [hash, hash, List.length_set]

theorem hash_lt {slot : List (Option Nat)} {k : Nat} (hk : slot.length = 2 ^ k) (h : UInt32)
    : hash slot h < slot.length := by
  rw [hash_eq hk, hk]
  exact Nat.mod_lt _ (Nat.two_pow_pos k)

theorem mem_set_free {slot : List (Option Nat)} {i ctx : Nat} (hi : i < slot.length)
    (hfree : slotAt slot i = none) (c : Nat)
    : some c ∈ slot.set i (some ctx) ↔ c = ctx ∨ some c ∈ slot := by
  simp only [mem_iff_slotAt, slotAt_set hi]
  constructor
  . rintro ⟨j, hj⟩
    split at hj
    . exact .inl (by simpa using hj.symm)
    . exact .inr ⟨j, hj⟩
  . rintro (rfl | ⟨j, hj⟩)
    . exact ⟨i, by simp⟩
    . refine ⟨j, ?_⟩
      rw [if_neg]
      . exact hj
      . rintro rfl
        rw [hfree] at hj
        cases hj

namespace Placed

variable {g : Nat → UInt32} {slot : List (Option Nat)}

theorem inj (h : Placed g slot) {c d : Nat} (hc : some c ∈ slot) (hd : some d ∈ slot)
    (heq : hash slot (g c) = hash slot (g d)) : c = d := by
  obtain ⟨i, hi⟩ := mem_iff_slotAt.mp hc
  obtain ⟨j, hj⟩ := mem_iff_slotAt.mp hd
  rw [h i c hi, h j d hj] at heq
  subst heq
  rw [hi] at hj
  exact Option.some.inj hj

theorem congr (h : Placed g slot) {f : Nat → UInt32} (hf : ∀ c, some c ∈ slot → f c = g c)
    : Placed f slot := by
  intro i c hi
  rw [hf c (mem_iff_slotAt.mpr ⟨i, hi⟩)]
  exact h i c hi

theorem set (h : Placed g slot) {i : Nat} (hi : i < slot.length) {ctx : Nat}
    (hctx : hash slot (g ctx) = i) : Placed g (slot.set i (some ctx)) := by
  intro j c hj
  rw [slotAt_set hi] at hj
  rw [hash_set]
  split at hj
  . next hij =>
    rw [Option.some.injEq] at hj
    rw [← hj, ← hij, hctx]
  . exact h j c hj

theorem moveAll {slot newSlot : List (Option Nat)} {k : Nat} (hk : newSlot.length = 2 ^ k)
    (h : Placed g newSlot) (hfull : none ∉ slot)
    (hfree : ∀ c, some c ∈ slot → slotAt newSlot (hash newSlot (g c)) = none)
    (hdiff : slot.Pairwise fun a b => ∀ c d, a = some c → b = some d →
      hash newSlot (g c) ≠ hash newSlot (g d))
    : ∃ newSlot', moveAll g slot newSlot = some newSlot' ∧ newSlot'.length = 2 ^ k
        ∧ Placed g newSlot' ∧ ∀ c, some c ∈ newSlot' ↔ some c ∈ newSlot ∨ some c ∈ slot := by
  induction slot generalizing newSlot with
  | nil => exact ⟨newSlot, rfl, hk, h, by simp⟩
  | cons c slot ih =>
    cases c with
    | none => simp at hfull
    | some ctx =>
      have hctx := hfree ctx (by simp)
      have hlt := hash_lt hk (g ctx)
      rw [List.pairwise_cons] at hdiff
      have hplaced := h.set hlt rfl
      have hmem : ∀ c, _ ↔ c = ctx ∨ _ := mem_set_free hlt hctx
      generalize hset : newSlot.set (hash newSlot (g ctx)) (some ctx) = slot₁ at *
      have hlen : slot₁.length = newSlot.length := by rw [← hset, List.length_set]
      have hhash : ∀ h, hash slot₁ h = hash newSlot h := by
        intro h
        rw [hash, hash, hlen]
      obtain ⟨newSlot', hmove, hk', hplaced', hmem'⟩ := ih (hlen.trans hk) hplaced (by simp_all)
        (by
          intro d hd
          rw [hhash, ← hset, slotAt_set hlt, if_neg (hdiff.1 _ hd ctx d rfl rfl)]
          exact hfree d (by simp [hd]))
        (by
          simp only [hhash]
          exact hdiff.2)
      refine ⟨newSlot', ?_, hk', hplaced', ?_⟩
      . rw [SkynetHandle.moveAll, hctx]
        simp [hset, hmove]
      . intro d
        rw [hmem', hmem, List.mem_cons, Option.some.injEq]
        tauto

-- A context moves to the place it had or to the one as many places behind as the table was long, so
-- one of both is free.
theorem grow (h : Placed g slot) {k : Nat} (hk : slot.length = 2 ^ k) (hlow : 2 ≤ k)
    (hfull : ∀ j < slot.length, slotAt slot j ≠ none) {handle : Nat → UInt32}
    (hhandle : ∀ c, some c ∈ slot → handle c = g c)
    : ∃ slot', SkynetHandle.moveAll handle slot (List.replicate (slot.length * 2) none) = some slot'
        ∧ slot'.length = 2 ^ (k + 1) ∧ Placed g slot' ∧ (∀ c, some c ∈ slot' ↔ some c ∈ slot)
        ∧ ∃ j, 0 < j ∧ j < slot'.length ∧ slotAt slot' j = none := by
  have hplaced := h.congr hhandle
  have hlen : (List.replicate (slot.length * 2) (none : Option Nat)).length = 2 ^ (k + 1) := by
    rw [List.length_replicate, hk, Nat.pow_succ]
  have hempty : ∀ i, slotAt (List.replicate (slot.length * 2) none) i = none := by
    intro i
    unfold slotAt
    rw [List.getElem?_replicate]
    split <;> rfl
  have hhash : ∀ c, hash (List.replicate (slot.length * 2) none) (handle c) % 2 ^ k
      = hash slot (handle c) := by
    intro c
    rw [hash_eq hlen, hash_eq hk, Nat.mod_mod_of_dvd _ (Nat.pow_dvd_pow 2 (Nat.le_succ k))]
  obtain ⟨slot', hmove, hk', hplaced', hmem⟩ := Placed.moveAll hlen
    (fun i c hi => by
      rw [hempty] at hi
      cases hi)
    (fun hnone => by
      obtain ⟨i, hi, heq⟩ := List.mem_iff_getElem.mp hnone
      exact hfull i hi ((slotAt_eq_none_iff hi).mpr (List.getElem?_eq_some_iff.mpr ⟨hi, heq⟩)))
    (fun c _ => hempty _)
    (by
      rw [List.pairwise_iff_getElem]
      intro i j hi hj hij c d hc hd heq
      have hci := hplaced i c (slotAt_eq_some_iff.mpr (List.getElem?_eq_some_iff.mpr ⟨hi, hc⟩))
      have hdj := hplaced j d (slotAt_eq_some_iff.mpr (List.getElem?_eq_some_iff.mpr ⟨hj, hd⟩))
      rw [← hhash, heq, hhash, hdj] at hci
      omega)
  have hsame : ∀ c, some c ∈ slot' ↔ some c ∈ slot := by
    intro c
    rw [hmem, mem_iff_slotAt]
    simp only [hempty, reduceCtorEq, exists_false, false_or]
  refine ⟨slot', hmove, hk', hplaced'.congr (fun c hc => (hhandle c ((hsame c).mp hc)).symm), hsame, ?_⟩
  by_contra hall
  have hfour : 2 ^ 2 ≤ 2 ^ k := Nat.pow_le_pow_right (by decide) hlow
  rw [Nat.pow_succ] at hk'
  have htaken : ∀ j, 0 < j → j < slot'.length → ∃ c, slotAt slot' j = some c := by
    intro j hj hlt
    rw [← Option.isSome_iff_exists, Option.isSome_iff_ne_none]
    exact fun hfree => hall ⟨j, hj, hlt, hfree⟩
  obtain ⟨c, hc⟩ := htaken 1 (by omega) (by omega)
  obtain ⟨d, hd⟩ := htaken (1 + 2 ^ k) (by omega) (by omega)
  have hcslot := (hsame c).mp (mem_iff_slotAt.mpr ⟨_, hc⟩)
  have hdslot := (hsame d).mp (mem_iff_slotAt.mpr ⟨_, hd⟩)
  have hcplace := hplaced' 1 c hc
  have hdplace := hplaced' (1 + 2 ^ k) d hd
  have hcd : c = d := by
    apply hplaced.inj hcslot hdslot
    have hold : ∀ c, hash slot (handle c) = hash slot' (handle c) % 2 ^ k := by
      intro c
      rw [← hhash c, hash_eq hlen, hash_eq (k := k + 1) (by rw [hk', Nat.pow_succ])]
    rw [hold, hold, hcplace, hdplace, Nat.add_mod_right]
  subst hcd
  rw [hcplace] at hdplace
  omega

end Placed

structure Registered (g : Nat → UInt32) (s : HandleStorage) (ctx : Nat) (h : UInt32)
    (s' : HandleStorage) : Prop where
  pos : 0 < h.toNat
  lt : h.toNat < 2 ^ 24
  index : s'.handleIndex = h + 1
  harbor : s'.harbor = s.harbor
  name : s'.name = s.name
  size : ∃ k, 2 ≤ k ∧ k ≤ 24 ∧ s'.slot.length = 2 ^ k
  placed : Placed (Function.update g ctx (h ||| s.harbor)) s'.slot
  mem : ∀ c, some c ∈ s'.slot ↔ c = ctx ∨ some c ∈ s.slot

theorem hash_or {slot : List (Option Nat)} {k : Nat} (hk : slot.length = 2 ^ k) (hlow : k ≤ 24)
    (h : UInt32) {harbor : UInt32} (hharbor : harbor.toNat % 2 ^ 24 = 0)
    : hash slot (h ||| harbor) = hash slot h := by
  rw [hash_eq hk, hash_eq hk, UInt32.toNat_or, Nat.or_mod_two_pow,
    ← Nat.mod_mod_of_dvd harbor.toNat (Nat.pow_dvd_pow 2 hlow), hharbor, Nat.zero_mod, Nat.or_zero]

section

variable {g : Nat → UInt32} {s : HandleStorage} {k : Nat} (hk : s.slot.length = 2 ^ k) (hlow : 2 ≤ k)
  (hhigh : k ≤ 24) (hplaced : Placed g s.slot) {ctx : Nat} (hctx : some ctx ∉ s.slot)
  (hharbor : s.harbor.toNat % 2 ^ 24 = 0)

include hk hlow hhigh hplaced hctx hharbor

theorem registered_of_free {h : UInt32} (hpos : 0 < h.toNat) (hlt : h.toNat < 2 ^ 24)
    (hfree : slotAt s.slot (hash s.slot h) = none)
    : Registered g s ctx h
        { s with slot := s.slot.set (hash s.slot h) (some ctx), handleIndex := h + 1 } where
  pos := hpos
  lt := hlt
  index := rfl
  harbor := rfl
  name := rfl
  size := ⟨k, hlow, hhigh, by rw [List.length_set, hk]⟩
  placed := by
    have hkeep : ∀ c, some c ∈ s.slot → Function.update g ctx (h ||| s.harbor) c = g c := by
      intro c hc
      rw [Function.update_of_ne]
      rintro rfl
      exact hctx hc
    apply (hplaced.congr hkeep).set (hash_lt hk h)
    rw [Function.update_self, hash_or hk hhigh h hharbor]
  mem := mem_set_free (hash_lt hk h) hfree

theorem handleRegister_of_not_stuck {handle : Nat → UInt32} (hx : 0 < s.handleIndex.toNat)
    (hle : s.handleIndex.toNat ≤ 2 ^ 24) (hstuck : ¬ Stuck s.slot s.handleIndex)
    (hgrow : findFree s.slot s.slot.length s.handleIndex = none →
      ∀ c, some c ∈ s.slot → handle c = g c)
    : ∃ h s', handleRegister handle s ctx = some (h ||| s.harbor, s') ∧ Registered g s ctx h s' := by
  unfold handleRegister
  rw [registerLoop]
  rcases findFree_cases hk s.slot.length hx hle with ⟨hnone, -⟩ | ⟨h, i, hsome, -, htried, hfree⟩
  . obtain ⟨hmost, hfull⟩ := full_of_findFree hk hx hle hhigh hstuck hnone
    obtain ⟨slot', hmove, hk', hplaced', hmem, j, hj, hjlt, hjfree⟩ :=
      hplaced.grow hk hlow hfull (hgrow hnone)
    have hroom : s.slot.length * 2 - 1 ≤ handleMask.toNat := by
      change _ ≤ 2 ^ 24 - 1
      have : 2 ^ k ≤ 2 ^ 23 := Nat.pow_le_pow_right (by decide) hmost
      omega
    rw [hnone]
    dsimp only
    rw [if_pos hroom, hmove]
    dsimp only
    rw [registerLoop]
    rcases findFree_cases hk' slot'.length hx hle with ⟨hnone', -⟩ | ⟨h, i, hsome, -, htried, hfree⟩
    . exact absurd hjfree (taken_of_findFree hk' hx hle (by omega) hnone' hj hjlt)
    . dsimp only
      rw [hsome]
      have hlt := tried_lt s.handleIndex.toNat i
      have hnew : Registered g _ ctx h _ := registered_of_free (s := { s with slot := slot' }) hk'
        (by omega) (by omega) hplaced' (by rwa [hmem]) hharbor (h := h) (by rw [htried]; simp [tried])
        (by omega) hfree
      exact ⟨h, _, rfl, ⟨hnew.pos, hnew.lt, rfl, rfl, rfl, hnew.size, hnew.placed, by
        simpa only [hmem] using hnew.mem⟩⟩
  . rw [hsome]
    have hlt := tried_lt s.handleIndex.toNat i
    exact ⟨h, _, rfl, registered_of_free hk hlow hhigh hplaced hctx hharbor
      (by rw [htried]; simp [tried]) (by omega) hfree⟩

end

end SkynetHandle
