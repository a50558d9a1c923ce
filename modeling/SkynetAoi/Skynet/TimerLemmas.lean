import SkynetAoi.Lib.Bits
import SkynetAoi.Lib.Wheel
import SkynetAoi.Skynet.Timer
import Mathlib.Tactic.IntervalCases

/-!
This module contains what the functions of the timer do to the slots of the wheel, in terms of a
clock and of deadlines that never wrap.
-/

namespace SkynetTimer

open Wheel (render carries)

def level (c x : Nat) : Nat := Wheel.level 256 64 4 c x

def place (c x : Nat) : Nat × Nat := Wheel.place 256 64 4 c x

def Timer.slot (T : Timer) (k : Nat × Nat) : List TimerNode :=
  match k with
  | (0, idx) => T.near idx
  | (level + 1, idx) => T.t level idx

@[simp]
theorem slot_linkNear (T : Timer) (idx : Nat) (node : TimerNode)
    : (T.linkNear idx node).slot
        = Function.update T.slot (0, idx) (T.slot (0, idx) ++ [node]) := by
  funext ⟨l, j⟩
  cases l with
  | zero =>
    by_cases hj : j = idx
    . subst hj
      simp [Timer.slot, Timer.linkNear]
    . simp [Timer.slot, Timer.linkNear, hj]
  | succ l => simp [Timer.slot, Timer.linkNear]

@[simp]
theorem slot_linkLevel (T : Timer) (level idx : Nat) (node : TimerNode)
    : (T.linkLevel level idx node).slot
        = Function.update T.slot (level + 1, idx) (T.slot (level + 1, idx) ++ [node]) := by
  funext ⟨l, j⟩
  cases l with
  | zero => simp [Timer.slot, Timer.linkLevel]
  | succ l =>
    by_cases hl : l = level
    . subst hl
      by_cases hj : j = idx
      . subst hj
        simp [Timer.slot, Timer.linkLevel]
      . simp [Timer.slot, Timer.linkLevel, hj]
    . simp [Timer.slot, Timer.linkLevel, hl]

theorem block_eq (i : Nat) : Wheel.block 256 64 i = 2 ^ (8 + 6 * i) := by
  rw [Wheel.block, Nat.pow_add, Nat.pow_mul]

theorem div_mod_eq_iff {k c x : Nat} (hk : k ≤ 26) (hle : c ≤ x) (hlt : x < c + 2 ^ 31)
    : x % 2 ^ 32 / 2 ^ k = c % 2 ^ 32 / 2 ^ k ↔ x / 2 ^ k = c / 2 ^ k := by
  have hsplit : (2 : Nat) ^ 32 = 2 ^ k * 2 ^ (32 - k) := by
    rw [← Nat.pow_add, Nat.add_sub_cancel' (by omega)]
  rw [hsplit, Nat.mod_mul_right_div_self, Nat.mod_mul_right_div_self]
  constructor
  . intro h
    apply Wheel.eq_of_mod_eq_of_lt h (Nat.div_le_div_right hle)
    have hhalf : c + 2 ^ 31 = c + 2 ^ k * 2 ^ (31 - k) := by
      rw [← Nat.pow_add, Nat.add_sub_cancel' (by omega)]
    calc x / 2 ^ k
        ≤ (c + 2 ^ 31) / 2 ^ k := Nat.div_le_div_right hlt.le
      _ = c / 2 ^ k + 2 ^ (31 - k) := by
        rw [hhalf, Nat.add_mul_div_left _ _ (Nat.two_pow_pos k)]
      _ < c / 2 ^ k + 2 ^ (32 - k) := by
        apply Nat.add_lt_add_left
        exact Nat.pow_lt_pow_right (by decide) (by omega)
  . intro h
    rw [h]

theorem or_mask_eq_iff {i c x : Nat} {mask : UInt32} (hi : i ≤ 3)
    (hmask : mask.toNat = 2 ^ (8 + 6 * i) - 1) (hle : c ≤ x) (hlt : x < c + 2 ^ 31)
    : UInt32.ofNat x ||| mask = UInt32.ofNat c ||| mask
        ↔
      x / Wheel.block 256 64 i = c / Wheel.block 256 64 i := by
  rw [UInt32.or_mask_eq_iff _ hmask, block_eq, UInt32.toNat_ofNat', UInt32.toNat_ofNat']
  exact div_mod_eq_iff (by omega) hle hlt

theorem findLevel_eq {c x : Nat} (hle : c ≤ x) (hlt : x < c + 2 ^ 31) {mask : UInt32}
    {i rounds : Nat} (hrounds : i + rounds = 3)
    (hmask : i < 3 → mask = 1 <<< UInt32.ofNat (8 + 6 * (i + 1)))
    (hlower : ∀ j ≤ i, x / Wheel.block 256 64 j ≠ c / Wheel.block 256 64 j)
    : level c x = findLevel (.ofNat x) (.ofNat c) mask i rounds + 1 := by
  induction rounds generalizing i mask with
  | zero =>
    rw [findLevel, level, Wheel.level_eq_iff]
    refine ⟨.inr (by omega), ?_⟩
    intro j hj
    exact ⟨hlower j (by omega), by omega⟩
  | succ rounds ih =>
    have hbits : (mask - 1).toNat = 2 ^ (8 + 6 * (i + 1)) - 1 := by
      rw [hmask (by omega)]
      have : i < 3 := by omega
      interval_cases i <;> rfl
    rw [findLevel]
    split
    . next heq =>
      rw [or_mask_eq_iff (by omega) hbits hle hlt] at heq
      rw [level, Wheel.level_eq_iff]
      refine ⟨.inl heq, ?_⟩
      intro j hj
      exact ⟨hlower j (by omega), by omega⟩
    . next hne =>
      rw [or_mask_eq_iff (by omega) hbits hle hlt] at hne
      apply ih
      . omega
      . intro hi
        rw [hmask (by omega)]
        have : i < 2 := by omega
        interval_cases i <;> rfl
      . intro j hj
        by_cases hji : j = i + 1
        . rwa [hji]
        . exact hlower j (by omega)

theorem shift_and_mask {x i : Nat} (hi : i ≤ 3)
    : ((UInt32.ofNat x >>> (timeNearShift + UInt32.ofNat i * timeLevelShift)) &&& timeLevelMask).toNat
        = x / Wheel.block 256 64 i % 64 := by
  have hshift : (timeNearShift + UInt32.ofNat i * timeLevelShift).toNat % 32 = 8 + 6 * i := by
    interval_cases i <;> rfl
  rw [UInt32.and_mask 6 _ rfl, UInt32.toNat_shiftRight, hshift, UInt32.toNat_ofNat', block_eq,
    Nat.shiftRight_eq_div_pow]
  have hsplit : (2 : Nat) ^ 32 = 2 ^ (8 + 6 * i) * (2 ^ 6 * 2 ^ (18 - 6 * i)) := by
    rw [← Nat.pow_add, ← Nat.pow_add, show 8 + 6 * i + (6 + (18 - 6 * i)) = 32 by omega]
  rw [hsplit, Nat.mod_mul_right_div_self, Nat.mod_mul_right_mod]
  rfl

theorem slot_addNode {T : Timer} {node : TimerNode} {c x : Nat} (htime : T.time = .ofNat c)
    (hexpire : node.expire = .ofNat x) (hle : c ≤ x) (hlt : x < c + 2 ^ 31)
    : (addNode T node).slot
        = Function.update T.slot (place c x) (T.slot (place c x) ++ [node]) := by
  unfold addNode
  simp only [htime, hexpire]
  have hnear := or_mask_eq_iff (Nat.zero_le 3) (rfl : timeNearMask.toNat = 2 ^ (8 + 6 * 0) - 1) hle hlt
  split
  . next heq =>
    rw [hnear] at heq
    have hlevel : Wheel.level 256 64 4 c x = 0 := by
      rw [Wheel.level_eq_iff]
      exact ⟨.inl heq, by simp⟩
    have hplace : place c x = (0, (UInt32.ofNat x &&& timeNearMask).toNat) := by
      rw [UInt32.and_mask 8 _ rfl, UInt32.toNat_ofNat', place, Wheel.place, hlevel]
      simp only [Prod.mk.injEq, true_and]
      omega
    rw [slot_linkNear, hplace]
  . next hne =>
    rw [hnear] at hne
    have hlevel : level c x
        = findLevel (.ofNat x) (.ofNat c) (timeNear <<< timeLevelShift) 0 3 + 1 := by
      apply findLevel_eq hle hlt rfl
      . intro _
        rfl
      . intro j hj
        rwa [Nat.le_zero.mp hj]
    have htop := Wheel.level_le (n := 256) (r := 64) (t := 4) c x
    rw [level] at hlevel
    rw [hlevel] at htop
    have hplace := shift_and_mask (x := x) (Nat.le_of_succ_le_succ htop)
    rw [slot_linkLevel, hplace, place, Wheel.place, hlevel]

@[simp]
theorem time_addNode (T : Timer) (node : TimerNode) : (addNode T node).time = T.time := by
  unfold addNode
  dsimp only
  split
  . rfl
  . rfl

def Asked.node (asked : Asked) : TimerNode := ⟨.ofNat asked.due, asked.event⟩

/--
The timer at the tick `c` holds what is waiting, each slot in the order in which it was asked for.
-/
structure Timer.Holds (T : Timer) (c : Nat) (waiting : List Asked) : Prop where
  time : T.time = .ofNat c
  slot : ∀ k, T.slot k = (render (fun asked => place c asked.due) waiting k).map Asked.node

theorem holds_timerCreateTimer : timerCreateTimer.Holds 0 [] where
  time := rfl
  slot := by
    rintro ⟨l, j⟩
    cases l with
    | zero => rfl
    | succ l => rfl

theorem slot_foldl_addNode (T : Timer) {c : Nat} (slots : Nat × Nat → List Asked)
    (moved : List Asked) (htime : T.time = .ofNat c) (hslots : ∀ k, T.slot k = (slots k).map Asked.node)
    (hwindow : ∀ a ∈ moved, c ≤ a.due ∧ a.due < c + 2 ^ 31)
    : ((moved.map Asked.node).foldl addNode T).time = .ofNat c
        ∧ ∀ k, ((moved.map Asked.node).foldl addNode T).slot k
            = (moved.foldl (Wheel.link fun a => place c a.due) slots k).map Asked.node := by
  induction moved generalizing T slots with
  | nil => exact ⟨htime, hslots⟩
  | cons a moved ih =>
    rw [List.map_cons, List.foldl_cons, List.foldl_cons]
    obtain ⟨hle, hlt⟩ := hwindow a (by simp)
    apply ih
    . rw [time_addNode, htime]
    . intro k
      rw [slot_addNode htime rfl hle hlt, Wheel.link]
      by_cases hk : k = place c a.due
      . subst hk
        rw [Function.update_self, Function.update_self, hslots, List.map_append]
        rfl
      . rw [Function.update_of_ne hk, Function.update_of_ne hk, hslots]
    . intro b hb
      apply hwindow
      simp [hb]

theorem Timer.Holds.addNode {T : Timer} {c : Nat} {waiting : List Asked} (h : T.Holds c waiting)
    {a : Asked} (hle : c ≤ a.due) (hlt : a.due < c + 2 ^ 31)
    : (addNode T a.node).Holds c (waiting ++ [a]) := by
  obtain ⟨htime, hslot⟩ := slot_foldl_addNode T _ [a] h.time h.slot (by
    intro b hb
    rw [List.mem_singleton.mp hb]
    exact ⟨hle, hlt⟩)
  refine ⟨htime, ?_⟩
  intro k
  rw [← Wheel.link_render]
  exact hslot k

def cascade (T : Timer) (c : Nat) : Timer :=
  match carries 256 64 4 c with
  | 0 => T
  | m + 1 => moveList T m (c / Wheel.block 256 64 m % 64)

theorem and_mask_eq_zero_iff {c i : Nat} {mask : UInt32} (hi : i ≤ 3)
    (hmask : mask = 1 <<< UInt32.ofNat (8 + 6 * i))
    : UInt32.ofNat c &&& (mask - 1) = 0 ↔ Wheel.block 256 64 i ∣ c := by
  have hbits : (mask - 1).toNat = 2 ^ (8 + 6 * i) - 1 := by
    rw [hmask]
    interval_cases i <;> rfl
  rw [← UInt32.toNat_inj, UInt32.and_mask _ _ hbits, UInt32.toNat_ofNat', block_eq,
    UInt32.toNat_zero]
  have hsplit : (2 : Nat) ^ 32 = 2 ^ (8 + 6 * i) * 2 ^ (24 - 6 * i) := by
    rw [← Nat.pow_add, show 8 + 6 * i + (24 - 6 * i) = 32 by omega]
  rw [hsplit, Nat.mod_mul_right_mod, Nat.dvd_iff_mod_eq_zero]

theorem block_succ_dvd_iff {c i : Nat} (h : Wheel.block 256 64 i ∣ c)
    : Wheel.block 256 64 (i + 1) ∣ c ↔ c / Wheel.block 256 64 i % 64 = 0 := by
  obtain ⟨q, rfl⟩ := h
  have hpos := Wheel.block_pos (n := 256) (r := 64) (by decide) (by decide) i
  rw [Nat.mul_div_cancel_left q hpos, Wheel.block_succ, Nat.mul_dvd_mul_iff_left hpos,
    Nat.dvd_iff_mod_eq_zero]

-- With a clock that does not start over the loop stays inside of the array.
theorem shiftLoop_eq {T : Timer} {c : Nat} (hc : ¬ Wheel.block 256 64 4 ∣ c) {mask time : UInt32}
    {i levels : Nat} (hlevels : i + levels = 4)
    (hmask : i ≤ 3 → mask = 1 <<< UInt32.ofNat (8 + 6 * i))
    (htime : time.toNat = c % 2 ^ 32 / Wheel.block 256 64 i)
    (hlower : ∀ j < i, Wheel.block 256 64 j ∣ c) (hi : i = 0 ∨ Wheel.block 256 64 i ∣ c)
    : shiftLoop T (.ofNat c) mask time i levels = some (cascade T c) := by
  induction levels generalizing i mask time with
  | zero =>
    have hfour : i = 4 := by omega
    subst hfour
    exact absurd (hi.resolve_left (by decide)) hc
  | succ levels ih =>
    have hdvd_iff := and_mask_eq_zero_iff (c := c) (by omega) (hmask (by omega))
    rw [shiftLoop]
    split
    . next heq =>
      rw [hdvd_iff] at heq
      have hidx : (time &&& timeLevelMask).toNat = c / Wheel.block 256 64 i % 64 := by
        rw [UInt32.and_mask 6 _ rfl, htime, block_eq]
        have hsplit : (2 : Nat) ^ 32 = 2 ^ (8 + 6 * i) * (2 ^ 6 * 2 ^ (18 - 6 * i)) := by
          rw [← Nat.pow_add, ← Nat.pow_add, show 8 + 6 * i + (6 + (18 - 6 * i)) = 32 by omega]
        rw [hsplit, Nat.mod_mul_right_div_self, Nat.mod_mul_right_mod]
        rfl
      dsimp only
      rw [hidx]
      split
      . next hne =>
        have hcarries : carries 256 64 4 c = i + 1 := by
          rw [Wheel.carries_eq_iff]
          refine ⟨.inl ?_, ?_⟩
          . rwa [block_succ_dvd_iff heq]
          . intro j hj
            refine ⟨?_, by omega⟩
            by_cases hji : j = i
            . rwa [hji]
            . exact hlower j (by omega)
        rw [cascade, hcarries]
      . next hzero =>
        rw [Decidable.not_not] at hzero
        apply ih
        . omega
        . intro hi'
          rw [hmask (by omega)]
          have : i < 3 := by omega
          interval_cases i <;> rfl
        . rw [UInt32.toNat_shiftRight, htime, Wheel.block_succ, Nat.shiftRight_eq_div_pow,
            Nat.div_div_eq_div_mul]
          rfl
        . intro j hj
          by_cases hji : j = i
          . rwa [hji]
          . exact hlower j (by omega)
        . right
          rwa [block_succ_dvd_iff heq]
    . next hne =>
      rw [hdvd_iff] at hne
      have hzero : i = 0 := hi.resolve_right hne
      subst hzero
      have hcarries : carries 256 64 4 c = 0 := by
        rw [Wheel.carries_eq_iff]
        exact ⟨.inl hne, by simp⟩
      rw [cascade, hcarries]

theorem timerShift_eq {T : Timer} {c : Nat} (htime : T.time = .ofNat c)
    : timerShift T = some (cascade { T with time := .ofNat (c + 1) } (c + 1)) := by
  have hct : T.time + 1 = .ofNat (c + 1) := by
    rw [htime, UInt32.ofNat_add]
    rfl
  have hzero : UInt32.ofNat (c + 1) = 0 ↔ Wheel.block 256 64 4 ∣ c + 1 := by
    rw [← UInt32.toNat_inj, UInt32.toNat_ofNat', block_eq, Nat.dvd_iff_mod_eq_zero]
    rfl
  unfold timerShift
  simp only [hct]
  split
  . next hwrap =>
    rw [hzero] at hwrap
    have hcarries : carries 256 64 4 (c + 1) = 4 := by
      rw [Wheel.carries_eq_iff]
      refine ⟨.inr rfl, ?_⟩
      intro i hi
      exact ⟨(Wheel.block_dvd (by omega)).trans hwrap, by omega⟩
    have hthree := (Wheel.block_dvd (n := 256) (r := 64) (by omega : 3 ≤ 4)).trans hwrap
    rw [block_succ_dvd_iff hthree] at hwrap
    rw [cascade, hcarries]
    simp only [hwrap]
  . next hne =>
    rw [hzero] at hne
    apply shiftLoop_eq hne rfl
    . intro _
      rfl
    . rw [UInt32.toNat_shiftRight, UInt32.toNat_ofNat', Nat.shiftRight_eq_div_pow]
      rfl
    . intro j hj
      omega
    . exact .inl rfl

section

variable {T : Timer} {c : Nat} {waiting : List Asked}

theorem Timer.Holds.shift (h : T.Holds c waiting)
    (hwindow : ∀ a ∈ waiting, c < a.due ∧ a.due < c + 2 ^ 31)
    : ∃ T', timerShift T = some T' ∧ T'.Holds (c + 1) waiting := by
  refine ⟨_, timerShift_eq h.time, ?_⟩
  have hblock : Wheel.block 256 64 4 = 2 ^ 32 := block_eq 4
  unfold cascade
  split
  . next hcarries =>
    refine ⟨rfl, ?_⟩
    intro k
    have hrender := Wheel.render_shift Asked.due hcarries (fun a ha => (hwindow a ha).1)
    unfold place
    rw [hrender]
    exact h.slot k
  . next m hcarries =>
    have hmoved := h.slot (m + 1, (c + 1) / Wheel.block 256 64 m % 64)
    have hshift := Wheel.foldl_link_shift Asked.due (by decide) (by decide) hcarries (by
        intro a ha
        obtain ⟨hlt, hwin⟩ := hwindow a ha
        rw [hblock]
        exact ⟨hlt, by omega⟩)
    unfold moveList
    dsimp only
    rw [Timer.slot] at hmoved
    rw [hmoved]
    obtain ⟨htime, hslot⟩ := slot_foldl_addNode
      ⟨T.near, Function.update T.t m (Function.update (T.t m)
        ((c + 1) / Wheel.block 256 64 m % 64) []), .ofNat (c + 1), T.current, T.currentPoint⟩
      (Function.update (render (fun a => place c a.due) waiting)
        (m + 1, (c + 1) / Wheel.block 256 64 m % 64) [])
      (render (fun a => place c a.due) waiting
        (m + 1, (c + 1) / Wheel.block 256 64 m % 64)) rfl
      (by
        rintro ⟨l, j⟩
        have := h.slot (l, j)
        cases l with
        | zero =>
          rw [Function.update_of_ne (by simp)]
          exact this
        | succ l =>
          by_cases hl : l = m
          . subst hl
            by_cases hj : j = (c + 1) / Wheel.block 256 64 l % 64
            . subst hj
              simp [Timer.slot]
            . rw [Function.update_of_ne (by simpa using hj), ← this]
              simp [Timer.slot, hj]
          . rw [Function.update_of_ne (by simp [hl]), ← this]
            simp [Timer.slot, hl])
      (by
        intro a ha
        have := hwindow a (List.mem_of_mem_filter ha)
        omega)
    refine ⟨htime, ?_⟩
    intro k
    rw [hslot k]
    unfold place
    rw [hshift]

theorem Timer.Holds.idx (h : T.Holds c waiting) : (T.time &&& timeNearMask).toNat = c % 256 := by
  rw [h.time, UInt32.and_mask 8 _ rfl, UInt32.toNat_ofNat']
  omega

theorem Timer.Holds.near (h : T.Holds c waiting)
    : T.near (c % 256) = (waiting.filter (·.due = c)).map Asked.node := by
  have hslot := h.slot (0, c % 256)
  rw [Timer.slot] at hslot
  rw [hslot, render]
  congr 1
  apply List.filter_congr
  intro a _
  rw [decide_eq_decide]
  exact Wheel.place_eq_near_iff (by decide)

theorem timerExecute_eq_none (h : T.Holds c waiting) (hnone : waiting.filter (·.due = c) = [])
    : timerExecute T = none := by
  unfold timerExecute
  simp only [h.idx, h.near, hnone, List.map_nil]

theorem timerExecute_eq_some (h : T.Holds c waiting) (hsome : waiting.filter (·.due = c) ≠ [])
    : ∃ T', timerExecute T = some ((waiting.filter (·.due = c)).map Asked.node, T')
        ∧ T'.Holds c (waiting.filter (·.due ≠ c)) := by
  refine ⟨{ T with near := Function.update T.near (c % 256) [] }, ?_, h.time, ?_⟩
  . unfold timerExecute
    dsimp only
    rw [h.idx, h.near]
    split
    . next hnil =>
      rw [List.map_eq_nil_iff] at hnil
      exact absurd hnil hsome
    . rfl
  . rintro ⟨l, j⟩
    have hslot := h.slot (l, j)
    have hplace : ∀ a : Asked, place c a.due = (0, c % 256) ↔ a.due = c := fun a =>
      Wheel.place_eq_near_iff (by decide)
    by_cases hk : (l, j) = (0, c % 256)
    . rw [Prod.mk.injEq] at hk
      obtain ⟨rfl, rfl⟩ := hk
      have hempty : render (fun a => place c a.due) (waiting.filter (·.due ≠ c)) (0, c % 256) = [] := by
        rw [render, List.filter_eq_nil_iff]
        intro a ha
        rw [decide_eq_true_eq, hplace]
        simpa using (List.mem_filter.mp ha).2
      rw [hempty]
      simp [Timer.slot]
    . have hsame : render (fun a => place c a.due) (waiting.filter (·.due ≠ c)) (l, j)
          = render (fun a => place c a.due) waiting (l, j) := by
        rw [render, render, List.filter_filter]
        apply List.filter_congr
        intro a _
        by_cases ha : place c a.due = (l, j)
        . have : a.due ≠ c := by
            rw [← ha, hplace] at hk
            exact hk
          simp [ha, this]
        . simp [ha]
      rw [hsame, ← hslot]
      cases l with
      | zero =>
        have : j ≠ c % 256 := by
          intro hj
          exact hk (by rw [hj])
        simp [Timer.slot, this]
      | succ l => rfl

end

end SkynetTimer
