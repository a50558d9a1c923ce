import Mathlib.Algebra.Order.Group.Nat
import Mathlib.Data.Nat.Find
import Mathlib.Logic.Function.Basic

/-!
This module contains hierarchical timing wheels. Time is cut into blocks of `n` ticks, `r` of which
are a block of the next level, and so on. What is due in the block of the clock is kept by its tick,
everything else by its block on the lowest level on which it shares the next larger block with the
clock. The slots of the wheel then hold what is waiting, in its order, and the clock goes on by one
tick with one of the slots handed out again.
-/

namespace Wheel

variable {n r t : Nat}

def block (n r level : Nat) : Nat := n * r ^ level

theorem block_succ (level : Nat) : block n r (level + 1) = block n r level * r := by
  rw [block, block, Nat.pow_succ, Nat.mul_assoc]

theorem block_pos (hn : 0 < n) (hr : 0 < r) (level : Nat) : 0 < block n r level :=
  Nat.mul_pos hn (Nat.pow_pos hr)

theorem block_dvd {i j : Nat} (h : i ≤ j) : block n r i ∣ block n r j :=
  Nat.mul_dvd_mul_left n (Nat.pow_dvd_pow r h)

theorem div_block_eq_of_le {i j c x : Nat} (hij : i ≤ j)
    (h : x / block n r i = c / block n r i) : x / block n r j = c / block n r j := by
  obtain ⟨k, hk⟩ := block_dvd (n := n) (r := r) hij
  rw [hk, ← Nat.div_div_eq_div_mul, ← Nat.div_div_eq_div_mul, h]

/--
The first level on which the two times lie in the same block, `t` if they do not below it.
-/
def level (n r t c x : Nat) : Nat :=
  Nat.find (p := fun i => x / block n r i = c / block n r i ∨ i = t) ⟨t, .inr rfl⟩

/--
The first level on which the time is not the start of a block, `t` if it is one below it.
-/
def carries (n r t c : Nat) : Nat :=
  Nat.find (p := fun i => ¬ block n r i ∣ c ∨ i = t) ⟨t, .inr rfl⟩

def place (n r t c x : Nat) : Nat × Nat :=
  match level n r t c x with
  | 0 => (0, x % n)
  | l + 1 => (l + 1, x / block n r l % r)

theorem level_eq_iff {c x l : Nat}
    : level n r t c x = l
        ↔
      (x / block n r l = c / block n r l ∨ l = t)
        ∧ ∀ i < l, x / block n r i ≠ c / block n r i ∧ i ≠ t := by
  rw [level, Nat.find_eq_iff]
  simp only [not_or]

theorem carries_eq_iff {c m : Nat}
    : carries n r t c = m
        ↔
      (¬ block n r m ∣ c ∨ m = t) ∧ ∀ i < m, block n r i ∣ c ∧ i ≠ t := by
  rw [carries, Nat.find_eq_iff]
  simp only [not_or, Decidable.not_not]

theorem level_le (c x : Nat) : level n r t c x ≤ t :=
  Nat.find_min' _ (.inr rfl)

@[simp]
theorem place_fst (c x : Nat) : (place n r t c x).1 = level n r t c x := by
  unfold place
  split
  . next h => exact h.symm
  . next h => exact h.symm

theorem place_eq_of_level_eq {c c' x : Nat} (h : level n r t c x = level n r t c' x)
    : place n r t c x = place n r t c' x := by
  unfold place
  rw [h]

section

variable {c x : Nat}

theorem succ_div_of_dvd {d : Nat} (hd : d ∣ c + 1) : (c + 1) / d = c / d + 1 := by
  rw [Nat.succ_div, if_pos hd]

theorem succ_div_of_not_dvd {d : Nat} (hd : ¬ d ∣ c + 1) : (c + 1) / d = c / d := by
  rw [Nat.succ_div, if_neg hd, Nat.add_zero]

-- When the block of a level ends, nothing that waits is due in it any more.
theorem carries_le_level (hx : c < x) : carries n r t (c + 1) ≤ level n r t c x := by
  obtain ⟨-, hbelow⟩ := carries_eq_iff.mp (rfl : carries n r t (c + 1) = _)
  obtain ⟨hlevel, -⟩ := level_eq_iff.mp (rfl : level n r t c x = _)
  by_contra hlt
  obtain ⟨hdvd, hne⟩ := hbelow _ (Nat.lt_of_not_le hlt)
  have heq := hlevel.resolve_right hne
  have hle : (c + 1) / block n r (level n r t c x) ≤ x / block n r (level n r t c x) :=
    Nat.div_le_div_right hx
  rw [heq, succ_div_of_dvd hdvd] at hle
  omega

variable (hx : c < x)

include hx in
theorem level_succ
    (hslot : ∀ m, level n r t c x = m + 1 → carries n r t (c + 1) = m + 1
      → x / block n r m ≠ (c + 1) / block n r m)
    : level n r t (c + 1) x = level n r t c x := by
  obtain ⟨hmat, hbelow⟩ := carries_eq_iff.mp (rfl : carries n r t (c + 1) = _)
  obtain ⟨hlevel, hlower⟩ := level_eq_iff.mp (rfl : level n r t c x = _)
  have hle := carries_le_level (n := n) (r := r) (t := t) hx
  generalize carries n r t (c + 1) = m at hmat hbelow hle hslot
  generalize level n r t c x = l at hlevel hlower hle hslot
  rw [level_eq_iff]
  have hsame : ∀ i, m ≤ i → m < t → (c + 1) / block n r i = c / block n r i := by
    intro i hi hm
    apply div_block_eq_of_le hi
    exact succ_div_of_not_dvd (hmat.resolve_right (by omega))
  have htop : ∀ i < l, i < t := by
    intro i hi
    by_contra hge
    exact (hlower t (by omega)).2 rfl
  constructor
  . by_cases hl : l = t
    . exact .inr hl
    . left
      have : l ≤ t := by
        by_contra hgt
        exact (hlower t (by omega)).2 rfl
      rw [hsame l hle (by omega)]
      exact hlevel.resolve_right hl
  . intro i hi
    refine ⟨?_, (hlower i hi).2⟩
    by_cases hmi : m ≤ i
    . rw [hsame i hmi (by have := htop i hi; omega)]
      exact (hlower i hi).1
    . intro heq
      obtain ⟨k, rfl⟩ : ∃ k, m = k + 1 := ⟨m - 1, by omega⟩
      have hk := div_block_eq_of_le (Nat.le_of_lt_succ (by omega : i < k + 1)) heq
      by_cases hlm : l = k + 1
      . exact hslot k hlm rfl hk
      . have hmtop := htop (k + 1) (by omega)
        have hup := div_block_eq_of_le (Nat.le_succ k) hk
        rw [hsame (k + 1) (Nat.le_refl _) hmtop] at hup
        exact (hlower (k + 1) (by omega)).1 hup

theorem level_succ_lt {m : Nat} (heq : x / block n r m = (c + 1) / block n r m)
    : level n r t (c + 1) x < m + 1 := by
  apply Nat.lt_succ_of_le
  exact Nat.find_min' _ (.inl heq)

end

theorem eq_of_mod_eq_of_lt {a b d : Nat} (hmod : a % d = b % d) (hle : b ≤ a) (hlt : a < b + d)
    : a = b := by
  have hzero := Nat.sub_mod_eq_zero_of_mod_eq hmod
  rw [Nat.mod_eq_of_lt (by omega)] at hzero
  omega

section

variable {c x m : Nat}

theorem div_block_eq_of_place (hn : 0 < n) (hr : 0 < r) (hx : c < x)
    (hwindow : x < c + 1 + block n r t)
    (hcarries : carries n r t (c + 1) = m + 1)
    (hplace : place n r t c x = (m + 1, (c + 1) / block n r m % r))
    : x / block n r m = (c + 1) / block n r m := by
  have hlevel : level n r t c x = m + 1 := by
    rw [← place_fst, hplace]
  have hmod : x / block n r m % r = (c + 1) / block n r m % r := by
    unfold place at hplace
    rw [hlevel] at hplace
    exact (Prod.mk.injEq .. ▸ hplace).2
  obtain ⟨hmat, hbelow⟩ := carries_eq_iff.mp hcarries
  obtain ⟨hlev, -⟩ := level_eq_iff.mp hlevel
  have hpos := block_pos hn hr m
  by_cases hm : m + 1 = t
  . obtain ⟨q, hq⟩ := (hbelow m (Nat.lt_succ_self m)).1
    apply eq_of_mod_eq_of_lt hmod
    . exact Nat.div_le_div_right hx
    . rw [Nat.div_lt_iff_lt_mul hpos, hq, Nat.mul_div_cancel_left _ hpos, Nat.add_mul,
        Nat.mul_comm q, Nat.mul_comm r]
      rwa [← hm, block_succ, hq] at hwindow
  . have hdiv : x / block n r m / r = (c + 1) / block n r m / r := by
      rw [Nat.div_div_eq_div_mul, Nat.div_div_eq_div_mul, ← block_succ]
      rw [hlev.resolve_right hm, succ_div_of_not_dvd (hmat.resolve_right hm)]
    rw [← Nat.div_add_mod (x / block n r m) r, hdiv, hmod, Nat.div_add_mod]

theorem place_eq_near_iff (htop : 0 < t)
    : place n r t c x = (0, c % n) ↔ x = c := by
  constructor
  . intro h
    have hlevel : level n r t c x = 0 := by
      rw [← place_fst, h]
    unfold place at h
    rw [hlevel] at h
    have hmod : x % n = c % n := (Prod.mk.injEq .. ▸ h).2
    have hdiv := (level_eq_iff.mp hlevel).1.resolve_right (by omega)
    rw [block, Nat.pow_zero, Nat.mul_one] at hdiv
    rw [← Nat.div_add_mod x n, hdiv, hmod, Nat.div_add_mod]
  . rintro rfl
    have hlevel : level n r t x x = 0 := level_eq_iff.mpr ⟨.inl rfl, by simp⟩
    unfold place
    rw [hlevel]

end

section

variable {α κ : Type} [DecidableEq κ]

def render (f : α → κ) (waiting : List α) (k : κ) : List α :=
  waiting.filter (f · = k)

def link (f : α → κ) (slots : κ → List α) (x : α) : κ → List α :=
  Function.update slots (f x) (slots (f x) ++ [x])

variable {f g : α → κ} {waiting : List α}

theorem link_render (x : α) : link f (render f waiting) x = render f (waiting ++ [x]) := by
  funext k
  rw [render, List.filter_append, link]
  by_cases hk : f x = k
  . subst hk
    simp [render]
  . rw [Function.update_of_ne (Ne.symm hk)]
    simp [render, hk]

theorem foldl_link (xs : List α) (slots : κ → List α) (k : κ)
    : xs.foldl (link f) slots k = slots k ++ xs.filter (f · = k) := by
  induction xs generalizing slots with
  | nil => simp
  | cons x xs ih =>
    rw [List.foldl_cons, ih]
    by_cases hk : f x = k
    . subst hk
      simp [link]
    . rw [link, Function.update_of_ne (Ne.symm hk), List.filter_cons_of_neg (by simpa using hk)]

theorem foldl_link_render (k : κ) (hstay : ∀ x ∈ waiting, f x ≠ k → g x = f x)
    (hfree : ∀ x ∈ waiting, f x = k → ∀ y ∈ waiting, f y ≠ k → f y ≠ g x)
    : (render f waiting k).foldl (link g) (Function.update (render f waiting) k [])
        = render g waiting := by
  funext k'
  rw [foldl_link, render, List.filter_filter]
  by_cases htarget : ∃ x ∈ waiting, f x = k ∧ g x = k'
  . obtain ⟨x, hx, hfx, hgx⟩ := htarget
    have hempty : Function.update (render f waiting) k [] k' = [] := by
      by_cases hk : k' = k
      . rw [hk, Function.update_self]
      . rw [Function.update_of_ne hk, render, List.filter_eq_nil_iff]
        intro y hy
        rw [decide_eq_true_eq]
        intro hfy
        refine hfree x hx hfx y hy ?_ ?_
        . rwa [hfy]
        . rw [hfy, hgx]
    rw [hempty, List.nil_append]
    apply List.filter_congr
    intro y hy
    by_cases hfy : f y = k
    . simp [hfy]
    . have hne : g y ≠ k' := by
        rw [hstay y hy hfy, ← hgx]
        exact hfree x hx hfx y hy hfy
      simp [hfy, hne]
  . push Not at htarget
    have hnone : waiting.filter (fun y => decide (g y = k') && decide (f y = k)) = [] := by
      rw [List.filter_eq_nil_iff]
      intro y hy
      simp only [Bool.and_eq_true, decide_eq_true_eq, not_and]
      intro hgy hfy
      exact htarget y hy hfy hgy
    rw [hnone, List.append_nil, render]
    by_cases hk : k' = k
    . subst hk
      rw [Function.update_self, eq_comm, List.filter_eq_nil_iff]
      intro y hy
      rw [decide_eq_true_eq]
      intro hgy
      by_cases hfy : f y = k'
      . exact htarget y hy hfy hgy
      . rw [hstay y hy hfy] at hgy
        exact hfy hgy
    . rw [Function.update_of_ne hk, render]
      apply List.filter_congr
      intro y hy
      by_cases hfy : f y = k
      . have hne := htarget y hy hfy
        simp [hne, hfy, Ne.symm hk]
      . rw [hstay y hy hfy]

end

section

variable {α : Type} (due : α → Nat) {c : Nat} {waiting : List α}

theorem foldl_link_shift (hn : 0 < n) (hr : 0 < r) {m : Nat}
    (hcarries : carries n r t (c + 1) = m + 1)
    (hwindow : ∀ x ∈ waiting, c < due x ∧ due x < c + 1 + block n r t)
    : (render (fun x => place n r t c (due x)) waiting
          (m + 1, (c + 1) / block n r m % r)).foldl
        (link fun x => place n r t (c + 1) (due x))
        (Function.update (render (fun x => place n r t c (due x)) waiting)
          (m + 1, (c + 1) / block n r m % r) [])
      = render (fun x => place n r t (c + 1) (due x)) waiting := by
  apply foldl_link_render
  . intro x hx hne
    symm
    apply place_eq_of_level_eq
    symm
    apply level_succ (hwindow x hx).1
    intro m' hlevel hcarries' heq
    rw [hcarries, Nat.add_right_cancel_iff] at hcarries'
    subst hcarries'
    apply hne
    unfold place
    rw [hlevel, ← heq]
  . intro x hx hplace y hy _ heq
    have hxw := hwindow x hx
    have hdiv := div_block_eq_of_place hn hr hxw.1 hxw.2 hcarries hplace
    have hlt := level_succ_lt (t := t) hdiv
    have hle := carries_le_level (n := n) (r := r) (t := t) (hwindow y hy).1
    rw [← place_fst, heq, place_fst] at hle
    omega

theorem render_shift (hcarries : carries n r t (c + 1) = 0) (hwait : ∀ x ∈ waiting, c < due x)
    : render (fun x => place n r t (c + 1) (due x)) waiting
        = render (fun x => place n r t c (due x)) waiting := by
  funext k
  apply List.filter_congr
  intro x hx
  have hplace : place n r t (c + 1) (due x) = place n r t c (due x) := by
    apply place_eq_of_level_eq
    apply level_succ (hwait x hx)
    intro m _ hm
    omega
  simp only [hplace]

end

end Wheel
