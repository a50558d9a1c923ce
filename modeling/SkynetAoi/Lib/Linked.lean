import Mathlib.Data.List.Nodup

/-!
This module contains chains that run through the cells of an array: every cell stores the index of
the next one and `-1` ends the chain.
-/

inductive Linked (next : Nat → Int) : Int → List Nat → Prop where
  | nil : Linked next (-1) []
  | cons (i : Nat) (c : List Nat) : Linked next (next i) c → Linked next i (i :: c)

namespace Linked

variable {next next' : Nat → Int} {start : Int} {c : List Nat}

theorem head_eq {i : Nat} (h : Linked next start (i :: c)) : start = i := by
  cases h
  rfl

theorem tail {i : Nat} (h : Linked next start (i :: c)) : Linked next (next i) c := by
  cases h
  assumption

theorem eq_nil_of_neg (h : Linked next start c) (hneg : start < 0) : c = [] := by
  cases h with
  | nil => rfl
  | cons i c _ => omega

theorem mem_of_nonneg (h : Linked next start c) (hnonneg : 0 ≤ start) : start.toNat ∈ c := by
  cases h with
  | nil => omega
  | cons i c _ => simp

theorem congr (h : Linked next start c) (heq : ∀ i ∈ c, next' i = next i) : Linked next' start c := by
  induction h with
  | nil => exact .nil
  | cons i c _ ih =>
    apply Linked.cons
    rw [heq i (by simp)]
    apply ih
    intro j hj
    apply heq
    simp [hj]

theorem suffix {c1 c2 : List Nat} {i : Nat} (h : Linked next start (c1 ++ i :: c2))
    : Linked next i (i :: c2) := by
  induction c1 generalizing start with
  | nil =>
    have := h.head_eq
    rw [this] at h
    exact h
  | cons j c1 ih => exact ih h.tail

theorem remove {c1 c2 : List Nat} {last i : Nat}
    (h : Linked next start (c1 ++ last :: i :: c2)) (hlast : next' last = next i)
    (hother : ∀ j ∈ c1 ++ c2, next' j = next j)
    : Linked next' start (c1 ++ last :: c2) := by
  induction c1 generalizing start with
  | nil =>
    have hstart := h.head_eq
    subst hstart
    apply Linked.cons
    rw [hlast]
    apply h.tail.tail.congr
    intro j hj
    apply hother
    simp [hj]
  | cons k c1 ih =>
    have hstart := h.head_eq
    subst hstart
    apply Linked.cons
    rw [hother k (by simp)]
    apply ih h.tail
    intro j hj
    apply hother
    simp only [List.cons_append, List.mem_cons]
    exact Or.inr hj

theorem insert {first i : Nat} (h : Linked next start (first :: c))
    (hfirst : next' first = i) (hi : next' i = next first)
    (hother : ∀ j ∈ c, next' j = next j)
    : Linked next' start (first :: i :: c) := by
  have hstart := h.head_eq
  subst hstart
  apply Linked.cons
  rw [hfirst]
  apply Linked.cons
  rw [hi]
  exact h.tail.congr hother

end Linked
