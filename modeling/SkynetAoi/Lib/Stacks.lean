import Mathlib.Algebra.Order.BigOperators.Group.List
import Mathlib.Algebra.Order.Monoid.Unbundled.Basic
import Mathlib.Algebra.Order.Group.Nat
import Mathlib.Algebra.Ring.Nat

/-!
This module contains threads that are stacks of frames. What the frames hold is counted over all of
them, and a step of a thread replaces the frame on its top.
-/

namespace Stacks

variable {φ : Type} (f : φ → Nat)

def total (threads : List (List φ)) : Nat :=
  (threads.map fun stack => (stack.map f).sum).sum

@[simp]
theorem total_replicate_singleton {a : φ} (n : Nat) (h : f a = 0)
    : total f (List.replicate n [a]) = 0 := by
  simp [total, h]

theorem total_set {threads : List (List φ)} {i : Nat} {top : φ} {rest : List φ}
    (h : threads[i]? = some (top :: rest)) (frames : List φ)
    : total f (threads.set i (frames ++ rest)) + f top = total f threads + (frames.map f).sum := by
  induction threads generalizing i with
  | nil => simp at h
  | cons stack threads ih =>
    cases i with
    | zero =>
      rw [List.getElem?_cons_zero, Option.some.injEq] at h
      subst h
      simp only [total, List.set_cons_zero, List.map_cons, List.sum_cons, List.map_append,
        List.sum_append]
      omega
    | succ i =>
      rw [List.getElem?_cons_succ] at h
      have := ih h
      simp only [total, List.set_cons_succ, List.map_cons, List.sum_cons] at this ⊢
      omega

theorem le_total {threads : List (List φ)} {i : Nat} {top : φ} {rest : List φ}
    (h : threads[i]? = some (top :: rest)) : f top ≤ total f threads := by
  have := total_set f h []
  simp only [List.map_nil, List.sum_nil] at this
  omega

theorem total_le_total {g : φ → Nat} (h : ∀ a, f a ≤ g a) (threads : List (List φ))
    : total f threads ≤ total g threads := by
  apply List.sum_le_sum
  intro stack _
  apply List.sum_le_sum
  intro a _
  exact h a

theorem total_add_le {g : φ → Nat} (h : ∀ a, f a ≤ g a) {threads : List (List φ)} {i : Nat}
    {top : φ} {rest : List φ} (hthread : threads[i]? = some (top :: rest))
    : total f threads + g top ≤ total g threads + f top := by
  have hf := total_set f hthread []
  have hg := total_set g hthread []
  have hle := total_le_total f h (threads.set i ([] ++ rest))
  simp only [List.map_nil, List.sum_nil] at hf hg
  omega

section

variable {β : Type}

def collect (c : φ → List β) (threads : List (List φ)) : List β :=
  threads.flatMap fun stack => stack.flatMap c

variable {f} {c : φ → List β} {threads : List (List φ)} {i : Nat} {top : φ} {rest : List φ}

theorem length_collect_le (hle : ∀ a, (c a).length ≤ f a)
    : (collect c threads).length ≤ total f threads := by
  have hstack : ∀ stack : List φ, (stack.flatMap c).length ≤ (stack.map f).sum := by
    intro stack
    rw [List.length_flatMap]
    apply List.sum_le_sum
    intro a _
    exact hle a
  rw [collect, List.length_flatMap]
  apply List.sum_le_sum
  intro stack _
  exact hstack stack

theorem collect_set_same (h : threads[i]? = some (top :: rest)) {frames : List φ}
    (hsame : frames.flatMap c = c top)
    : collect c (threads.set i (frames ++ rest)) = collect c threads := by
  induction threads generalizing i with
  | nil => simp at h
  | cons stack threads ih =>
    cases i with
    | zero =>
      rw [List.getElem?_cons_zero, Option.some.injEq] at h
      subst h
      simp [collect, hsame]
    | succ i =>
      rw [List.getElem?_cons_succ] at h
      have := ih h
      simp only [collect, List.set_cons_succ, List.flatMap_cons] at this ⊢
      rw [this]

theorem flatMap_eq_nil_of_sum (hf : ∀ a, f a = 0 → c a = []) {stack : List φ}
    (h : (stack.map f).sum = 0) : stack.flatMap c = [] := by
  rw [List.flatMap_eq_nil_iff]
  intro a ha
  apply hf
  rw [List.sum_eq_zero_iff] at h
  exact h (f a) (List.mem_map_of_mem ha)

theorem collect_eq_nil (hf : ∀ a, f a = 0 → c a = []) (h : total f threads = 0)
    : collect c threads = [] := by
  rw [collect, List.flatMap_eq_nil_iff]
  intro stack hstack
  apply flatMap_eq_nil_of_sum hf
  rw [total, List.sum_eq_zero_iff] at h
  exact h _ (List.mem_map_of_mem hstack)

theorem collect_alone (hf : ∀ a, f a = 0 → c a = []) (h : threads[i]? = some (top :: rest))
    (halone : total f threads ≤ f top) (frames : List φ)
    : collect c threads = c top
        ∧ collect c (threads.set i (frames ++ rest)) = frames.flatMap c := by
  induction threads generalizing i with
  | nil => simp at h
  | cons stack threads ih =>
    cases i with
    | zero =>
      rw [List.getElem?_cons_zero, Option.some.injEq] at h
      subst h
      have hsum : f top + (rest.map f).sum + total f threads ≤ f top := by
        simpa only [total, List.map_cons, List.sum_cons] using halone
      have hrest : rest.flatMap c = [] := flatMap_eq_nil_of_sum hf (by omega)
      have hothers : threads.flatMap (fun stack => stack.flatMap c) = [] :=
        collect_eq_nil hf (by omega)
      simp [collect, hrest, hothers]
    | succ i =>
      rw [List.getElem?_cons_succ] at h
      have hle := le_total f h
      have hsum : (stack.map f).sum + total f threads ≤ f top := by
        simpa only [total, List.map_cons, List.sum_cons] using halone
      have hstack : stack.flatMap c = [] := flatMap_eq_nil_of_sum hf (by omega)
      have := ih h (by omega)
      simp only [collect, List.set_cons_succ, List.flatMap_cons, hstack, List.nil_append] at this ⊢
      exact this

end

end Stacks
