import Mathlib.Data.List.Basic

/-!
This module contains runs of a machine that takes one action after the other. The rule for invariants
carries the actions that were taken so far, so that an invariant may speak about the whole history.
-/

def run {σ α : Type} (step : σ → α → Option σ) (s : σ) (actions : List α) : Option σ :=
  match actions with
  | [] => some s
  | a :: actions =>
    match step s a with
    | none => none
    | some s => run step s actions

namespace run

variable {σ α : Type} {step : σ → α → Option σ}

def all (step : σ → α → Option σ) (ok : σ → α → Bool) (s : σ) (actions : List α) : Bool :=
  match actions with
  | [] => true
  | a :: actions =>
    ok s a && match step s a with
      | none => true
      | some s => all step ok s actions

@[simp]
theorem nil (s : σ) : run step s [] = some s := rfl

theorem cons {s s' : σ} {a : α} (h : step s a = some s') (actions : List α)
    : run step s (a :: actions) = run step s' actions := by
  rw [run, h]

theorem append {s s' : σ} {before : List α} (h : run step s before = some s') (after : List α)
    : run step s (before ++ after) = run step s' after := by
  induction before generalizing s with
  | nil =>
    rw [nil, Option.some.injEq] at h
    rw [h, List.nil_append]
  | cons a before ih =>
    rw [run] at h
    rw [List.cons_append, run]
    cases hstep : step s a with
    | none =>
      rw [hstep] at h
      simp at h
    | some s1 =>
      rw [hstep] at h
      exact ih h

theorem total {P : List α → σ → Prop} {ok : α → Prop}
    (hstep : ∀ past s a, P past s → ok a → ∃ s', step s a = some s' ∧ P (past ++ [a]) s')
    {past : List α} {s : σ} (hpast : P past s) {actions : List α} (hok : ∀ a ∈ actions, ok a)
    : ∃ s', run step s actions = some s' ∧ P (past ++ actions) s' := by
  induction actions generalizing past s with
  | nil =>
    rw [List.append_nil]
    exact ⟨s, rfl, hpast⟩
  | cons a actions ih =>
    obtain ⟨s1, hs, hP⟩ := hstep past s a hpast (hok a (by simp))
    obtain ⟨s', hrun, hP'⟩ := ih hP (by
      intro b hb
      apply hok
      simp [hb])
    refine ⟨s', ?_, ?_⟩
    . rw [cons hs]
      exact hrun
    . rw [← List.singleton_append, ← List.append_assoc]
      exact hP'

theorem total_of_all {P : σ → Prop} {ok : σ → α → Bool}
    (hstep : ∀ s a, P s → ok s a = true → ∃ s', step s a = some s' ∧ P s') {s : σ} (hs : P s)
    {actions : List α} (hok : all step ok s actions = true)
    : ∃ s', run step s actions = some s' ∧ P s' := by
  induction actions generalizing s with
  | nil => exact ⟨s, rfl, hs⟩
  | cons a actions ih =>
    rw [all, Bool.and_eq_true] at hok
    obtain ⟨ha, hrest⟩ := hok
    obtain ⟨s₁, h₁, hP⟩ := hstep s a hs ha
    rw [h₁] at hrest
    rw [cons h₁]
    exact ih hP hrest

end run
