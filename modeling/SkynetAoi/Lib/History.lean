import Mathlib.Data.List.Induction

/-!
This module contains properties of every element of a history together with what came before it.
-/

theorem append_singleton_eq_append_cons {α : Type} {history before after : List α} {last a : α}
    (h : history ++ [last] = before ++ a :: after)
    : (before = history ∧ a = last ∧ after = [])
        ∨ ∃ rest, after = rest ++ [last] ∧ history = before ++ a :: rest := by
  cases after using List.reverseRecOn with
  | nil =>
    obtain ⟨hbefore, hlast⟩ := List.append_inj' h rfl
    rw [List.cons.injEq] at hlast
    exact .inl ⟨hbefore.symm, hlast.1.symm, rfl⟩
  | append_singleton rest last' _ =>
    rw [← List.cons_append, ← List.append_assoc] at h
    obtain ⟨hhistory, hlast⟩ := List.append_inj' h rfl
    rw [List.cons.injEq] at hlast
    exact .inr ⟨rest, by rw [hlast.1], hhistory⟩

def Throughout {α : Type} (P : List α → α → Prop) (history : List α) : Prop :=
  ∀ before a after, history = before ++ a :: after → P before a

namespace Throughout

variable {α : Type} {P : List α → α → Prop}

@[simp]
theorem nil : Throughout P [] := by
  intro before a after h
  simp at h

theorem append_singleton_iff (history : List α) (last : α)
    : Throughout P (history ++ [last]) ↔ Throughout P history ∧ P history last := by
  constructor
  . intro h
    constructor
    . intro before a after heq
      apply h before a (after ++ [last])
      rw [heq, List.append_assoc, List.cons_append]
    . exact h history last [] rfl
  . rintro ⟨h, hlast⟩ before a after heq
    rcases append_singleton_eq_append_cons heq with ⟨rfl, rfl, -⟩ | ⟨rest, -, hhistory⟩
    . exact hlast
    . exact h before a rest hhistory

theorem append_iff (first second : List α)
    : Throughout P (first ++ second)
        ↔
      Throughout P first ∧ Throughout (fun before a => P (first ++ before) a) second := by
  induction second using List.reverseRecOn with
  | nil => simp
  | append_singleton second last ih =>
    rw [← List.append_assoc, append_singleton_iff, append_singleton_iff, ih, and_assoc]

theorem cons_iff (first : α) (history : List α)
    : Throughout P (first :: history)
        ↔
      P [] first ∧ Throughout (fun before a => P (first :: before) a) history := by
  have := append_iff (P := P) [first] history
  rw [List.singleton_append] at this
  rw [this]
  have hfirst := append_singleton_iff (P := P) [] first
  rw [List.nil_append] at hfirst
  rw [hfirst]
  simp

theorem of_take {history : List α}
    (h : ∀ n < history.length, ∀ a, history[n]? = some a → P (history.take n) a)
    : Throughout P history := by
  intro before a after heq
  have hlen : before.length < history.length := by
    rw [heq]
    simp
  have := h before.length hlen a (by simp [heq])
  rw [heq, List.take_left] at this
  exact this

theorem induction {Q : List α → Prop} (hnil : Q [])
    (hstep : ∀ past a, Q past → P past a → Q (past ++ [a]))
    {history : List α} (h : Throughout P history) : Q history := by
  induction history using List.reverseRecOn with
  | nil => exact hnil
  | append_singleton history last ih =>
    rw [append_singleton_iff] at h
    exact hstep history last (ih h.1) h.2

section

variable {σ : Type} {step : σ → α → σ} {init : σ} {I Q : σ → Prop} {C : σ → α → Prop} {W : α → Prop}

theorem foldl_invariant (hinit : Q init) (hstep : ∀ s a, Q s → W a → C s a → Q (step s a))
    {history : List α} (hW : ∀ a ∈ history, W a)
    (h : Throughout (fun past a => C (past.foldl step init) a) history)
    : Q (history.foldl step init) := by
  induction history using List.reverseRecOn with
  | nil => exact hinit
  | append_singleton history last ih =>
    rw [append_singleton_iff] at h
    rw [List.foldl_append]
    have hlast : W last := by
      apply hW
      simp
    apply hstep _ last (ih _ h.1) hlast h.2
    intro a ha
    apply hW
    simp [ha]

/--
Where `C` is what a step needs to keep `Q`, the machine keeps `Q` if and only if every step meets `C`.
-/
theorem foldl_iff (hinit : Q init)
    (hstep : ∀ s a, I s → Q s → W a → (Q (step s a) ↔ C s a))
    {history : List α} (hI : ∀ past, past <+: history → I (past.foldl step init))
    (hW : ∀ a ∈ history, W a)
    : (∀ past, past <+: history → Q (past.foldl step init))
        ↔
      Throughout (fun past a => C (past.foldl step init) a) history := by
  constructor
  . intro h past a rest heq
    have hpre : past ++ [a] <+: history := ⟨rest, by simp [heq]⟩
    have hpast := (List.prefix_append past [a]).trans hpre
    have hnext := h (past ++ [a]) hpre
    rw [List.foldl_append] at hnext
    exact (hstep _ a (hI past hpast) (h past hpast) (hW a (hpre.subset (by simp)))).mp hnext
  . intro h past hpre
    induction past using List.reverseRecOn with
    | nil => exact hinit
    | append_singleton past a ih =>
      have hpast := (List.prefix_append past [a]).trans hpre
      have ha := hW a (hpre.subset (by simp))
      obtain ⟨rest, heq⟩ := hpre
      rw [List.foldl_append]
      exact (hstep _ a (hI past hpast) (ih hpast) ha).mpr (h past a rest (by simp [← heq]))

end

end Throughout

/--
Whenever `L` takes something away, a later `R` gives it back.
-/
def Recovered {α : Type} (L R : List α → α → Prop) (history : List α) : Prop :=
  ∀ before a after, history = before ++ a :: after → L before a →
    ∃ between b rest, after = between ++ b :: rest ∧ R (before ++ a :: between) b

namespace Recovered

variable {α : Type} {L R : List α → α → Prop}

@[simp]
theorem nil : Recovered L R [] := by
  intro before a after h
  simp at h

theorem append_singleton_iff (history : List α) (last : α)
    : Recovered L R (history ++ [last])
        ↔
      ¬L history last ∧ (R history last ∨ Recovered L R history) := by
  constructor
  . intro h
    constructor
    . intro hlast
      obtain ⟨between, b, rest, heq, -⟩ := h history last [] rfl hlast
      simp at heq
    . rw [or_iff_not_imp_left]
      intro hR before a after heq hL
      obtain ⟨between, b, rest, hafter, hb⟩ := h before a (after ++ [last]) (by simp [heq]) hL
      rcases append_singleton_eq_append_cons hafter with ⟨rfl, rfl, -⟩ | ⟨rest, -, hafter⟩
      . exact absurd (heq ▸ hb) hR
      . exact ⟨between, b, rest, hafter, hb⟩
  . rintro ⟨hlast, h⟩ before a after heq hL
    rcases append_singleton_eq_append_cons heq with ⟨rfl, rfl, -⟩ | ⟨rest, rfl, rfl⟩
    . exact absurd hL hlast
    rcases h with h | h
    . exact ⟨rest, last, [], rfl, h⟩
    . obtain ⟨between, b, rest', rfl, hb⟩ := h before a rest rfl hL
      exact ⟨between, b, rest' ++ [last], by simp, hb⟩

theorem foldl_iff {σ : Type} {step : σ → α → σ} {init : σ} {Q : σ → Prop} {L R : σ → α → Prop}
    (hinit : Q init) (hstep : ∀ s a, Q (step s a) ↔ ¬L s a ∧ (R s a ∨ Q s)) (history : List α)
    : Q (history.foldl step init)
        ↔
      Recovered (fun past => L (past.foldl step init)) (fun past => R (past.foldl step init))
        history := by
  induction history using List.reverseRecOn with
  | nil => simpa using hinit
  | append_singleton history last ih =>
    rw [List.foldl_append, List.foldl_cons, List.foldl_nil, hstep, ih, append_singleton_iff]

end Recovered

/--
Some `R` has given it, and no `L` has taken it away since.
-/
def Standing {α : Type} (L : α → Prop) (R : List α → α → Prop) (history : List α) : Prop :=
  ∃ before a after, history = before ++ a :: after ∧ R before a ∧ ∀ b ∈ after, ¬L b

namespace Standing

variable {α : Type} {L : α → Prop} {R : List α → α → Prop}

theorem append_singleton_iff (history : List α) (last : α)
    : Standing L R (history ++ [last]) ↔ R history last ∨ Standing L R history ∧ ¬L last := by
  constructor
  . rintro ⟨before, a, after, heq, ha, hafter⟩
    rcases append_singleton_eq_append_cons heq with ⟨rfl, rfl, -⟩ | ⟨rest, rfl, hhistory⟩
    . exact .inl ha
    . refine .inr ⟨⟨before, a, rest, hhistory, ha, ?_⟩, hafter last (by simp)⟩
      intro b hb
      exact hafter b (by simp [hb])
  . rintro (hlast | ⟨⟨before, a, after, rfl, ha, hafter⟩, hlast⟩)
    . exact ⟨history, last, [], rfl, hlast, by simp⟩
    . refine ⟨before, a, after ++ [last], by simp, ha, ?_⟩
      intro b hb
      rw [List.mem_append, List.mem_singleton] at hb
      rcases hb with hb | rfl
      . exact hafter b hb
      . exact hlast

theorem foldl_iff {σ : Type} {step : σ → α → σ} {init : σ} {Q : σ → Prop} {R : σ → α → Prop}
    {W : α → Prop} (hinit : ¬Q init)
    (hstep : ∀ s a, W a → (Q (step s a) ↔ R s a ∨ Q s ∧ ¬L a)) {history : List α}
    (hW : ∀ a ∈ history, W a)
    : Q (history.foldl step init) ↔ Standing L (fun past => R (past.foldl step init)) history := by
  induction history using List.reverseRecOn with
  | nil =>
    rw [List.foldl_nil]
    refine ⟨fun h => absurd h hinit, ?_⟩
    rintro ⟨before, a, after, heq, -⟩
    simp at heq
  | append_singleton history last ih =>
    have hpast : ∀ a ∈ history, W a := by
      intro a ha
      exact hW a (by simp [ha])
    rw [List.foldl_append, List.foldl_cons, List.foldl_nil, hstep _ last (hW last (by simp)),
      ih hpast, append_singleton_iff]

end Standing

theorem exists_last {α : Type} {P : α → Prop} {history : List α} (h : ∃ a ∈ history, P a)
    : ∃ before a after, history = before ++ a :: after ∧ P a ∧ ∀ b ∈ after, ¬P b := by
  induction history using List.reverseRecOn with
  | nil => simp at h
  | append_singleton history last ih =>
    by_cases hlast : P last
    . exact ⟨history, last, [], rfl, hlast, by simp⟩
    . obtain ⟨a, ha, hP⟩ := h
      rw [List.mem_append, List.mem_singleton] at ha
      rcases ha with ha | rfl
      . obtain ⟨before, a, after, rfl, hP, hafter⟩ := ih ⟨a, ha, hP⟩
        refine ⟨before, a, after ++ [last], by simp, hP, ?_⟩
        intro b hb
        rw [List.mem_append, List.mem_singleton] at hb
        rcases hb with hb | rfl
        . exact hafter b hb
        . exact hlast
      . exact absurd hP hlast

theorem exists_last_of_mem {α : Type} {a : α} {history : List α} (h : a ∈ history)
    : ∃ before after, history = before ++ a :: after ∧ a ∉ after := by
  obtain ⟨before, b, after, heq, rfl, hafter⟩ := exists_last (P := fun b => b = a) ⟨a, h, rfl⟩
  exact ⟨before, after, heq, fun hb => hafter b hb rfl⟩

theorem mem_of_last {α : Type} {a b : α} {before before' after after' : List α}
    (h : before ++ a :: after = before' ++ b :: after') (hne : a ≠ b) (hafter : b ∉ after)
    : a ∈ after' := by
  rw [List.append_eq_append_iff] at h
  rcases h with ⟨c, rfl, hc⟩ | ⟨c, rfl, hc⟩
  . cases c with
    | nil =>
      rw [List.nil_append, List.cons.injEq] at hc
      exact absurd hc.1 hne
    | cons c cs =>
      rw [List.cons_append, List.cons.injEq] at hc
      rw [hc.2] at hafter
      simp at hafter
  . cases c with
    | nil =>
      rw [List.nil_append, List.cons.injEq] at hc
      exact absurd hc.1.symm hne
    | cons c cs =>
      rw [List.cons_append, List.cons.injEq] at hc
      rw [hc.2]
      simp

theorem last_unique {α : Type} {a : α} {before before' after after' : List α}
    (h : before ++ a :: after = before' ++ a :: after') (hafter : a ∉ after) (hafter' : a ∉ after')
    : before = before' ∧ after = after' := by
  rw [List.append_eq_append_iff] at h
  rcases h with ⟨c, rfl, hc⟩ | ⟨c, rfl, hc⟩
  . cases c with
    | nil => simpa using hc
    | cons b c =>
      rw [List.cons_append, List.cons.injEq] at hc
      exfalso
      apply hafter
      rw [hc.2]
      simp
  . cases c with
    | nil => simpa using hc.symm
    | cons b c =>
      rw [List.cons_append, List.cons.injEq] at hc
      exfalso
      apply hafter'
      rw [hc.2]
      simp
