import Mathlib.Data.List.Basic

/-!
This module contains interleavings of events. Every event touches some keys and events that share no
key are independent of each other. Two lists that agree on every key are two interleavings of the
same events, and a machine on which independent events commute does not tell them apart.
-/

namespace Interleave

variable {α κ σ : Type} {touches : κ → α → Bool}

/--
For each key the same events, in the same order.
-/
def SameOrder (touches : κ → α → Bool) (l l' : List α) : Prop :=
  ∀ (k : κ), l.filter (touches k) = l'.filter (touches k)

def Independent (touches : κ → α → Bool) (a b : α) : Prop :=
  ∀ (k : κ), touches k a = true → touches k b = false

theorem SameOrder.mem {l l' : List α} (h : SameOrder touches l l')
    (htouch : ∀ a, ∃ k, touches k a = true) {a : α} (ha : a ∈ l) : a ∈ l' := by
  obtain ⟨k, hk⟩ := htouch a
  have : a ∈ l.filter (touches k) := by
    rw [List.mem_filter]
    exact ⟨ha, hk⟩
  rw [h k, List.mem_filter] at this
  exact this.1

theorem SameOrder.symm {l l' : List α} (h : SameOrder touches l l') : SameOrder touches l' l := by
  intro k
  rw [h k]

theorem SameOrder.cons_cases {a : α} {l l' : List α} (h : SameOrder touches (a :: l) l')
    (htouch : ∃ k, touches k a = true)
    : ∃ p q, l' = p ++ a :: q
        ∧ (∀ b ∈ p, Independent touches a b)
        ∧ SameOrder touches l (p ++ q) := by
  obtain ⟨k, hk⟩ := htouch
  have hsplit := h k
  rw [List.filter_cons_of_pos hk, eq_comm, List.filter_eq_cons_iff] at hsplit
  obtain ⟨p, q, rfl, hp, -, -⟩ := hsplit
  have hnot : a ∉ p := by
    intro ha
    exact hp a ha hk
  have hindep : ∀ b ∈ p, Independent touches a b := by
    intro b hb k' hk'
    have hfirst := h k'
    rw [List.filter_cons_of_pos hk', List.filter_append] at hfirst
    cases hpk : p.filter (touches k') with
    | nil =>
      rw [List.filter_eq_nil_iff] at hpk
      simpa using hpk b hb
    | cons c rest =>
      rw [hpk, List.cons_append, List.cons.injEq] at hfirst
      have hc : c ∈ p.filter (touches k') := by
        rw [hpk]
        simp
      rw [← hfirst.1] at hc
      exact absurd (List.mem_filter.mp hc).1 hnot
  refine ⟨p, q, rfl, hindep, ?_⟩
  intro k'
  have hk' := h k'
  rw [List.filter_append] at hk' ⊢
  cases htouch : touches k' a with
  | true =>
    have hpk : p.filter (touches k') = [] := by
      rw [List.filter_eq_nil_iff]
      intro b hb
      simp [hindep b hb k' htouch]
    rw [List.filter_cons_of_pos htouch, hpk, List.nil_append, List.filter_cons_of_pos htouch,
      List.cons.injEq] at hk'
    rw [hpk, List.nil_append, hk'.2]
  | false =>
    rw [List.filter_cons_of_neg (by simp [htouch]), List.filter_cons_of_neg (by simp [htouch])]
      at hk'
    exact hk'

section

variable {step : σ → α → σ}
  (hcomm : ∀ s a b, Independent touches a b → step (step s a) b = step (step s b) a)

include hcomm in
theorem foldl_move_front {a : α} {p : List α} (hp : ∀ b ∈ p, Independent touches a b) (q : List α)
    (s : σ) : (p ++ a :: q).foldl step s = (a :: (p ++ q)).foldl step s := by
  induction p generalizing s with
  | nil => rfl
  | cons b p ih =>
    have hab := hcomm s a b (hp b (by simp))
    rw [List.cons_append, List.foldl_cons, ih (by
      intro c hc
      apply hp
      simp [hc])]
    rw [List.cons_append, List.foldl_cons, List.foldl_cons, List.foldl_cons, hab]

include hcomm in
theorem SameOrder.foldl_eq (htouch : ∀ a, ∃ k, touches k a = true) {l l' : List α}
    (h : SameOrder touches l l') (s : σ) : l.foldl step s = l'.foldl step s := by
  induction l generalizing l' s with
  | nil =>
    have : l' = [] := by
      apply List.eq_nil_iff_forall_not_mem.mpr
      intro a ha
      have := h.symm.mem htouch ha
      simp at this
    rw [this]
  | cons a l ih =>
    obtain ⟨p, q, rfl, hp, hrest⟩ := h.cons_cases (htouch a)
    rw [foldl_move_front hcomm hp, List.foldl_cons, List.foldl_cons, ih hrest]

end

end Interleave
