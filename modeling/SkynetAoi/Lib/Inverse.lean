import Mathlib.Logic.Function.Basic

/-!
This module contains pairs of partial maps that are inverse to each other, with the changes that are
made to both of them at once.
-/

def Inverse {α β : Type} (f : α → Option β) (g : β → Option α) : Prop :=
  ∀ a b, f a = some b ↔ g b = some a

namespace Inverse

variable {α β : Type} {f : α → Option β} {g : β → Option α}

theorem empty : Inverse (fun _ : α => (none : Option β)) (fun _ : β => (none : Option α)) := by
  intro a b
  simp

theorem symm (h : Inverse f g) : Inverse g f := fun b a => (h a b).symm

theorem unique (h : Inverse f g) {b b' : β} {a : α} (hb : g b = some a) (hb' : g b' = some a)
    : b = b' := by
  rw [← h] at hb hb'
  rw [hb, Option.some.injEq] at hb'
  exact hb'

theorem eq_none (h : Inverse f g) {a : α} (ha : f a = none) (b : β) : g b ≠ some a := by
  rw [ne_eq, ← h, ha]
  simp

variable [DecidableEq α] [DecidableEq β]

theorem insert (h : Inverse f g) {a : α} {b : β} (ha : f a = none) (hb : g b = none)
    : Inverse (Function.update f a (some b)) (Function.update g b (some a)) := by
  intro a' b'
  by_cases haa : a' = a
  . by_cases hbb : b' = b
    . simp [haa, hbb]
    . have := h.eq_none ha b'
      simp [haa, hbb, Ne.symm hbb, this]
  . by_cases hbb : b' = b
    . have := h.symm.eq_none hb a'
      simp [haa, hbb, Ne.symm haa, this]
    . simp [haa, hbb, h a' b']

theorem erase (h : Inverse f g) {a : α} {b : β} (hab : g b = some a)
    : Inverse (Function.update f a none) (Function.update g b none) := by
  intro a' b'
  by_cases haa : a' = a
  . by_cases hbb : b' = b
    . simp [haa, hbb]
    . have : g b' ≠ some a := fun hb' => hbb (h.unique hb' hab)
      simp [haa, hbb, this]
  . by_cases hbb : b' = b
    . have : f a' ≠ some b := fun ha' => haa (h.symm.unique ha' ((h a b).mpr hab))
      simp [haa, hbb, this]
    . simp [haa, hbb, h a' b']

theorem replace (h : Inverse f g) {a top : α} {b n : β} (hab : g b = some a)
    (htop : g n = some top) (hne : top ≠ a)
    : Inverse (Function.update (Function.update f a none) top (some b))
        (Function.update (Function.update g n none) b (some top)) := by
  have hbn : n ≠ b := by
    rintro rfl
    rw [hab, Option.some.injEq] at htop
    exact hne htop.symm
  have htop' : Function.update g b none n = some top := by
    simp [hbn, htop]
  have hreplace := ((h.erase hab).erase htop').insert (a := top) (b := b) (by simp)
    (by simp [Ne.symm hbn])
  rwa [Function.update_idem, Function.update_comm hbn.symm, Function.update_idem] at hreplace

end Inverse
