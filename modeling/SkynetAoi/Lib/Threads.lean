import Mathlib.Data.List.Perm.Basic

/-!
This module contains lists of suspended calls, one of which goes on.
-/

variable {α : Type} {l : List α} {n : Nat} {a : α}

theorem perm_of_getElem? (h : l[n]? = some a) : l.Perm (a :: l.eraseIdx n) := by
  obtain ⟨hn, rfl⟩ := List.getElem?_eq_some_iff.mp h
  exact (List.getElem_cons_eraseIdx_perm hn).symm

theorem set_perm_of_getElem? (h : l[n]? = some a) (b : α) : (l.set n b).Perm (b :: l.eraseIdx n) := by
  obtain ⟨hn, -⟩ := List.getElem?_eq_some_iff.mp h
  have hset : (l.set n b)[n]? = some b := List.getElem?_set_self hn
  have := perm_of_getElem? hset
  rwa [List.eraseIdx_set_eq] at this
