import Mathlib.Data.List.AList

/-!
This module contains lists in which keys and values take turns, as they are sent to a server that
takes or returns any number of them, and the assignments that such a list stands for.
-/

variable {α : Type}

def alternating (pairs : List (α × α)) : List α :=
  pairs.flatMap fun pair => [pair.1, pair.2]

theorem alternating_map {β : Type} (f : α → β) (pairs : List (α × α))
    : (alternating pairs).map f = alternating (pairs.map (Prod.map f f)) := by
  induction pairs with
  | nil => rfl
  | cons pair pairs ih =>
    unfold alternating at ih ⊢
    simp [ih]

theorem length_alternating (pairs : List (α × α))
    : (alternating pairs).length = 2 * pairs.length := by
  induction pairs with
  | nil => rfl
  | cons pair pairs ih =>
    unfold alternating at ih ⊢
    rw [List.flatMap_cons, List.length_append, ih, List.length_cons]
    simp only [List.length_cons, List.length_nil]
    omega

variable [DecidableEq α]

-- A key without a value is taken out.
def assign (s : List α) (t : AList fun _ : α => α) : AList fun _ : α => α :=
  match s with
  | [] => t
  | [k] => t.erase k
  | k :: v :: s => assign s (t.insert k v)

namespace assign

variable {pairs : List (α × α)} {k : α}

theorem cons (pair : α × α) (pairs : List (α × α)) (t : AList fun _ : α => α)
    : assign (alternating (pair :: pairs)) t
        = assign (alternating pairs) (t.insert pair.1 pair.2) := rfl

theorem lookup_of_not_mem (h : k ∉ pairs.map Prod.fst) (t : AList fun _ : α => α)
    : (assign (alternating pairs) t).lookup k = t.lookup k := by
  induction pairs generalizing t with
  | nil => rfl
  | cons pair pairs ih =>
    rw [List.map_cons, List.mem_cons, not_or] at h
    rw [cons, ih h.2, AList.lookup_insert_ne h.1]

theorem lookup_of_mem {v : α} (hnodup : (pairs.map Prod.fst).Nodup) (h : (k, v) ∈ pairs)
    (t : AList fun _ : α => α) : (assign (alternating pairs) t).lookup k = some v := by
  induction pairs generalizing t with
  | nil => simp at h
  | cons pair pairs ih =>
    rw [List.map_cons, List.nodup_cons] at hnodup
    rw [cons]
    rcases List.mem_cons.mp h with rfl | h
    . rw [lookup_of_not_mem hnodup.1, AList.lookup_insert]
    . exact ih hnodup.2 h _

end assign
