import Mathlib.Data.Prod.Basic

/-!
This module contains Feistel networks. Whatever the function of a round is, the same rounds in the other
order undo them once the halves are swapped.
-/

namespace Feistel

variable {α κ : Type} (op : α → α → α) (f : κ → α → α)

def rounds (keys : List κ) (b : α × α) : α × α :=
  match keys with
  | [] => b
  | k :: keys => rounds keys (b.2, op b.1 (f k b.2))

theorem rounds_append (keys keys' : List κ) (b : α × α)
    : rounds op f (keys ++ keys') b = rounds op f keys' (rounds op f keys b) := by
  induction keys generalizing b with
  | nil => rfl
  | cons k keys ih => exact ih _

theorem rounds_reverse_swap (hop : ∀ a b, op (op a b) b = a) (keys : List κ) (b : α × α)
    : rounds op f keys.reverse (rounds op f keys b).swap = b.swap := by
  induction keys generalizing b with
  | nil => rfl
  | cons k keys ih =>
    have hrest := ih (b.2, op b.1 (f k b.2))
    rw [List.reverse_cons, rounds_append]
    change rounds op f [k] (rounds op f keys.reverse (rounds op f keys _).swap) = b.swap
    rw [hrest]
    simp only [rounds, Prod.fst_swap, Prod.snd_swap, hop]
    rfl

end Feistel
