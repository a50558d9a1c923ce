import Mathlib.Data.List.Perm.Basic

/-!
This module contains the order in which a walk visits the keys of a table. It is any order, the walk
only comes to every key once.
-/

structure PairsOrder (Key : Type) where
  arrange : List Key → List Key
  perm : ∀ (ks : List Key), (arrange ks).Perm ks

def PairsOrder.inserted (Key : Type) : PairsOrder Key where
  arrange := fun ks => ks
  perm := List.Perm.refl
