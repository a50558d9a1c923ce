import Mathlib.Data.Finset.Card
import Mathlib.Data.Finset.Range
import Mathlib.Data.List.Basic

/-!
This module contains a heap of cells that are reached through addresses. An address that was handed
out once is never handed out again, so a pointer to a released cell dangles for ever: to read it, to
write it or to release it once more is `none`.
-/

structure Heap (α : Type) where
  cell : Nat → Option α
  brk : Nat
  fresh : ∀ (addr : Nat), brk ≤ addr → cell addr = none

namespace Heap

variable {α : Type}

def empty : Heap α where
  cell := fun _ => none
  brk := 0
  fresh := by intros; rfl

def get (heap : Heap α) (addr : Nat) : Option α := heap.cell addr

def alloc (heap : Heap α) (val : α) : Heap α × Nat :=
  let cell := fun addr => if addr = heap.brk then some val else heap.cell addr
  let fresh := by
    intro addr haddr
    have : addr ≠ heap.brk := by omega
    simp only [cell, this, ↓reduceIte]
    apply heap.fresh
    omega
  (⟨cell, heap.brk + 1, fresh⟩, heap.brk)

def write (heap : Heap α) (addr : Nat) (val : α) : Option (Heap α) :=
  if h : (heap.cell addr).isSome then
    let cell := fun a => if a = addr then some val else heap.cell a
    let fresh := by
      intro a ha
      have hne : a ≠ addr := by
        intro heq
        rw [← heq, heap.fresh a ha] at h
        simp at h
      simp only [cell, hne, ↓reduceIte]
      apply heap.fresh
      exact ha
    some ⟨cell, heap.brk, fresh⟩
  else
    none

def free (heap : Heap α) (addr : Nat) : Option (Heap α) :=
  if (heap.cell addr).isSome then
    let cell := fun a => if a = addr then none else heap.cell a
    let fresh := by
      intro a ha
      simp only [cell]
      split
      . rfl
      . apply heap.fresh
        exact ha
    some ⟨cell, heap.brk, fresh⟩
  else
    none

theorem get_brk (heap : Heap α) : heap.get heap.brk = none := by
  apply heap.fresh
  omega

theorem get_alloc (heap : Heap α) (val : α) (addr : Nat)
    : (heap.alloc val).1.get addr = if addr = heap.brk then some val else heap.get addr := rfl

@[simp]
theorem alloc_addr (heap : Heap α) (val : α) : (heap.alloc val).2 = heap.brk := rfl

theorem write_of_get {heap : Heap α} {addr : Nat} {old : α} (h : heap.get addr = some old) (val : α)
    : ∃ heap', heap.write addr val = some heap'
        ∧ ∀ a, heap'.get a = if a = addr then some val else heap.get a := by
  have hsome : (heap.cell addr).isSome := by
    rw [get] at h
    rw [h]
    rfl
  simp only [write, hsome, ↓reduceDIte]
  refine ⟨_, rfl, ?_⟩
  intro a
  rfl

theorem free_of_get {heap : Heap α} {addr : Nat} {old : α} (h : heap.get addr = some old)
    : ∃ heap', heap.free addr = some heap'
        ∧ ∀ a, heap'.get a = if a = addr then none else heap.get a := by
  have hsome : (heap.cell addr).isSome := by
    rw [get] at h
    rw [h]
    rfl
  simp only [free, hsome, ↓reduceIte]
  refine ⟨_, rfl, ?_⟩
  intro a
  rfl

theorem get_of_write {heap heap' : Heap α} {addr : Nat} {val : α}
    (h : heap.write addr val = some heap')
    : (∃ old, heap.get addr = some old)
        ∧ ∀ a, heap'.get a = if a = addr then some val else heap.get a := by
  unfold write at h
  split at h
  . next hsome =>
    rw [Option.some.injEq] at h
    rw [← h]
    refine ⟨Option.isSome_iff_exists.mp hsome, ?_⟩
    intro a
    rfl
  . simp at h

theorem get_of_free {heap heap' : Heap α} {addr : Nat} (h : heap.free addr = some heap')
    : (∃ old, heap.get addr = some old)
        ∧ ∀ a, heap'.get a = if a = addr then none else heap.get a := by
  unfold free at h
  split at h
  . next hsome =>
    rw [Option.some.injEq] at h
    rw [← h]
    refine ⟨Option.isSome_iff_exists.mp hsome, ?_⟩
    intro a
    rfl
  . simp at h

def live (heap : Heap α) : Finset Nat :=
  (Finset.range heap.brk).filter fun addr => (heap.get addr).isSome

theorem mem_live (heap : Heap α) (addr : Nat)
    : addr ∈ heap.live ↔ ∃ val, heap.get addr = some val := by
  unfold live
  rw [Finset.mem_filter, Finset.mem_range, Option.isSome_iff_exists]
  constructor
  . intro h
    exact h.2
  . rintro ⟨val, h⟩
    refine ⟨?_, val, h⟩
    apply Nat.lt_of_not_le
    intro hle
    have := heap.fresh addr hle
    rw [get, this] at h
    simp at h

theorem card_live_alloc (heap : Heap α) (val : α)
    : (heap.alloc val).1.live.card = heap.live.card + 1 := by
  have hnot : heap.brk ∉ heap.live := by
    rw [mem_live, get_brk]
    simp
  rw [← Finset.card_insert_of_notMem hnot]
  congr 1
  ext addr
  rw [Finset.mem_insert, mem_live, mem_live, get_alloc]
  split
  . next heq => simp [heq]
  . next hne => simp [hne]

theorem card_live_write {heap heap' : Heap α} {addr : Nat} {val : α}
    (h : heap.write addr val = some heap') : heap'.live.card = heap.live.card := by
  obtain ⟨⟨old, hold⟩, hget⟩ := get_of_write h
  congr 1
  ext a
  rw [mem_live, mem_live, hget]
  split
  . next heq => simp [heq, hold]
  . rfl

theorem card_live_free {heap heap' : Heap α} {addr : Nat} (h : heap.free addr = some heap')
    : heap'.live.card + 1 = heap.live.card := by
  obtain ⟨hold, hget⟩ := get_of_free h
  have hmem : addr ∈ heap.live := by
    rw [mem_live]
    exact hold
  have hlive : heap'.live = heap.live.erase addr := by
    ext a
    rw [Finset.mem_erase, mem_live, mem_live, hget]
    split
    . next heq => simp [heq]
    . next hne => simp [hne]
  rw [hlive, Finset.card_erase_add_one hmem]

end Heap
