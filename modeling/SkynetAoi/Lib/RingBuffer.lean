import Mathlib.Data.List.Basic
import Mathlib.Logic.Function.Basic

/-!
This module contains a queue in a ring of slots. When the last free slot is taken the ring is copied
into a larger one, so that it is empty if and only if its two ends are the same.
-/

structure RingBuffer (α : Type) where
  cap : Nat
  head : Nat
  tail : Nat
  slots : Nat → α

namespace RingBuffer

variable {α : Type}

def empty [Inhabited α] (cap : Nat) : RingBuffer α where
  cap := cap
  head := 0
  tail := 0
  slots := fun _ => default

def grow (r : RingBuffer α) (more : Nat) : RingBuffer α where
  cap := r.cap + more
  head := 0
  tail := r.cap
  slots := fun i => r.slots ((r.head + i) % r.cap)

def put (r : RingBuffer α) (a : α) : RingBuffer α :=
  { r with
    slots := Function.update r.slots r.tail a
    tail := if r.tail + 1 ≥ r.cap then r.tail + 1 - r.cap else r.tail + 1
  }

def push (r : RingBuffer α) (more : Nat) (a : α) : RingBuffer α :=
  let r := r.put a
  if r.head = r.tail then r.grow more else r

def pop (r : RingBuffer α) : Option (α × RingBuffer α) :=
  if r.head = r.tail then
    none
  else
    some (r.slots r.head, { r with head := if r.head + 1 ≥ r.cap then 0 else r.head + 1 })

def count (r : RingBuffer α) : Nat :=
  if r.head ≤ r.tail then r.tail - r.head else r.tail + r.cap - r.head

def popAll (fuel : Nat) (r : RingBuffer α) : List α × RingBuffer α :=
  match fuel with
  | 0 => ([], r)
  | fuel + 1 =>
    match r.pop with
    | none => ([], r)
    | some (a, r) =>
      let (as, r) := popAll fuel r
      (a :: as, r)

def index (r : RingBuffer α) (i : Nat) : Nat :=
  if r.head + i < r.cap then r.head + i else r.head + i - r.cap

def toList (r : RingBuffer α) : List α :=
  (List.range r.count).map fun i => r.slots (r.index i)

structure WF (r : RingBuffer α) : Prop where
  head : r.head < r.cap
  tail : r.tail < r.cap

theorem wf_empty [Inhabited α] {cap : Nat} (h : 0 < cap) : (empty cap : RingBuffer α).WF := ⟨h, h⟩

@[simp]
theorem toList_empty [Inhabited α] (cap : Nat) : (empty cap : RingBuffer α).toList = [] := by
  simp [toList, count, empty]

variable {r : RingBuffer α}

theorem WF.index_eq_mod (h : r.WF) {i : Nat} (hi : i < r.cap)
    : (r.head + i) % r.cap = r.index i := by
  have := h.head
  unfold index
  split
  . next hlt => exact Nat.mod_eq_of_lt hlt
  . next hge =>
    rw [Nat.mod_eq_sub_mod (by omega), Nat.mod_eq_of_lt (by omega)]

theorem WF.count_lt (h : r.WF) : r.count < r.cap := by
  have := h.head
  have := h.tail
  unfold count
  split
  . omega
  . omega

theorem WF.index_count (h : r.WF) : r.index r.count = r.tail := by
  have := h.head
  have := h.tail
  unfold index count
  split
  . split
    . omega
    . omega
  . split
    . omega
    . omega

theorem WF.index_ne_tail (h : r.WF) {i : Nat} (hi : i < r.count) : r.index i ≠ r.tail := by
  have := h.head
  have := h.tail
  unfold count at hi
  unfold index
  split
  . split at hi
    . omega
    . omega
  . split at hi
    . omega
    . omega

theorem toList_eq_nil_iff (h : r.WF) : r.toList = [] ↔ r.head = r.tail := by
  have := h.head
  have := h.tail
  simp only [toList, List.map_eq_nil_iff, List.range_eq_nil]
  unfold count
  split
  . omega
  . omega

theorem map_update (h : r.WF) (a : α)
    : (List.range (r.count + 1)).map (fun i => Function.update r.slots r.tail a (r.index i))
        = r.toList ++ [a] := by
  rw [List.range_succ, List.map_append, List.map_singleton, h.index_count, Function.update_self]
  congr 1
  apply List.map_congr_left
  intro i hi
  rw [Function.update_of_ne (h.index_ne_tail (List.mem_range.mp hi))]

theorem wf_put (h : r.WF) (a : α) : (r.put a).WF := by
  have := h.head
  have := h.tail
  refine ⟨h.head, ?_⟩
  simp only [put]
  split
  . omega
  . omega

theorem toList_put (h : r.WF) (a : α) (hfree : r.head ≠ (r.put a).tail)
    : (r.put a).toList = r.toList ++ [a] := by
  have hcount : (r.put a).count = r.count + 1 := by
    have := h.head
    have := h.tail
    simp only [put] at hfree
    simp only [put, count]
    split_ifs at hfree ⊢
    all_goals omega
  rw [← map_update h a, toList, hcount]
  rfl

theorem toList_grow_put (h : r.WF) (a : α) (hfull : r.head = (r.put a).tail) (more : Nat)
    : ((r.put a).grow more).toList = r.toList ++ [a] := by
  have hcap : r.count + 1 = r.cap := by
    have := h.head
    have := h.tail
    simp only [put] at hfull
    unfold count
    split_ifs at hfull ⊢
    all_goals omega
  have hcount : ((r.put a).grow more).count = r.cap := by simp [count, grow, put]
  rw [← map_update h a, toList, hcount, hcap]
  apply List.map_congr_left
  intro i hi
  rw [List.mem_range] at hi
  have hindex : ((r.put a).grow more).index i = i := by
    have hlt : i < r.cap + more := by omega
    simp [index, grow, put, hlt]
  rw [hindex, ← h.index_eq_mod hi]
  rfl

theorem push_spec (h : r.WF) {more : Nat} (hmore : 0 < more) (a : α)
    : (r.push more a).WF ∧ (r.push more a).toList = r.toList ++ [a] := by
  have hput := wf_put h a
  unfold push
  dsimp only
  split
  . next hfull =>
    refine ⟨⟨?_, ?_⟩, toList_grow_put h a hfull more⟩
    . have := hput.head
      simp only [grow]
      omega
    . simp only [grow]
      omega
  . next hfree => exact ⟨hput, toList_put h a hfree⟩

theorem pop_eq_none (h : r.WF) (hnil : r.toList = []) : r.pop = none := by
  rw [toList_eq_nil_iff h] at hnil
  simp [pop, hnil]

theorem pop_spec (h : r.WF) {a : α} {as : List α} (hcons : r.toList = a :: as)
    : ∃ r', r.pop = some (a, r') ∧ r'.WF ∧ r'.toList = as := by
  have hhead := h.head
  have htail := h.tail
  have hne : r.head ≠ r.tail := by
    rw [Ne, ← toList_eq_nil_iff h, hcons]
    simp
  obtain ⟨k, hk⟩ : ∃ k, r.count = k + 1 := by
    have := congrArg List.length hcons
    rw [toList, List.length_map, List.length_range, List.length_cons] at this
    exact ⟨_, this⟩
  rw [toList, hk, List.range_succ_eq_map, List.map_cons, List.cons.injEq, List.map_map] at hcons
  have hfirst : r.index 0 = r.head := by simp [index, hhead]
  rw [hfirst] at hcons
  refine ⟨{ r with head := if r.head + 1 ≥ r.cap then 0 else r.head + 1 }, ?_, ⟨?_, htail⟩, ?_⟩
  . rw [pop, if_neg hne, hcons.1]
  . dsimp only
    split_ifs
    all_goals omega
  . have hcount
        : ({ r with head := if r.head + 1 ≥ r.cap then 0 else r.head + 1 } : RingBuffer α).count
          = k := by
      unfold count at hk ⊢
      dsimp only
      split_ifs at hk ⊢
      all_goals omega
    rw [toList, hcount, ← hcons.2]
    apply List.map_congr_left
    intro i hi
    have hcount_lt := h.count_lt
    rw [List.mem_range] at hi
    have hindex
        : ({ r with head := if r.head + 1 ≥ r.cap then 0 else r.head + 1 } : RingBuffer α).index i
          = r.index (i + 1) := by
      unfold index
      dsimp only
      split_ifs
      all_goals omega
    rw [hindex]
    rfl

theorem popAll_spec (h : r.WF) (fuel : Nat) (hfuel : r.toList.length ≤ fuel)
    : (popAll fuel r).1 = r.toList ∧ (popAll fuel r).2.WF ∧ (popAll fuel r).2.toList = [] := by
  induction fuel generalizing r with
  | zero =>
    have hnil := List.eq_nil_of_length_eq_zero (Nat.le_zero.mp hfuel)
    exact ⟨hnil.symm, h, hnil⟩
  | succ fuel ih =>
    cases hlist : r.toList with
    | nil =>
      simp only [popAll, pop_eq_none h hlist]
      exact ⟨trivial, h, hlist⟩
    | cons a as =>
      obtain ⟨r', hpop, hwf, htail⟩ := pop_spec h hlist
      rw [hlist, List.length_cons] at hfuel
      obtain ⟨hall, hrest⟩ := ih hwf (by rw [htail]; omega)
      simp only [popAll, hpop]
      refine ⟨?_, hrest⟩
      rw [hall, htail]

theorem length_toList (r : RingBuffer α) : r.toList.length = r.count := by
  simp [toList]

end RingBuffer
