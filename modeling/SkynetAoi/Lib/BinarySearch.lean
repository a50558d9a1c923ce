import Mathlib.Data.List.Basic
import Mathlib.Data.List.Pairwise

/-!
This module contains the binary search over a sorted array, with both of its bounds inside the array.
It ends with the element or with the place where the element belongs.
-/

namespace BinarySearch

variable {α : Type}

-- `none` is an access outside of the array, or a loop that goes on.
def loop (compareAt : α → Ordering) (l : List α) (fuel : Nat) (first last : Int)
    : Option (Except Nat α) :=
  match fuel with
  | 0 => none
  | fuel + 1 =>
    if first ≤ last then
      let mid := (first + last) / 2
      match l[mid.toNat]? with
      | none => none
      | some a =>
        match compareAt a with
        | .eq => some (.ok a)
        | .lt => loop compareAt l fuel (mid + 1) last
        | .gt => loop compareAt l fuel first (mid - 1)
    else
      some (.error first.toNat)

def search (compareAt : α → Ordering) (l : List α) : Option (Except Nat α) :=
  loop compareAt l (l.length + 1) 0 (l.length - 1)

def Sorted (compareAt : α → Ordering) (l : List α) : Prop :=
  l.Pairwise fun a b => (compareAt b ≠ .gt → compareAt a = .lt) ∧ (compareAt a ≠ .lt → compareAt b = .gt)

def Finds (compareAt : α → Ordering) (l : List α) (r : Except Nat α) : Prop :=
  match r with
  | .ok a => a ∈ l ∧ compareAt a = .eq
  | .error i =>
    i ≤ l.length ∧ (∀ a ∈ l.take i, compareAt a = .lt) ∧ ∀ a ∈ l.drop i, compareAt a = .gt

section

variable {compareAt : α → Ordering} {l : List α} (hl : Sorted compareAt l) {mid : Nat} {a : α}
  (hmid : l[mid]? = some a)

include hl hmid

theorem Sorted.take_of_lt (ha : compareAt a = .lt) : ∀ b ∈ l.take (mid + 1), compareAt b = .lt := by
  intro b hb
  obtain ⟨i, hi, rfl⟩ := List.mem_take_iff_getElem.mp hb
  obtain ⟨hlt, rfl⟩ := List.getElem?_eq_some_iff.mp hmid
  rcases Nat.lt_or_eq_of_le (by omega : i ≤ mid) with himid | rfl
  . exact (List.pairwise_iff_getElem.mp hl i mid (by omega) hlt himid).1 (by simp [ha])
  . exact ha

theorem Sorted.drop_of_gt (ha : compareAt a = .gt) : ∀ b ∈ l.drop mid, compareAt b = .gt := by
  intro b hb
  obtain ⟨i, hi, rfl⟩ := List.mem_drop_iff_getElem.mp hb
  obtain ⟨hlt, rfl⟩ := List.getElem?_eq_some_iff.mp hmid
  rcases Nat.eq_zero_or_pos i with rfl | hpos
  . exact ha
  . exact (List.pairwise_iff_getElem.mp hl mid (mid + i) hlt (by omega) (by omega)).2 (by simp [ha])

end

section

variable {compareAt : α → Ordering} {l : List α} (hl : Sorted compareAt l)

include hl

theorem Sorted.loop {fuel : Nat} {first last : Int} (hfirst : 0 ≤ first) (hle : first ≤ last + 1)
    (hlast : last < l.length) (hfuel : last + 1 - first < fuel)
    (hsmall : ∀ a ∈ l.take first.toNat, compareAt a = .lt)
    (hbig : ∀ a ∈ l.drop (last + 1).toNat, compareAt a = .gt)
    : ∃ r, BinarySearch.loop compareAt l fuel first last = some r ∧ Finds compareAt l r := by
  induction fuel generalizing first last with
  | zero => omega
  | succ fuel ih =>
    rw [BinarySearch.loop]
    split
    . next hgo =>
      have hmid : ((first + last) / 2).toNat < l.length := by omega
      have hget := List.getElem?_eq_getElem hmid
      generalize l[((first + last) / 2).toNat] = a at hget
      dsimp only
      rw [hget]
      dsimp only
      split
      . next ha => exact ⟨.ok a, rfl, List.mem_of_getElem? hget, ha⟩
      . next ha =>
        have htake := hl.take_of_lt hget ha
        rw [show ((first + last) / 2).toNat + 1 = ((first + last) / 2 + 1).toNat by omega] at htake
        exact ih (by omega) (by omega) hlast (by omega) htake hbig
      . next ha =>
        have hdrop := hl.drop_of_gt hget ha
        rw [show ((first + last) / 2).toNat = ((first + last) / 2 - 1 + 1).toNat by omega] at hdrop
        exact ih hfirst (by omega) (by omega) (by omega) hsmall hdrop
    . next hend =>
      have heq : (last + 1).toNat = first.toNat := by omega
      rw [heq] at hbig
      exact ⟨.error first.toNat, rfl, by omega, hsmall, hbig⟩

theorem Sorted.search : ∃ r, search compareAt l = some r ∧ Finds compareAt l r := by
  apply hl.loop
  . omega
  . omega
  . omega
  . omega
  . simp
  . simp

end

section

variable {κ : Type} {cmp : κ → κ → Ordering} [Std.TransCmp cmp] {key : α → κ} {l : List α}

def Increasing (cmp : κ → κ → Ordering) (key : α → κ) (l : List α) : Prop :=
  l.Pairwise fun a b => cmp (key a) (key b) = .lt

theorem Increasing.sorted (h : Increasing cmp key l) (k : κ) : Sorted (fun a => cmp (key a) k) l := by
  apply h.imp
  intro a b hab
  constructor
  . intro hb
    exact Std.TransCmp.lt_of_lt_of_isLE hab (by rwa [← Ordering.ne_gt_iff_isLE])
  . intro ha
    rw [Std.OrientedCmp.gt_iff_lt]
    have hle : (cmp k (key a)).isLE = true := by
      rw [← Ordering.ne_gt_iff_isLE, Std.OrientedCmp.gt_iff_lt]
      exact ha
    exact Std.TransCmp.lt_of_isLE_of_lt hle hab

theorem Increasing.insert (h : Increasing cmp key l) {i : Nat} {a : α}
    (hsmall : ∀ b ∈ l.take i, cmp (key b) (key a) = .lt)
    (hbig : ∀ b ∈ l.drop i, cmp (key b) (key a) = .gt)
    : Increasing cmp key (l.take i ++ a :: l.drop i) := by
  have hcut := h
  rw [Increasing, ← List.take_append_drop i l, List.pairwise_append] at hcut
  rw [Increasing, List.pairwise_append, List.pairwise_cons]
  refine ⟨hcut.1, ⟨?_, hcut.2.1⟩, ?_⟩
  . intro b hb
    rw [← Std.OrientedCmp.gt_iff_lt]
    exact hbig b hb
  . intro b hb c hc
    rcases List.mem_cons.mp hc with rfl | hc
    . exact hsmall b hb
    . exact hcut.2.2 b hb c hc

end

end BinarySearch
