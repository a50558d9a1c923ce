import SkynetAoi.Caoi.Map
import SkynetAoi.Lib.Linked

/-!
This module contains the invariant of the object map: the occupied slots with the same main position
form one chain that starts at this position.
-/

namespace Caoi
namespace Map

def slotAt (m : Map) (i : Nat) : MapSlot :=
  m.slot.getD i emptySlot

def next (m : Map) (i : Nat) : Int :=
  (m.slotAt i).next

def Occupied (m : Map) (i : Nat) : Prop :=
  (m.slotAt i).id ≠ invalidId

structure IsChain (m : Map) (h : Nat) (c : List Nat) : Prop where
  linked : c = [] ∨ Linked m.next h c
  nodup : c.Nodup
  mem : ∀ (i : Nat), i ∈ c ↔ m.Occupied i ∧ mainposition m (m.slotAt i).id = h

structure WF (m : Map) : Prop where
  length : m.slot.length = m.size
  pow : ∃ k, m.size = 2 ^ k
  neg_one_le : -1 ≤ m.lastfree
  lastfree_lt : m.lastfree < m.size
  occupied : ∀ (i : Nat), i < m.size → m.lastfree < i → m.Occupied i
  free : ∀ (i : Nat), ¬m.Occupied i → m.slotAt i = emptySlot
  inj : ∀ (i j : Nat), m.Occupied i → (m.slotAt i).id = (m.slotAt j).id → i = j
  chain : ∀ (h : Nat), h < m.size → ∃ c, m.IsChain h c

-- The object that is stored for an id, a slot that keeps its id without an object stores none.
def Stores (m : Map) (id : UInt32) (addr : Nat) : Prop :=
  ∃ i, (m.slotAt i).id = id ∧ (m.slotAt i).obj = some addr

def Has (m : Map) (id : UInt32) : Prop :=
  ∃ i, (m.slotAt i).id = id

theorem slotAt_setSlot {m : Map} {i : Nat} (hi : i < m.slot.length) (s : MapSlot) (j : Nat)
    : (m.setSlot i s).slotAt j = if j = i then s else m.slotAt j := by
  unfold slotAt setSlot
  simp only [List.getD_eq_getElem?_getD, List.getElem?_set]
  split
  . next heq =>
    subst heq
    simp
  . next hne =>
    have : j ≠ i := by omega
    simp [this]

theorem getElem?_eq_slotAt {m : Map} {i : Nat} (hi : i < m.slot.length)
    : m.slot[i]? = some (m.slotAt i) := by
  unfold slotAt
  simp [hi]

theorem lt_length_of_occupied {m : Map} {i : Nat} (h : m.Occupied i) : i < m.slot.length := by
  apply Nat.lt_of_not_le
  intro hle
  apply h
  simp [slotAt, List.getElem?_eq_none hle, emptySlot]

@[simp]
theorem setSlot_size (m : Map) (i : Nat) (s : MapSlot) : (m.setSlot i s).size = m.size := rfl

@[simp]
theorem setSlot_length (m : Map) (i : Nat) (s : MapSlot)
    : (m.setSlot i s).slot.length = m.slot.length := by
  simp [setSlot]

namespace IsChain

variable {m m' : Map} {h : Nat} {c : List Nat}

theorem linked_of_mem (hc : m.IsChain h c) {i : Nat} (hi : i ∈ c) : Linked m.next h c := by
  cases hc.linked with
  | inl hnil =>
    rw [hnil] at hi
    simp at hi
  | inr hlinked => exact hlinked

theorem head_mem (hc : m.IsChain h c) {i : Nat} (hi : i ∈ c) : h ∈ c := by
  have := (hc.linked_of_mem hi).mem_of_nonneg (by omega)
  simpa using this

theorem eq_nil (hc : m.IsChain h c)
    (hh : ¬(m.Occupied h ∧ mainposition m (m.slotAt h).id = h)) : c = [] := by
  apply List.eq_nil_iff_forall_not_mem.mpr
  intro i hi
  apply hh
  rw [← hc.mem]
  exact hc.head_mem hi

theorem length_le (hc : m.IsChain h c) : c.length ≤ m.slot.length := by
  have hsub : c ⊆ List.range m.slot.length := by
    intro i hi
    rw [List.mem_range]
    apply lt_length_of_occupied
    exact ((hc.mem i).mp hi).1
  have := (List.subperm_of_subset hc.nodup hsub).length_le
  simpa using this

theorem congr (hc : m.IsChain h c)
    (hnext : ∀ i ∈ c, m'.next i = m.next i)
    (hmem : ∀ i, (m'.Occupied i ∧ mainposition m' (m'.slotAt i).id = h)
      ↔ (m.Occupied i ∧ mainposition m (m.slotAt i).id = h))
    : m'.IsChain h c where
  linked := by
    cases hc.linked with
    | inl hnil => exact Or.inl hnil
    | inr hlinked => exact Or.inr (hlinked.congr hnext)
  nodup := hc.nodup
  mem := by
    intro i
    rw [hmem]
    exact hc.mem i

end IsChain

namespace WF

variable {m : Map}

theorem size_pos (hm : m.WF) : 0 < m.size := by
  obtain ⟨k, hk⟩ := hm.pow
  rw [hk]
  exact Nat.two_pow_pos k

theorem mainposition_lt (hm : m.WF) (id : UInt32) : mainposition m id < m.size := by
  have hle : id.toNat &&& (m.size - 1) ≤ m.size - 1 := Nat.and_le_right
  have := hm.size_pos
  unfold mainposition
  omega

theorem lt_size_of_occupied (hm : m.WF) {i : Nat} (h : m.Occupied i) : i < m.size := by
  rw [← hm.length]
  exact lt_length_of_occupied h

theorem getElem? (hm : m.WF) {i : Nat} (hi : i < m.size) : m.slot[i]? = some (m.slotAt i) := by
  apply getElem?_eq_slotAt
  rw [hm.length]
  exact hi

theorem slotAt_set (hm : m.WF) {i : Nat} (hi : i < m.size) (s : MapSlot) (j : Nat)
    : (m.setSlot i s).slotAt j = if j = i then s else m.slotAt j := by
  apply slotAt_setSlot
  rw [hm.length]
  exact hi

theorem main_occupied (hm : m.WF) {i : Nat} (hi : m.Occupied i)
    : m.Occupied (mainposition m (m.slotAt i).id)
        ∧ mainposition m (m.slotAt (mainposition m (m.slotAt i).id)).id
            =
          mainposition m (m.slotAt i).id := by
  obtain ⟨c, hc⟩ := hm.chain _ (hm.mainposition_lt (m.slotAt i).id)
  have hmem : i ∈ c := by
    rw [hc.mem]
    exact ⟨hi, rfl⟩
  rw [← hc.mem]
  exact hc.head_mem hmem

end WF
end Map
end Caoi
