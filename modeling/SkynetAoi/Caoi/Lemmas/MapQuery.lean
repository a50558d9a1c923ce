import SkynetAoi.Caoi.Lemmas.MapInsert

/-!
This module contains the proofs about the operations of the object map that look an id up and about
the objects that `map_foreach` visits.
-/

namespace Caoi

namespace findSlot

variable {m : Map}

theorem walk (hm : m.WF) (id : UInt32) (c : List Nat) (fuel : Nat) (hfuel : c.length ≤ fuel) (start : Nat)
    (hlinked : Linked m.next start c) (hocc : ∀ i ∈ c, m.Occupied i)
    : (∃ i, findSlot m id fuel start = some (some i) ∧ (m.slotAt i).id = id)
        ∨ (findSlot m id fuel start = some none ∧ ∀ i ∈ c, (m.slotAt i).id ≠ id) := by
  induction c generalizing fuel start with
  | nil =>
    have := hlinked.mem_of_nonneg (by omega)
    simp at this
  | cons i c ih =>
    cases fuel with
    | zero => simp at hfuel
    | succ fuel =>
      have hstart : start = i := by
        have := hlinked.head_eq
        omega
      have hi := hm.lt_size_of_occupied (hocc i (by simp))
      simp only [findSlot]
      rw [hstart, hm.getElem? hi]
      dsimp only
      by_cases hid : (m.slotAt i).id = id
      . left
        refine ⟨i, ?_, hid⟩
        simp [hid]
      . by_cases hneg : (m.slotAt i).next < 0
        . have hnil : c = [] := hlinked.tail.eq_nil_of_neg hneg
          right
          subst hnil
          simp [hid, hneg]
        . simp only [hid, hneg, ↓reduceIte]
          have htail : Linked m.next (m.slotAt i).next.toNat c := by
            have : ((m.slotAt i).next.toNat : Int) = m.next i := by
              unfold Map.next
              omega
            rw [this]
            exact hlinked.tail
          cases ih fuel (by simpa using hfuel) _ htail (by intro j hj; apply hocc; simp [hj]) with
          | inl h => exact Or.inl h
          | inr h =>
            right
            refine ⟨h.1, ?_⟩
            intro j hj
            rw [List.mem_cons] at hj
            cases hj with
            | inl hj =>
              rw [hj]
              exact hid
            | inr hj => exact h.2 j hj

theorem spec (hm : m.WF) {id : UInt32} (hid : id ≠ invalidId)
    : (∃ i, findSlot m id m.size (mainposition m id) = some (some i) ∧ (m.slotAt i).id = id)
        ∨ (findSlot m id m.size (mainposition m id) = some none ∧ ¬m.Has id) := by
  have hlt := hm.mainposition_lt id
  have hmain : m.Has id → m.Occupied (mainposition m id)
      ∧ mainposition m (m.slotAt (mainposition m id)).id = mainposition m id := by
    rintro ⟨i, hi⟩
    have hocc : m.Occupied i := by
      unfold Map.Occupied
      rw [hi]
      exact hid
    have := hm.main_occupied hocc
    rw [hi] at this
    exact this
  by_cases hocc : m.Occupied (mainposition m id)
  . obtain ⟨c, hc⟩ := hm.chain _ (hm.mainposition_lt (m.slotAt (mainposition m id)).id)
    have hmem : mainposition m id ∈ c := by
      rw [hc.mem]
      exact ⟨hocc, rfl⟩
    have hlinked := hc.linked_of_mem hmem
    have hlen := hc.length_le
    rw [hm.length] at hlen
    obtain ⟨c1, c2, hsplit⟩ := List.append_of_mem hmem
    subst hsplit
    rw [List.length_append] at hlen
    cases walk hm id (mainposition m id :: c2) m.size (by omega) (mainposition m id)
      hlinked.suffix (by
        intro i hi
        apply ((hc.mem i).mp _).1
        rw [List.mem_append]
        exact Or.inr hi) with
    | inl h => exact Or.inl h
    | inr h =>
      refine Or.inr ⟨h.1, ?_⟩
      intro hhas
      have hown := (hmain hhas).2
      -- The walk started at the head of the chain, so it saw every slot with this main position.
      have hnil : c1 = [] := by
        cases c1 with
        | nil => rfl
        | cons j c1 =>
          have hhead := hlinked.head_eq
          have hnodup := hc.nodup
          rw [hown] at hhead
          have : j = mainposition m id := by omega
          subst this
          simp at hnodup
      subst hnil
      obtain ⟨i, hi⟩ := hhas
      apply h.2 i
      . rw [List.nil_append] at hc
        rw [hc.mem]
        unfold Map.Occupied
        rw [hi]
        exact ⟨hid, hown.symm⟩
      . exact hi
  . right
    constructor
    . have hsize := hm.size_pos
      have : m.size = m.size - 1 + 1 := by omega
      rw [this]
      simp only [findSlot]
      rw [hm.getElem? hlt, hm.free _ hocc]
      simp [emptySlot, hid.symm]
    . intro hhas
      exact hocc (hmain hhas).1

end findSlot

namespace Map

variable {m : Map}

def setObj (m : Map) (i : Nat) (obj : Option Nat) : Map :=
  m.setSlot i { m.slotAt i with obj := obj }

namespace WF

theorem slotAt_setObj (hm : m.WF) {i : Nat} (hocc : m.Occupied i) (obj : Option Nat) (j : Nat)
    : (m.setObj i obj).slotAt j = if j = i then { m.slotAt i with obj := obj } else m.slotAt j := by
  unfold setObj
  rw [hm.slotAt_set (hm.lt_size_of_occupied hocc)]

theorem setObj_id (hm : m.WF) {i : Nat} (hocc : m.Occupied i) (obj : Option Nat) (j : Nat)
    : ((m.setObj i obj).slotAt j).id = (m.slotAt j).id
        ∧ (m.setObj i obj).next j = m.next j := by
  unfold next
  rw [hm.slotAt_setObj hocc]
  split
  . next heq => simp [heq]
  . simp

theorem setObj (hm : m.WF) {i : Nat} (hocc : m.Occupied i) (obj : Option Nat)
    : (m.setObj i obj).WF where
  length := by
    simp only [Map.setObj, setSlot_length, setSlot_size]
    exact hm.length
  pow := hm.pow
  neg_one_le := hm.neg_one_le
  lastfree_lt := hm.lastfree_lt
  occupied := by
    intro j hj hlast
    unfold Occupied
    rw [(hm.setObj_id hocc obj j).1]
    exact hm.occupied j hj hlast
  free := by
    intro j hj
    unfold Occupied at hj
    rw [(hm.setObj_id hocc obj j).1] at hj
    rw [hm.slotAt_setObj hocc]
    have : j ≠ i := by
      intro heq
      rw [heq] at hj
      exact hj hocc
    simp only [this, ↓reduceIte]
    exact hm.free j hj
  inj := by
    intro j k hj hjk
    unfold Occupied at hj
    rw [(hm.setObj_id hocc obj j).1] at hj hjk
    rw [(hm.setObj_id hocc obj k).1] at hjk
    exact hm.inj j k hj hjk
  chain := by
    intro h hh
    obtain ⟨c, hc⟩ := hm.chain h hh
    refine ⟨c, hc.congr ?_ ?_⟩
    . intro j _
      exact (hm.setObj_id hocc obj j).2
    . intro j
      unfold Occupied
      rw [(hm.setObj_id hocc obj j).1]
      rfl

theorem setObj_stores (hm : m.WF) {i : Nat} (hocc : m.Occupied i) (obj : Option Nat)
    (id : UInt32) (addr : Nat)
    : (m.setObj i obj).Stores id addr
        ↔
      if id = (m.slotAt i).id then obj = some addr else m.Stores id addr := by
  constructor
  . rintro ⟨j, hid, haddr⟩
    rw [(hm.setObj_id hocc obj j).1] at hid
    rw [hm.slotAt_setObj hocc] at haddr
    by_cases heq : j = i
    . rw [heq] at hid
      simp only [hid.symm, ↓reduceIte]
      simpa [heq] using haddr
    . simp only [heq, ↓reduceIte] at haddr
      split
      . next hid' =>
        exfalso
        apply heq
        symm
        apply hm.inj i j hocc
        rw [hid, hid']
      . exact ⟨j, hid, haddr⟩
  . split
    . next hid =>
      intro haddr
      refine ⟨i, ?_, ?_⟩
      . rw [(hm.setObj_id hocc obj i).1, hid]
      . rw [hm.slotAt_setObj hocc]
        simpa using haddr
    . next hid =>
      rintro ⟨j, hidj, haddr⟩
      refine ⟨j, ?_, ?_⟩
      . rw [(hm.setObj_id hocc obj j).1, hidj]
      . have : j ≠ i := by
          intro heq
          rw [heq] at hidj
          exact hid hidj.symm
        rw [hm.slotAt_setObj hocc]
        simp only [this, ↓reduceIte]
        exact haddr

theorem occupied_of_stores (hm : m.WF) {i : Nat} {addr : Nat} (h : (m.slotAt i).obj = some addr)
    : m.Occupied i := by
  intro hocc
  rw [hm.free i (by simp [Occupied, hocc])] at h
  simp [emptySlot] at h

theorem stores_ne_invalidId (hm : m.WF) {id : UInt32} {addr : Nat} (h : m.Stores id addr)
    : id ≠ invalidId := by
  rcases h with ⟨i, hid, haddr⟩
  rw [← hid]
  exact hm.occupied_of_stores haddr

theorem stores_iff (hm : m.WF) {i : Nat} (hocc : m.Occupied i) {id : UInt32}
    (hi : (m.slotAt i).id = id) (addr : Nat)
    : m.Stores id addr ↔ (m.slotAt i).obj = some addr := by
  constructor
  . rintro ⟨j, hj, hobj⟩
    have : i = j := by
      apply hm.inj i j hocc
      rw [hi, hj]
    rw [this]
    exact hobj
  . intro h
    exact ⟨i, hi, h⟩

theorem stores_unique (hm : m.WF) {id : UInt32} {addr addr' : Nat} (h : m.Stores id addr)
    (h' : m.Stores id addr') : addr = addr' := by
  rcases h with ⟨i, hid, haddr⟩
  rcases h' with ⟨j, hid', haddr'⟩
  have : i = j := by
    apply hm.inj
    . exact hm.occupied_of_stores haddr
    . rw [hid, hid']
  subst this
  rw [haddr] at haddr'
  simpa using haddr'

end WF
end Map

theorem mapDrop_total {m : Map} (hm : m.WF) {id : UInt32} (hid : id ≠ invalidId)
    : ∃ m' result, mapDrop m id = some (m', result)
        ∧ (∀ addr, result = some addr ↔ m.Stores id addr)
        ∧ m'.WF
        ∧ ∀ id' addr, m'.Stores id' addr ↔ id' ≠ id ∧ m.Stores id' addr := by
  unfold mapDrop
  rcases findSlot.spec hm hid with ⟨i, hfind, hi⟩ | ⟨hfind, hhas⟩
  . have hocc : m.Occupied i := by
      unfold Map.Occupied
      rw [hi]
      exact hid
    rw [hfind]
    dsimp only
    rw [hm.getElem? (hm.lt_size_of_occupied hocc)]
    refine ⟨m.setObj i none, (m.slotAt i).obj, rfl, ?_, hm.setObj hocc none, ?_⟩
    . intro addr
      rw [hm.stores_iff hocc hi]
    . intro id' addr
      rw [hm.setObj_stores hocc, hi]
      split
      . next heq => simp [heq]
      . next hne => simp [hne]
  . rw [hfind]
    have hnone : ∀ addr, ¬m.Stores id addr := by
      rintro addr ⟨i, hi, -⟩
      exact hhas ⟨i, hi⟩
    refine ⟨m, none, rfl, ?_, hm, ?_⟩
    . intro addr
      simp [hnone]
    . intro id' addr
      constructor
      . intro h
        refine ⟨?_, h⟩
        rintro rfl
        exact hnone addr h
      . rintro ⟨-, h⟩
        exact h

theorem mapDrop_spec {m : Map} (hm : m.WF) {id : UInt32} {addr : Nat} (h : m.Stores id addr)
    : ∃ m', mapDrop m id = some (m', some addr)
        ∧ m'.WF
        ∧ ∀ id' addr', m'.Stores id' addr' ↔ id' ≠ id ∧ m.Stores id' addr' := by
  obtain ⟨m', result, hdrop, hresult, hwf, hstores⟩ := mapDrop_total hm (hm.stores_ne_invalidId h)
  rw [(hresult addr).mpr h] at hdrop
  exact ⟨m', hdrop, hwf, hstores⟩

theorem mem_mapForeach {m : Map} (hm : m.WF) (addr : Nat)
    : addr ∈ mapForeach m ↔ ∃ id, m.Stores id addr := by
  unfold mapForeach
  rw [List.mem_filterMap]
  constructor
  . rintro ⟨s, hs, hobj⟩
    refine ⟨s.id, ?_⟩
    rw [← rehash.mem_slot_iff hm]
    exact ⟨s, hs, rfl, hobj⟩
  . rintro ⟨id, h⟩
    rw [← rehash.mem_slot_iff hm] at h
    rcases h with ⟨s, hs, -, hobj⟩
    exact ⟨s, hs, hobj⟩

theorem nodup_mapForeach {m : Map} (hm : m.WF)
    (hinj : ∀ id id' addr, m.Stores id addr → m.Stores id' addr → id = id')
    : (mapForeach m).Nodup := by
  unfold mapForeach List.Nodup
  rw [List.pairwise_filterMap, List.pairwise_iff_getElem]
  intro i j hi hj hij addr haddr addr' haddr' heq
  subst heq
  have hati : m.slotAt i = m.slot[i] := by simp [Map.slotAt, hi]
  have hatj : m.slotAt j = m.slot[j] := by simp [Map.slotAt, hj]
  rw [← hati] at haddr
  rw [← hatj] at haddr'
  have hid : (m.slotAt i).id = (m.slotAt j).id := by
    apply hinj _ _ addr
    . exact ⟨i, rfl, haddr⟩
    . exact ⟨j, rfl, haddr'⟩
  have : i = j := hm.inj i j (hm.occupied_of_stores haddr) hid
  omega

end Caoi
