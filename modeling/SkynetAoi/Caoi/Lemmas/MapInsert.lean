import Mathlib.Data.Finset.Card
import Mathlib.Data.Finset.Range
import SkynetAoi.Caoi.Lemmas.MapWrite

/-!
This module contains the proof that `map_insert` comes to an end, keeps the invariant of the object
map and adds exactly one object to it. Its walks come first, then the calls that `map_insert` and
`rehash` make to each other.
-/

namespace Caoi

namespace takeFree

variable {m : Map}

theorem spec (hm : m.WF) (n : Nat) (hn : n ≤ m.size)
    (hocc : ∀ (i : Nat), n ≤ i → i < m.size → m.Occupied i)
    : (∃ (j : Nat), takeFree m n = some (some j, (j : Int) - 1)
          ∧ j < m.size
          ∧ ¬m.Occupied j
          ∧ ∀ (i : Nat), j < i → i < m.size → m.Occupied i)
        ∨ (takeFree m n = some (none, -1) ∧ ∀ (i : Nat), i < m.size → m.Occupied i) := by
  induction n with
  | zero =>
    right
    refine ⟨rfl, ?_⟩
    intro i hi
    apply hocc
    . omega
    . exact hi
  | succ n ih =>
    simp only [takeFree]
    rw [hm.getElem? (by omega)]
    dsimp only
    by_cases hfree : (m.slotAt n).id = invalidId
    . left
      refine ⟨n, ?_, by omega, ?_, ?_⟩
      . simp [hfree]
      . simp [Map.Occupied, hfree]
      . intro i hi
        apply hocc
        omega
    . simp only [hfree, ↓reduceIte]
      apply ih
      . omega
      . intro i hi hlt
        by_cases heq : i = n
        . rw [heq]
          exact hfree
        . apply hocc
          . omega
          . exact hlt

end takeFree

namespace findLast

variable {m : Map} {last target : Nat} {c1 c2 : List Nat}

theorem eq_last (hm : m.WF) (fuel : Nat) (hfuel : c1.length < fuel) (start : Nat)
    (hlinked : Linked m.next start (c1 ++ last :: target :: c2))
    (hnodup : (c1 ++ last :: target :: c2).Nodup)
    (hocc : ∀ i ∈ c1 ++ last :: target :: c2, m.Occupied i)
    : findLast m target fuel start = some last := by
  induction c1 generalizing fuel start with
  | nil =>
    cases fuel with
    | zero => simp at hfuel
    | succ fuel =>
      have hstart : start = last := by
        have := hlinked.head_eq
        omega
      have hnext : (m.slotAt last).next = target := hlinked.tail.head_eq
      simp only [findLast]
      rw [hstart, hm.getElem? (hm.lt_size_of_occupied (hocc last (by simp)))]
      simp [hnext]
  | cons i c1 ih =>
    cases fuel with
    | zero => simp at hfuel
    | succ fuel =>
      have hstart : start = i := by
        have := hlinked.head_eq
        omega
      have hne : ¬(m.slotAt i).next = (target : Int) := by
        intro heq
        have htail := hlinked.tail
        unfold Map.next at htail
        rw [heq] at htail
        simp only [List.cons_append, List.nodup_cons] at hnodup
        cases c1 with
        | nil =>
          have := htail.head_eq
          simp only [List.nil_append, List.nodup_cons, List.mem_cons, not_or] at hnodup
          omega
        | cons j c1 =>
          have := htail.head_eq
          have : target = j := by omega
          subst this
          simp [List.nodup_cons] at hnodup
      have hnonneg : ¬(m.slotAt i).next < 0 := by
        intro hneg
        have := Linked.eq_nil_of_neg hlinked.tail hneg
        simp at this
      simp only [findLast]
      rw [hstart, hm.getElem? (hm.lt_size_of_occupied (hocc i (by simp)))]
      simp only [hne, hnonneg, ↓reduceIte]
      apply ih
      . simp only [List.length_cons] at hfuel
        omega
      . have htail := hlinked.tail
        have : ((m.slotAt i).next.toNat : Int) = m.next i := by
          unfold Map.next
          omega
        rw [this]
        exact htail
      . simp only [List.cons_append, List.nodup_cons] at hnodup
        exact hnodup.2
      . intro j hj
        apply hocc
        simp only [List.cons_append, List.mem_cons]
        exact Or.inr hj

end findLast

namespace Map

open Classical in
noncomputable def occupiedSlots (m : Map) : Finset Nat :=
  (Finset.range m.size).filter m.Occupied

structure Adds (m m' : Map) (id : UInt32) (obj : Nat) : Prop where
  wf : m'.WF
  stores : ∀ (id' : UInt32) (obj' : Nat),
    m'.Stores id' obj' ↔ (id' = id ∧ obj' = obj) ∨ m.Stores id' obj'
  has : ∀ (id' : UInt32), id' ≠ invalidId → m'.Has id' → id' = id ∨ m.Has id'

variable {m m' : Map} {id : UInt32} {obj : Nat} {p : Nat}

theorem exists_free_of_card_lt (h : m.occupiedSlots.card < m.size)
    : ∃ (i : Nat), i < m.size ∧ ¬m.Occupied i := by
  classical
  by_contra hno
  push Not at hno
  have : m.occupiedSlots = Finset.range m.size := by
    unfold occupiedSlots
    apply Finset.filter_true_of_mem
    intro i hi
    apply hno
    simpa using hi
  rw [this] at h
  simp at h

namespace Writes

theorem occupiedSlots_subset (hw : m.Writes m' p id obj)
    : m'.occupiedSlots ⊆ insert p m.occupiedSlots := by
  classical
  intro i hi
  simp only [occupiedSlots, Finset.mem_filter, Finset.mem_range, Occupied] at hi
  simp only [occupiedSlots, Finset.mem_insert, Finset.mem_filter, Finset.mem_range, Occupied]
  by_cases heq : i = p
  . exact Or.inl heq
  . right
    rw [(hw.other i heq).1, hw.size] at hi
    exact hi

theorem card_le (hw : m.Writes m' p id obj)
    : m'.occupiedSlots.card ≤ m.occupiedSlots.card + 1 := by
  apply Nat.le_trans (Finset.card_le_card hw.occupiedSlots_subset)
  apply Finset.card_insert_le

theorem stores_iff (hw : m.Writes m' p id obj) (id' : UInt32) (obj' : Nat)
    : m'.Stores id' obj'
        ↔
      (id' = id ∧ obj' = obj)
        ∨ ∃ i, i ≠ p ∧ (m.slotAt i).id = id' ∧ (m.slotAt i).obj = some obj' := by
  constructor
  . rintro ⟨i, hid, hobj⟩
    by_cases heq : i = p
    . left
      rw [heq, hw.slot.1] at hid
      rw [heq, hw.slot.2] at hobj
      simp only [Option.some.injEq] at hobj
      exact ⟨hid.symm, hobj.symm⟩
    . right
      rw [(hw.other i heq).1] at hid
      rw [(hw.other i heq).2] at hobj
      exact ⟨i, heq, hid, hobj⟩
  . rintro (⟨hid, hobj⟩ | ⟨i, hne, hid, hobj⟩)
    . refine ⟨p, ?_, ?_⟩
      . rw [hw.slot.1, hid]
      . rw [hw.slot.2, hobj]
    . refine ⟨i, ?_, ?_⟩
      . rw [(hw.other i hne).1, hid]
      . rw [(hw.other i hne).2, hobj]

theorem has (hw : m.Writes m' p id obj) (id' : UInt32) (h : m'.Has id')
    : id' = id ∨ m.Has id' := by
  obtain ⟨i, hi⟩ := h
  by_cases heq : i = p
  . left
    rw [heq, hw.slot.1] at hi
    exact hi.symm
  . right
    rw [(hw.other i heq).1] at hi
    exact ⟨i, hi⟩

theorem adds (hw : m.Writes m' p id obj) (hm : m.WF) (hm' : m'.WF) (hfree : ¬m.Occupied p)
    : m.Adds m' id obj where
  wf := hm'
  stores := by
    intro id' obj'
    rw [hw.stores_iff]
    have hp : (m.slotAt p).obj = none := by
      rw [hm.free p hfree]
      rfl
    constructor
    . rintro (h | ⟨i, -, hi⟩)
      . exact Or.inl h
      . exact Or.inr ⟨i, hi⟩
    . rintro (h | ⟨i, hi⟩)
      . exact Or.inl h
      . right
        refine ⟨i, ?_, hi⟩
        intro heq
        rw [heq, hp] at hi
        simp at hi
  has := by
    intro id' _ h
    exact hw.has id' h

end Writes

end Map

namespace mapInsert

variable {m : Map} {id : UInt32}

structure Fits (m m' : Map) (id : UInt32) (obj : Nat) : Prop where
  adds : m.Adds m' id obj
  size : m'.size = m.size
  card : m'.occupiedSlots.card ≤ m.occupiedSlots.card + 1

theorem eq_placeFree (hm : m.WF) (hocc : m.Occupied (mainposition m id))
    (hmain : mainposition m (m.slotAt (mainposition m id)).id = mainposition m id)
    (hfree : ∃ (i : Nat), i < m.size ∧ ¬m.Occupied i)
    (fuel : Nat) (cookie : AllocCookie) (obj : Nat)
    : ∃ (temp : Nat), temp < m.size
        ∧ ¬m.Occupied temp
        ∧ (∀ (i : Nat), temp < i → i < m.size → m.Occupied i)
        ∧ mapInsert (fuel + 1) cookie m id obj
          = some (cookie, m.placeFree temp (temp - 1) id obj) := by
  have hlast := hm.neg_one_le
  have hlt := hm.lastfree_lt
  have habove : ∀ (i : Nat), (m.lastfree + 1).toNat ≤ i → i < m.size → m.Occupied i := by
    intro i hi hlt
    apply hm.occupied
    . exact hlt
    . omega
  unfold mapInsert
  dsimp only
  rw [hm.getElem? (hm.mainposition_lt id)]
  unfold Map.Occupied at hocc
  simp only [hocc, hmain, ↓reduceIte, ne_eq, not_true_eq_false]
  cases takeFree.spec hm (m.lastfree + 1).toNat (by omega) habove with
  | inl h =>
    rcases h with ⟨temp, htake, htemp, hfree, hrest⟩
    rw [htake]
    exact ⟨temp, htemp, hfree, hrest, rfl⟩
  | inr h =>
    rcases hfree with ⟨i, hi, hfree⟩
    exact absurd (h.2 i hi) hfree

theorem fits_of_main (hm : m.WF) (hid : id ≠ invalidId) (hnew : ¬m.Has id)
    (hocc : m.Occupied (mainposition m id))
    (hmain : mainposition m (m.slotAt (mainposition m id)).id = mainposition m id)
    (hfree : ∃ (i : Nat), i < m.size ∧ ¬m.Occupied i)
    (fuel : Nat) (cookie : AllocCookie) (obj : Nat)
    : ∃ m', mapInsert (fuel + 1) cookie m id obj = some (cookie, m') ∧ Fits m m' id obj := by
  obtain ⟨temp, htemp, hfree, hrest, heq⟩ := eq_placeFree hm hocc hmain hfree fuel cookie obj
  have hw : m.Writes (m.placeFree temp (temp - 1) id obj) temp id obj :=
    Map.placeFree.writes hm htemp hfree hocc
  refine ⟨m.placeFree temp (temp - 1) id obj, heq, ?_, rfl, hw.card_le⟩
  apply hw.adds hm
  . apply Map.placeFree.wf hm hid hnew htemp hfree hocc hmain
    . omega
    . omega
    . intro i hi hlt
      by_cases heq : i = temp
      . exact Or.inl heq
      . right
        apply hrest
        . omega
        . exact hi
  . exact hfree

theorem findLast_spec (hm : m.WF) {h : Nat} (hocc : m.Occupied h)
    (hmain : mainposition m (m.slotAt h).id ≠ h)
    : ∃ last c1 c2, findLast m h m.size (mainposition m (m.slotAt h).id) = some last
        ∧ m.IsChain (mainposition m (m.slotAt h).id) (c1 ++ last :: h :: c2) := by
  obtain ⟨c, hc⟩ := hm.chain _ (hm.mainposition_lt (m.slotAt h).id)
  have hmem : h ∈ c := by
    rw [hc.mem]
    exact ⟨hocc, rfl⟩
  obtain ⟨c1, c2, hsplit⟩ := List.append_of_mem hmem
  subst hsplit
  have hlinked := hc.linked_of_mem hmem
  have hlen := hc.length_le
  rw [hm.length] at hlen
  cases List.eq_nil_or_concat c1 with
  | inl hnil =>
    rw [hnil] at hlinked
    have := hlinked.head_eq
    omega
  | inr hconcat =>
    rcases hconcat with ⟨c1, last, hconcat⟩
    have heq : c1 ++ [last] ++ h :: c2 = c1 ++ last :: h :: c2 := by simp
    rw [hconcat, List.concat_eq_append, heq] at hc hlinked hlen
    refine ⟨last, c1, c2, ?_, hc⟩
    refine findLast.eq_last hm m.size ?_ _ hlinked hc.nodup ?_
    . simp only [List.length_append, List.length_cons] at hlen
      omega
    . intro i hi
      exact ((hc.mem i).mp hi).1

/--
The map in the middle of an eviction: `id` has taken the main position from `temp`, which is in no
slot any more.
-/
structure Evicts (m m1 : Map) (temp id : UInt32) (obj : Nat) : Prop where
  wf : m1.WF
  size : m1.size = m.size
  occupied : m1.occupiedSlots = m.occupiedSlots
  stores : ∀ (id' : UInt32) (obj' : Nat),
    m1.Stores id' obj' ↔ (id' = id ∧ obj' = obj) ∨ (m.Stores id' obj' ∧ id' ≠ temp)
  has : ∀ (id' : UInt32), m1.Has id' → id' = id ∨ m.Has id'
  gone : ¬m1.Has temp
  main_occupied : m1.Occupied (mainposition m1 temp)
  main_eq : mainposition m1 (m1.slotAt (mainposition m1 temp)).id = mainposition m1 temp

theorem evicts (hm : m.WF) (hid : id ≠ invalidId) (hnew : ¬m.Has id)
    (hocc : m.Occupied (mainposition m id))
    (hmain : mainposition m (m.slotAt (mainposition m id)).id ≠ mainposition m id)
    (fuel : Nat) (cookie : AllocCookie) (obj : Nat)
    : ∃ m1, Evicts m m1 (m.slotAt (mainposition m id)).id id obj
        ∧ mapInsert (fuel + 1) cookie m id obj
            =
          match (m.slotAt (mainposition m id)).obj with
          | some tempObj => mapInsert fuel cookie m1 (m.slotAt (mainposition m id)).id tempObj
          | none => some (cookie, m1) := by
  obtain ⟨last, c1, c2, hfind, hc⟩ := findLast_spec hm hocc hmain
  have hlast : m.Occupied last ∧ mainposition m (m.slotAt last).id
      = mainposition m (m.slotAt (mainposition m id)).id := by
    rw [← hc.mem]
    simp
  have hlt := hm.lt_size_of_occupied hlast.1
  have hw : m.Writes (m.evict last id obj) (mainposition m id) id obj :=
    Map.evict.writes hm hlast.1
  have hwf : (m.evict last id obj).WF := Map.evict.wf hm hid hnew hmain hc
  have hgone : ¬(m.evict last id obj).Has (m.slotAt (mainposition m id)).id := by
    rintro ⟨i, hi⟩
    by_cases heq : i = mainposition m id
    . rw [heq, hw.slot.1] at hi
      exact hnew ⟨_, hi.symm⟩
    . rw [(hw.other i heq).1] at hi
      apply heq
      apply hm.inj
      . unfold Map.Occupied
        rw [hi]
        exact hocc
      . exact hi
  have hhead := hm.main_occupied hocc
  refine ⟨m.evict last id obj, ⟨hwf, rfl, ?_, ?_, hw.has, hgone, ?_, ?_⟩, ?_⟩
  . apply Finset.Subset.antisymm
    . apply Finset.Subset.trans hw.occupiedSlots_subset
      apply Finset.insert_subset
      . simp only [Map.occupiedSlots, Finset.mem_filter, Finset.mem_range]
        exact ⟨hm.mainposition_lt id, hocc⟩
      . exact Finset.Subset.refl _
    . intro i
      simp only [Map.occupiedSlots, Finset.mem_filter, Finset.mem_range, Map.Occupied]
      intro hi
      by_cases heq : i = mainposition m id
      . rw [heq, hw.slot.1, hw.size]
        exact ⟨hm.mainposition_lt id, hid⟩
      . rw [(hw.other i heq).1, hw.size]
        exact hi
  . intro id' obj'
    rw [hw.stores_iff]
    constructor
    . rintro (h | ⟨i, hne, hid', hobj'⟩)
      . exact Or.inl h
      . refine Or.inr ⟨⟨i, hid', hobj'⟩, ?_⟩
        intro heq
        apply hne
        apply hm.inj
        . unfold Map.Occupied
          rw [hid', heq]
          exact hocc
        . rw [hid', heq]
    . rintro (h | ⟨⟨i, hid', hobj'⟩, hne⟩)
      . exact Or.inl h
      . refine Or.inr ⟨i, ?_, hid', hobj'⟩
        intro heq
        rw [heq] at hid'
        exact hne hid'.symm
  . rw [hw.mainposition_eq]
    unfold Map.Occupied
    rw [(hw.other _ hmain).1]
    exact hhead.1
  . rw [hw.mainposition_eq, hw.mainposition_eq, (hw.other _ hmain).1]
    exact hhead.2
  . conv => lhs; unfold mapInsert
    dsimp only
    rw [hm.getElem? (hm.mainposition_lt id)]
    unfold Map.Occupied at hocc
    simp only [hocc, hmain, ↓reduceIte, ne_eq, not_false_eq_true]
    rw [hfind]
    dsimp only
    rw [hm.getElem? hlt]
    rfl

namespace Evicts

variable {m1 m' : Map} {obj : Nat}

theorem free (he : Evicts m m1 temp id obj) (hfree : ∃ (i : Nat), i < m.size ∧ ¬m.Occupied i)
    : ∃ (i : Nat), i < m1.size ∧ ¬m1.Occupied i := by
  obtain ⟨i, hi, hfree⟩ := hfree
  refine ⟨i, ?_, ?_⟩
  . rw [he.size]
    exact hi
  . intro hocc
    have : i ∈ m1.occupiedSlots := by
      simp only [Map.occupiedSlots, Finset.mem_filter, Finset.mem_range]
      rw [he.size]
      exact ⟨hi, hocc⟩
    rw [he.occupied] at this
    simp only [Map.occupiedSlots, Finset.mem_filter] at this
    exact hfree this.2

theorem stores_temp (hm : m.WF) {i : Nat} (hocc : m.Occupied i) (obj' : Nat)
    : m.Stores (m.slotAt i).id obj' ↔ (m.slotAt i).obj = some obj' := by
  constructor
  . rintro ⟨j, hid, hobj⟩
    have : i = j := hm.inj i j hocc hid.symm
    rw [this]
    exact hobj
  . intro h
    exact ⟨i, rfl, h⟩

theorem adds_none (hm : m.WF) {i : Nat} (hocc : m.Occupied i) (hobj : (m.slotAt i).obj = none)
    (he : Evicts m m1 (m.slotAt i).id id obj) : m.Adds m1 id obj where
  wf := he.wf
  stores := by
    intro id' obj'
    rw [he.stores]
    constructor
    . rintro (h | h)
      . exact Or.inl h
      . exact Or.inr h.1
    . rintro (h | h)
      . exact Or.inl h
      . refine Or.inr ⟨h, ?_⟩
        intro heq
        rw [heq, stores_temp hm hocc, hobj] at h
        simp at h
  has := by
    intro id' _
    apply he.has

theorem adds_some (hm : m.WF) {i : Nat} (hocc : m.Occupied i) {tempObj : Nat}
    (hobj : (m.slotAt i).obj = some tempObj)
    (he : Evicts m m1 (m.slotAt i).id id obj)
    (ha : m1.Adds m' (m.slotAt i).id tempObj) : m.Adds m' id obj where
  wf := ha.wf
  stores := by
    intro id' obj'
    have htemp := stores_temp hm hocc obj'
    rw [ha.stores, he.stores]
    constructor
    . rintro (⟨hid', hobj'⟩ | h | h)
      . right
        rw [hid', htemp, hobj, hobj']
      . exact Or.inl h
      . exact Or.inr h.1
    . rintro (h | h)
      . exact Or.inr (Or.inl h)
      . by_cases heq : id' = (m.slotAt i).id
        . left
          rw [heq, htemp, hobj] at h
          simp only [Option.some.injEq] at h
          exact ⟨heq, h.symm⟩
        . exact Or.inr (Or.inr ⟨h, heq⟩)
  has := by
    intro id' hid' h
    cases ha.has id' hid' h with
    | inl h => exact Or.inr ⟨i, h.symm⟩
    | inr h => exact he.has id' h

end Evicts

theorem placeMain_spec (hm : m.WF) (hid : id ≠ invalidId) (hnew : ¬m.Has id)
    (hfree : ¬m.Occupied (mainposition m id))
    (fuel : Nat) (cookie : AllocCookie) (obj : Nat)
    : ∃ m', mapInsert (fuel + 1) cookie m id obj = some (cookie, m') ∧ Fits m m' id obj := by
  have hwf : (m.placeMain id obj).WF := Map.placeMain.wf hm hid hnew hfree
  refine ⟨m.placeMain id obj, ?_, ?_, rfl, ?_⟩
  . unfold mapInsert
    dsimp only
    rw [hm.getElem? (hm.mainposition_lt id)]
    unfold Map.Occupied at hfree
    simp only [ne_eq, not_not] at hfree
    simp only [hfree, ↓reduceIte]
    rfl
  . apply (Map.placeMain.writes hm).adds hm hwf hfree
  . apply (Map.placeMain.writes hm).card_le

theorem fits (hm : m.WF) (hid : id ≠ invalidId) (hnew : ¬m.Has id)
    (hfree : ∃ (i : Nat), i < m.size ∧ ¬m.Occupied i)
    (fuel : Nat) (cookie : AllocCookie) (obj : Nat)
    : ∃ m', mapInsert (fuel + 2) cookie m id obj = some (cookie, m') ∧ Fits m m' id obj := by
  by_cases hocc : m.Occupied (mainposition m id)
  . by_cases hmain : mainposition m (m.slotAt (mainposition m id)).id = mainposition m id
    . apply fits_of_main hm hid hnew hocc hmain hfree
    . obtain ⟨m1, he, heq⟩ := evicts hm hid hnew hocc hmain (fuel + 1) cookie obj
      rw [heq]
      cases hobj : (m.slotAt (mainposition m id)).obj with
      | none =>
        refine ⟨m1, rfl, he.adds_none hm hocc hobj, he.size, ?_⟩
        rw [he.occupied]
        omega
      | some tempObj =>
        obtain ⟨m', hins, hfits⟩ :=
          fits_of_main he.wf hocc he.gone he.main_occupied he.main_eq (he.free hfree) fuel cookie
            tempObj
        refine ⟨m', hins, he.adds_some hm hocc hobj hfits.adds, ?_, ?_⟩
        . rw [hfits.size, he.size]
        . rw [← he.occupied]
          exact hfits.card
  . exact placeMain_spec hm hid hnew hocc (fuel + 1) cookie obj

end mapInsert

namespace rehash

def blank (size : Nat) : Map where
  size := size
  lastfree := (size : Int) - 1
  slot := List.replicate size emptySlot

theorem blank_slotAt (size i : Nat) : (blank size).slotAt i = emptySlot := by
  unfold Map.slotAt blank
  simp only [List.getD_eq_getElem?_getD, List.getElem?_replicate]
  split
  . rfl
  . rfl

theorem blank_not_occupied (size i : Nat) : ¬(blank size).Occupied i := by
  simp [Map.Occupied, blank_slotAt, emptySlot]

theorem blank_not_stores (size : Nat) (id : UInt32) (obj : Nat) : ¬(blank size).Stores id obj := by
  simp [Map.Stores, blank_slotAt, emptySlot]

theorem blank_not_has (size : Nat) {id : UInt32} (hid : id ≠ invalidId) : ¬(blank size).Has id := by
  simp [Map.Has, blank_slotAt, emptySlot, hid.symm]

theorem blank_card (size : Nat) : (blank size).occupiedSlots.card = 0 := by
  simp [Map.occupiedSlots, blank_not_occupied]

theorem blank_wf (k : Nat) : (blank (2 ^ k)).WF where
  length := by simp [blank]
  pow := ⟨k, rfl⟩
  neg_one_le := by
    have := Nat.two_pow_pos k
    simp only [blank]
    omega
  lastfree_lt := by
    simp only [blank]
    omega
  occupied := by
    intro i hi hlast
    simp only [blank] at hi hlast
    omega
  free := by
    intro i _
    apply blank_slotAt
  inj := by
    intro i j hi
    exact absurd hi (blank_not_occupied _ i)
  chain := by
    intro h _
    refine ⟨[], Or.inl rfl, by simp, ?_⟩
    intro i
    simp [blank_not_occupied]

def Distinct (slots : List MapSlot) : Prop :=
  slots.Pairwise fun s t => s.obj ≠ none → t.obj ≠ none → s.id ≠ t.id

theorem go_spec (fuel : Nat) (slots : List MapSlot) (hdistinct : Distinct slots)
    (hids : ∀ s ∈ slots, s.obj ≠ none → s.id ≠ invalidId)
    (cookie : AllocCookie) (m : Map) (hm : m.WF)
    (hnew : ∀ s ∈ slots, s.obj ≠ none → ¬m.Has s.id)
    (hroom : m.occupiedSlots.card + slots.length < m.size)
    : ∃ m', go (mapInsert (fuel + 2)) slots cookie m = some (cookie, m')
        ∧ m'.WF
        ∧ m'.size = m.size
        ∧ (∀ id obj, m'.Stores id obj
            ↔ m.Stores id obj ∨ ∃ s ∈ slots, s.id = id ∧ s.obj = some obj)
        ∧ (∀ id, id ≠ invalidId → m'.Has id → m.Has id ∨ ∃ s ∈ slots, s.id = id ∧ s.obj ≠ none)
        ∧ m'.occupiedSlots.card ≤ m.occupiedSlots.card + slots.length := by
  induction slots generalizing m with
  | nil =>
    refine ⟨m, rfl, hm, rfl, by simp, ?_, by simp⟩
    intro id _ h
    exact Or.inl h
  | cons s slots ih =>
    unfold Distinct at hdistinct
    rw [List.pairwise_cons] at hdistinct
    rw [List.length_cons] at hroom
    cases hobj : s.obj with
    | none =>
      obtain ⟨m', hgo, hwf, hsize, hstores, hhas, hcard⟩ := by
        apply ih hdistinct.2 _ m hm _ (by omega)
        . intro t ht
          apply hids
          simp [ht]
        . intro t ht
          apply hnew
          simp [ht]
      refine ⟨m', ?_, hwf, hsize, ?_, ?_, ?_⟩
      . unfold go
        rw [hobj]
        exact hgo
      . intro id obj
        rw [hstores]
        simp [hobj]
      . intro id hid h
        cases hhas id hid h with
        | inl h => exact Or.inl h
        | inr h =>
          rcases h with ⟨t, ht, htid⟩
          refine Or.inr ⟨t, ?_, htid⟩
          simp [ht]
      . rw [List.length_cons]
        omega
    | some obj =>
      have hsome : s.obj ≠ none := by simp [hobj]
      obtain ⟨m1, hins, hfits⟩ := by
        apply mapInsert.fits hm (hids s (by simp) hsome) (hnew s (by simp) hsome) _ fuel cookie obj
        apply Map.exists_free_of_card_lt
        omega
      have hcard1 := hfits.card
      have hsize1 := hfits.size
      obtain ⟨m', hgo, hwf, hsize, hstores, hhas, hcard⟩ := by
        apply ih hdistinct.2 _ m1 hfits.adds.wf _ (by omega)
        . intro t ht
          apply hids
          simp [ht]
        . intro t ht hobj' h
          have hid : t.id ≠ invalidId := hids t (by simp [ht]) hobj'
          cases hfits.adds.has t.id hid h with
          | inl h => exact hdistinct.1 t ht hsome hobj' h.symm
          | inr h => exact hnew t (by simp [ht]) hobj' h
      refine ⟨m', ?_, hwf, ?_, ?_, ?_, ?_⟩
      . unfold go
        rw [hobj]
        dsimp only
        rw [hins]
        exact hgo
      . rw [hsize, hsize1]
      . intro id obj'
        rw [hstores, hfits.adds.stores]
        simp only [List.mem_cons, exists_eq_or_imp, hobj, Option.some.injEq]
        constructor
        . rintro ((h | h) | h)
          . exact Or.inr (Or.inl ⟨h.1.symm, h.2.symm⟩)
          . exact Or.inl h
          . exact Or.inr (Or.inr h)
        . rintro (h | h | h)
          . exact Or.inl (Or.inr h)
          . exact Or.inl (Or.inl ⟨h.1.symm, h.2.symm⟩)
          . exact Or.inr h
      . intro id hid h
        cases hhas id hid h with
        | inl h =>
          cases hfits.adds.has id hid h with
          | inl h => exact Or.inr ⟨s, by simp, h.symm, hsome⟩
          | inr h => exact Or.inl h
        | inr h =>
          rcases h with ⟨t, ht, htid⟩
          refine Or.inr ⟨t, ?_, htid⟩
          simp [ht]
      . rw [List.length_cons]
        omega

theorem distinct_slots {m : Map} (hm : m.WF) (hobj : ∀ i, ¬m.Occupied i → (m.slotAt i).obj = none)
    : Distinct m.slot := by
  unfold Distinct
  rw [List.pairwise_iff_getElem]
  intro i j hi hj hij hsi hsj heq
  have hati : m.slotAt i = m.slot[i] := by simp [Map.slotAt, hi]
  have hatj : m.slotAt j = m.slot[j] := by simp [Map.slotAt, hj]
  rw [← hati] at hsi heq
  rw [← hatj] at heq
  have : i = j := by
    apply hm.inj
    . intro hocc
      apply hsi
      apply hobj
      simp [Map.Occupied, hocc]
    . exact heq
  omega

theorem mem_slot_iff {m : Map} (hm : m.WF) (id : UInt32) (obj : Nat)
    : (∃ s ∈ m.slot, s.id = id ∧ s.obj = some obj) ↔ m.Stores id obj := by
  constructor
  . rintro ⟨s, hs, hid, hobj⟩
    obtain ⟨i, hi, heq⟩ := List.getElem_of_mem hs
    refine ⟨i, ?_⟩
    have : m.slotAt i = s := by simp [Map.slotAt, hi, heq]
    rw [this]
    exact ⟨hid, hobj⟩
  . rintro ⟨i, hid, hobj⟩
    refine ⟨m.slotAt i, ?_, hid, hobj⟩
    have hi : i < m.size := by
      apply hm.lt_size_of_occupied
      intro hocc
      rw [hm.free i (by simp [Map.Occupied, hocc])] at hobj
      simp [emptySlot] at hobj
    apply List.mem_of_getElem?
    exact hm.getElem? hi

theorem spec {m : Map} (hm : m.WF) (fuel : Nat) (cookie : AllocCookie)
    : ∃ cookie' m', rehash (mapInsert (fuel + 2)) cookie m = some (cookie', m')
        ∧ m'.WF
        ∧ m'.size = 2 * m.size
        ∧ (∀ id obj, m'.Stores id obj ↔ m.Stores id obj)
        ∧ (∀ id, id ≠ invalidId → m'.Has id → ∃ obj, m.Stores id obj)
        ∧ ∃ (i : Nat), i < m'.size ∧ ¬m'.Occupied i := by
  have hempty : ∀ i, ¬m.Occupied i → (m.slotAt i).obj = none := by
    intro i hi
    rw [hm.free i hi]
    rfl
  have hpos := hm.size_pos
  obtain ⟨k, hk⟩ := hm.pow
  have hdouble : 2 * m.size = 2 ^ (k + 1) := by
    rw [hk, Nat.pow_succ]
    omega
  have hids : ∀ s ∈ m.slot, s.obj ≠ none → s.id ≠ invalidId := by
    intro s hs hobj hid
    obtain ⟨i, hi, heq⟩ := List.getElem_of_mem hs
    have hat : m.slotAt i = s := by simp [Map.slotAt, hi, heq]
    apply hobj
    rw [← hat]
    apply hempty
    simp [Map.Occupied, hat, hid]
  have hblank : (blank (2 * m.size)).WF := by
    rw [hdouble]
    apply blank_wf
  obtain ⟨m', hgo, hwf, hsize, hstores, hhas, hcard⟩ :=
    go_spec fuel m.slot (distinct_slots hm hempty) hids
      (cookie.alloc (2 * m.size * sizeofMapSlot)) (blank (2 * m.size)) hblank
      (by intro s hs hobj; exact blank_not_has _ (hids s hs hobj))
      (by
        rw [blank_card, hm.length]
        simp only [blank]
        omega)
  refine ⟨(cookie.alloc (2 * m.size * sizeofMapSlot)).free (m.size * sizeofMapSlot), m', ?_, hwf,
    hsize, ?_, ?_, ?_⟩
  . unfold rehash
    dsimp only
    unfold blank at hgo
    rw [hgo]
  . intro id obj
    rw [hstores, mem_slot_iff hm]
    simp [blank_not_stores]
  . intro id hid h
    cases hhas id hid h with
    | inl h => exact absurd h (blank_not_has _ hid)
    | inr h =>
      rcases h with ⟨s, hs, hsid, hobj⟩
      obtain ⟨obj, hobj⟩ := Option.ne_none_iff_exists'.mp hobj
      refine ⟨obj, ?_⟩
      rw [← mem_slot_iff hm]
      exact ⟨s, hs, hsid, hobj⟩
  . apply Map.exists_free_of_card_lt
    rw [blank_card, hm.length] at hcard
    rw [hsize]
    simp only [blank]
    omega

end rehash

namespace mapInsert

variable {m : Map} {id : UInt32}

theorem spec_of_full (hm : m.WF) (hid : id ≠ invalidId) (hnone : ∀ addr, ¬m.Stores id addr)
    (hocc : m.Occupied (mainposition m id))
    (hmain : mainposition m (m.slotAt (mainposition m id)).id = mainposition m id)
    (hfull : ∀ (i : Nat), i < m.size → m.Occupied i)
    (fuel : Nat) (cookie : AllocCookie) (obj : Nat)
    : ∃ cookie' m', mapInsert (fuel + 3) cookie m id obj = some (cookie', m')
        ∧ m.Adds m' id obj
        ∧ m'.size = 2 * m.size := by
  obtain ⟨cookie1, m1, hrehash, hwf, hsize, hstores, hhas, hfree1⟩ := rehash.spec hm fuel cookie
  obtain ⟨m', hins, hfits⟩ := by
    apply fits hwf hid _ hfree1 fuel cookie1 obj
    intro h
    obtain ⟨addr, haddr⟩ := hhas id hid h
    exact hnone addr haddr
  refine ⟨cookie1, m', ?_, ⟨hfits.adds.wf, ?_, ?_⟩, ?_⟩
  . have hlast := hm.neg_one_le
    have hlt := hm.lastfree_lt
    have htake : takeFree m (m.lastfree + 1).toNat = some (none, -1) := by
      cases takeFree.spec hm (m.lastfree + 1).toNat (by omega) (fun i _ hi => hfull i hi) with
      | inl h =>
        rcases h with ⟨j, -, hj, hfree', -⟩
        exact absurd (hfull j hj) hfree'
      | inr h => exact h.1
    unfold mapInsert
    dsimp only
    rw [hm.getElem? (hm.mainposition_lt id)]
    unfold Map.Occupied at hocc
    simp only [hocc, hmain, ↓reduceIte, ne_eq, not_true_eq_false]
    rw [htake]
    dsimp only
    have : rehash (mapInsert (fuel + 2)) cookie { m with lastfree := -1 } = some (cookie1, m1) :=
      hrehash
    rw [this]
    exact hins
  . intro id' obj'
    rw [hfits.adds.stores, hstores]
  . intro id' hid' h
    cases hfits.adds.has id' hid' h with
    | inl h => exact Or.inl h
    | inr h =>
      obtain ⟨obj, i, hi, -⟩ := hhas id' hid' h
      exact Or.inr ⟨i, hi⟩
  . rw [hfits.size, hsize]

theorem spec_of_main (hm : m.WF) (hid : id ≠ invalidId) (hnew : ¬m.Has id)
    (hocc : m.Occupied (mainposition m id))
    (hmain : mainposition m (m.slotAt (mainposition m id)).id = mainposition m id)
    (fuel : Nat) (cookie : AllocCookie) (obj : Nat)
    : ∃ cookie' m', mapInsert (fuel + 3) cookie m id obj = some (cookie', m')
        ∧ m.Adds m' id obj
        ∧ (m'.size = m.size ∨ m'.size = 2 * m.size) := by
  by_cases hfree : ∃ (i : Nat), i < m.size ∧ ¬m.Occupied i
  . obtain ⟨m', hins, hfits⟩ := fits_of_main hm hid hnew hocc hmain hfree (fuel + 2) cookie obj
    exact ⟨cookie, m', hins, hfits.adds, .inl hfits.size⟩
  . push Not at hfree
    obtain ⟨cookie', m', hins, hadds, hsize⟩ := by
      apply spec_of_full hm hid _ hocc hmain hfree fuel cookie obj
      rintro addr ⟨i, hi, -⟩
      exact hnew ⟨i, hi⟩
    exact ⟨cookie', m', hins, hadds, .inr hsize⟩

theorem spec (hm : m.WF) (hid : id ≠ invalidId) (hnew : ¬m.Has id)
    (cookie : AllocCookie) (obj : Nat)
    : ∃ cookie' m', mapInsert insertDepth cookie m id obj = some (cookie', m')
        ∧ m.Adds m' id obj
        ∧ (m'.size = m.size ∨ m'.size = 2 * m.size) := by
  unfold insertDepth
  by_cases hocc : m.Occupied (mainposition m id)
  . by_cases hmain : mainposition m (m.slotAt (mainposition m id)).id = mainposition m id
    . exact spec_of_main hm hid hnew hocc hmain 1 cookie obj
    . obtain ⟨m1, he, heq⟩ := evicts hm hid hnew hocc hmain 3 cookie obj
      rw [heq]
      cases hobj : (m.slotAt (mainposition m id)).obj with
      | none => exact ⟨cookie, m1, rfl, he.adds_none hm hocc hobj, .inl he.size⟩
      | some tempObj =>
        obtain ⟨cookie', m', hins, hadds, hsize⟩ :=
          spec_of_main he.wf hocc he.gone he.main_occupied he.main_eq 0 cookie tempObj
        rw [he.size] at hsize
        exact ⟨cookie', m', hins, he.adds_some hm hocc hobj hadds, hsize⟩
  . obtain ⟨m', hins, hfits⟩ := placeMain_spec hm hid hnew hocc 3 cookie obj
    exact ⟨cookie, m', hins, hfits.adds, .inl hfits.size⟩

end mapInsert

end Caoi
