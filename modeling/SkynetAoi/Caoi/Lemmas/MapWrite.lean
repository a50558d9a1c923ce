import SkynetAoi.Caoi.Lemmas.Map

/-!
This module contains the three ways in which `map_insert` writes to the slots of the object map and
the proof that each of them keeps the chains intact: an id goes to its free main position, behind
its main position into a free slot, or it takes its main position from an id that does not belong
there.
-/

namespace Caoi
namespace Map

variable {m m' : Map} {id : UInt32} {obj : Nat} {p : Nat}

/--
`m'` is `m` with `id` written to the slot `p`. The `next` of the occupied slots may differ.
-/
structure Writes (m m' : Map) (p : Nat) (id : UInt32) (obj : Nat) : Prop where
  size : m'.size = m.size
  length : m'.slot.length = m.slot.length
  slot : (m'.slotAt p).id = id ∧ (m'.slotAt p).obj = some obj
  other : ∀ (i : Nat), i ≠ p →
    (m'.slotAt i).id = (m.slotAt i).id ∧ (m'.slotAt i).obj = (m.slotAt i).obj
  free : ∀ (i : Nat), i ≠ p → ¬m.Occupied i → m'.slotAt i = m.slotAt i

namespace Writes

theorem mainposition_eq (hw : m.Writes m' p id obj) (id' : UInt32)
    : mainposition m' id' = mainposition m id' := by
  unfold mainposition
  rw [hw.size]

theorem mem_iff (hw : m.Writes m' p id obj) (hid : id ≠ invalidId) (h i : Nat)
    : (m'.Occupied i ∧ mainposition m' (m'.slotAt i).id = h)
        ↔
      if i = p then
        mainposition m id = h
      else
        m.Occupied i ∧ mainposition m (m.slotAt i).id = h := by
  unfold Occupied
  rw [hw.mainposition_eq]
  split
  . next heq =>
    rw [heq, hw.slot.1]
    simp [hid]
  . next hne =>
    rw [(hw.other i hne).1]

theorem isChain_other (hw : m.Writes m' p id obj) (hid : id ≠ invalidId) {h : Nat} {c : List Nat}
    (hc : m.IsChain h c) (hmain : mainposition m id ≠ h) (hp : p ∉ c)
    (hnext : ∀ i ∈ c, m'.next i = m.next i) : m'.IsChain h c := by
  apply hc.congr hnext
  intro i
  rw [hw.mem_iff hid]
  split
  . next heq =>
    rw [heq, ← hc.mem]
    simp [hmain, hp]
  . rfl

theorem wf (hw : m.Writes m' p id obj) (hm : m.WF) (hid : id ≠ invalidId) (hnew : ¬m.Has id)
    (hneg : -1 ≤ m'.lastfree) (hlt : m'.lastfree < m.size)
    (hocc : ∀ (i : Nat), i < m.size → m'.lastfree < i → i = p ∨ m.Occupied i)
    (hchain : ∀ (h : Nat), h < m.size → ∃ c, m'.IsChain h c) : m'.WF where
  length := by
    rw [hw.length, hw.size]
    exact hm.length
  pow := by
    rw [hw.size]
    exact hm.pow
  neg_one_le := hneg
  lastfree_lt := by
    rw [hw.size]
    exact hlt
  occupied := by
    intro i hi hlast
    rw [hw.size] at hi
    unfold Occupied
    by_cases heq : i = p
    . rw [heq, hw.slot.1]
      exact hid
    . rw [(hw.other i heq).1]
      have := hocc i hi hlast
      simp only [heq, false_or] at this
      exact this
  free := by
    intro i hi
    unfold Occupied at hi
    by_cases heq : i = p
    . rw [heq, hw.slot.1] at hi
      exact absurd hid hi
    . rw [(hw.other i heq).1] at hi
      rw [hw.free i heq hi]
      apply hm.free
      exact hi
  inj := by
    intro i j hi hij
    unfold Occupied at hi
    by_cases hip : i = p
    . by_cases hjp : j = p
      . rw [hip, hjp]
      . rw [hip, hw.slot.1, (hw.other j hjp).1] at hij
        exact absurd ⟨j, hij.symm⟩ hnew
    . rw [(hw.other i hip).1] at hij hi
      by_cases hjp : j = p
      . rw [hjp, hw.slot.1] at hij
        exact absurd ⟨i, hij⟩ hnew
      . rw [(hw.other j hjp).1] at hij
        exact hm.inj i j hi hij
  chain := by
    intro h hh
    rw [hw.size] at hh
    exact hchain h hh

end Writes

def placeMain (m : Map) (id : UInt32) (obj : Nat) : Map :=
  m.setSlot (mainposition m id) { m.slotAt (mainposition m id) with id := id, obj := some obj }

namespace placeMain

theorem slotAt_eq (hm : m.WF) (i : Nat)
    : (m.placeMain id obj).slotAt i
        =
      if i = mainposition m id then
        { m.slotAt (mainposition m id) with id := id, obj := some obj }
      else
        m.slotAt i := by
  unfold placeMain
  apply hm.slotAt_set
  apply hm.mainposition_lt

theorem writes (hm : m.WF) : m.Writes (m.placeMain id obj) (mainposition m id) id obj where
  size := rfl
  length := by simp [placeMain]
  slot := by
    rw [slotAt_eq hm]
    simp
  other := by
    intro i hi
    rw [slotAt_eq hm]
    simp [hi]
  free := by
    intro i hi _
    rw [slotAt_eq hm]
    simp [hi]

theorem wf (hm : m.WF) (hid : id ≠ invalidId) (hnew : ¬m.Has id)
    (hfree : ¬m.Occupied (mainposition m id)) : (m.placeMain id obj).WF := by
  have hw : m.Writes (m.placeMain id obj) (mainposition m id) id obj := writes hm
  apply hw.wf hm hid hnew hm.neg_one_le hm.lastfree_lt
  . intro i hi hlast
    exact Or.inr (hm.occupied i hi hlast)
  . intro h hh
    obtain ⟨c, hc⟩ := hm.chain h hh
    have hnotin : mainposition m id ∉ c := by
      rw [hc.mem]
      intro hocc
      exact hfree hocc.1
    by_cases hmain : mainposition m id = h
    . subst hmain
      have hnil : c = [] := by
        apply hc.eq_nil
        intro hocc
        exact hfree hocc.1
      refine ⟨[mainposition m id], Or.inr ?_, by simp, ?_⟩
      . apply Linked.cons
        have : (m.placeMain id obj).next (mainposition m id) = -1 := by
          unfold next
          rw [slotAt_eq hm]
          simp [hm.free _ hfree, emptySlot]
        rw [this]
        exact .nil
      . intro i
        rw [hw.mem_iff hid]
        split
        . next heq => simp [heq]
        . next hne =>
          rw [← hc.mem, hnil]
          simp [hne]
    . refine ⟨c, hw.isChain_other hid hc hmain hnotin ?_⟩
      intro i hi
      unfold next
      rw [slotAt_eq hm]
      have : i ≠ mainposition m id := by
        intro heq
        rw [heq] at hi
        exact hnotin hi
      simp [this]

end placeMain

def placeFree (m : Map) (temp : Nat) (lastfree : Int) (id : UInt32) (obj : Nat) : Map :=
  let h := mainposition m id
  let s := m.slotAt h
  let m := { m with lastfree := lastfree }
  let m := m.setSlot temp { id := id, obj := some obj, next := s.next }
  m.setSlot h { s with next := temp }

namespace placeFree

variable {temp : Nat} {lastfree : Int}

theorem slotAt_eq (hm : m.WF) (htemp : temp < m.size) (i : Nat)
    : (m.placeFree temp lastfree id obj).slotAt i
        =
      if i = mainposition m id then
        { m.slotAt (mainposition m id) with next := temp }
      else if i = temp then
        { id := id, obj := some obj, next := m.next (mainposition m id) }
      else
        m.slotAt i := by
  have hmain := hm.mainposition_lt id
  unfold placeFree
  dsimp only
  rw [slotAt_setSlot, slotAt_setSlot]
  . rfl
  . rw [hm.length]
    exact htemp
  . rw [setSlot_length, hm.length]
    exact hmain

theorem writes (hm : m.WF) (htemp : temp < m.size) (hfree : ¬m.Occupied temp)
    (hmain : m.Occupied (mainposition m id))
    : m.Writes (m.placeFree temp lastfree id obj) temp id obj := by
  have hne : temp ≠ mainposition m id := by
    intro heq
    rw [heq] at hfree
    exact hfree hmain
  constructor
  . rfl
  . simp [placeFree]
  . rw [slotAt_eq hm htemp]
    simp [hne]
  . intro i hi
    rw [slotAt_eq hm htemp]
    split
    . next heq => simp [heq]
    . simp
  . intro i hi hocc
    rw [slotAt_eq hm htemp]
    split
    . next heq =>
      rw [heq] at hocc
      exact absurd hmain hocc
    . simp

theorem wf (hm : m.WF) (hid : id ≠ invalidId) (hnew : ¬m.Has id)
    (htemp : temp < m.size) (hfree : ¬m.Occupied temp)
    (hocc : m.Occupied (mainposition m id))
    (hmain : mainposition m (m.slotAt (mainposition m id)).id = mainposition m id)
    (hneg : -1 ≤ lastfree) (hlt : lastfree < m.size)
    (hlast : ∀ (i : Nat), i < m.size → lastfree < i → i = temp ∨ m.Occupied i)
    : (m.placeFree temp lastfree id obj).WF := by
  have hw : m.Writes (m.placeFree temp lastfree id obj) temp id obj :=
    writes hm htemp hfree hocc
  have hne : temp ≠ mainposition m id := by
    intro heq
    rw [heq] at hfree
    exact hfree hocc
  apply hw.wf hm hid hnew hneg hlt hlast
  intro h hh
  obtain ⟨c, hc⟩ := hm.chain h hh
  have hnotin : temp ∉ c := by
    rw [hc.mem]
    intro hocc
    exact hfree hocc.1
  by_cases heq : mainposition m id = h
  . subst heq
    have hhead : mainposition m id ∈ c := by
      rw [hc.mem]
      exact ⟨hocc, hmain⟩
    have hlinked := hc.linked_of_mem hhead
    cases c with
    | nil => simp at hhead
    | cons first rest =>
      have hfirst : first = mainposition m id := by
        have := hlinked.head_eq
        omega
      subst hfirst
      have hnodup := hc.nodup
      simp only [List.nodup_cons] at hnodup
      simp only [List.mem_cons, not_or] at hnotin
      refine ⟨mainposition m id :: temp :: rest, Or.inr ?_, ?_, ?_⟩
      . apply hlinked.insert
        . unfold next
          rw [slotAt_eq hm htemp]
          simp
        . conv => lhs; unfold next
          rw [slotAt_eq hm htemp]
          simp [hne]
        . intro i hi
          have h1 : i ≠ mainposition m id := by
            intro heq
            rw [heq] at hi
            exact hnodup.1 hi
          have h2 : i ≠ temp := by
            intro heq
            rw [heq] at hi
            exact hnotin.2 hi
          unfold next
          rw [slotAt_eq hm htemp]
          simp [h1, h2]
      . simp only [List.nodup_cons, List.mem_cons, not_or]
        exact ⟨⟨hne.symm, hnodup.1⟩, hnotin.2, hnodup.2⟩
      . intro i
        rw [hw.mem_iff hid]
        split
        . next heq => simp [heq]
        . next hi =>
          rw [← hc.mem]
          simp [hi]
  . refine ⟨c, hw.isChain_other hid hc heq hnotin ?_⟩
    intro i hi
    have h1 : i ≠ mainposition m id := by
      intro h1
      rw [h1, hc.mem, hmain] at hi
      exact heq hi.2
    have h2 : i ≠ temp := by
      intro h2
      rw [h2] at hi
      exact hnotin hi
    unfold next
    rw [slotAt_eq hm htemp]
    simp [h1, h2]

end placeFree

def evict (m : Map) (last : Nat) (id : UInt32) (obj : Nat) : Map :=
  let h := mainposition m id
  let m' := m.setSlot last { m.slotAt last with next := m.next h }
  m'.setSlot h { id := id, obj := some obj, next := -1 }

namespace evict

variable {last : Nat}

theorem slotAt_eq (hm : m.WF) (hlast : last < m.size) (i : Nat)
    : (m.evict last id obj).slotAt i
        =
      if i = mainposition m id then
        { id := id, obj := some obj, next := -1 }
      else if i = last then
        { m.slotAt last with next := m.next (mainposition m id) }
      else
        m.slotAt i := by
  have hmain := hm.mainposition_lt id
  unfold evict
  dsimp only
  rw [slotAt_setSlot, slotAt_setSlot]
  . rw [hm.length]
    exact hlast
  . rw [setSlot_length, hm.length]
    exact hmain

theorem writes (hm : m.WF) (hlast : m.Occupied last)
    : m.Writes (m.evict last id obj) (mainposition m id) id obj := by
  have hlt := hm.lt_size_of_occupied hlast
  constructor
  . rfl
  . simp [evict]
  . rw [slotAt_eq hm hlt]
    simp
  . intro i hi
    rw [slotAt_eq hm hlt]
    simp only [hi, ↓reduceIte]
    split
    . next heq => simp [heq]
    . simp
  . intro i hi hocc
    rw [slotAt_eq hm hlt]
    have : i ≠ last := by
      intro heq
      rw [heq] at hocc
      exact hocc hlast
    simp [hi, this]

theorem wf (hm : m.WF) (hid : id ≠ invalidId) (hnew : ¬m.Has id)
    {c1 c2 : List Nat} {g : Nat} (hg : g ≠ mainposition m id)
    (hc : m.IsChain g (c1 ++ last :: mainposition m id :: c2))
    : (m.evict last id obj).WF := by
  have hlast : m.Occupied last ∧ mainposition m (m.slotAt last).id = g := by
    rw [← hc.mem]
    simp
  have hmain : m.Occupied (mainposition m id)
      ∧ mainposition m (m.slotAt (mainposition m id)).id = g := by
    rw [← hc.mem]
    simp
  have hlt := hm.lt_size_of_occupied hlast.1
  have hw : m.Writes (m.evict last id obj) (mainposition m id) id obj := writes hm hlast.1
  apply hw.wf hm hid hnew hm.neg_one_le hm.lastfree_lt
  . intro i hi hlast
    exact Or.inr (hm.occupied i hi hlast)
  . intro h hh
    by_cases heq : mainposition m id = h
    . -- The evicted id was the only one at this position, so nobody else is in the chain.
      subst heq
      obtain ⟨c, hc'⟩ := hm.chain _ hh
      have hnil : c = [] := by
        apply hc'.eq_nil
        intro hocc
        rw [hmain.2] at hocc
        exact hg hocc.2
      refine ⟨[mainposition m id], Or.inr ?_, by simp, ?_⟩
      . apply Linked.cons
        have : (m.evict last id obj).next (mainposition m id) = -1 := by
          unfold next
          rw [slotAt_eq hm hlt]
          simp
        rw [this]
        exact .nil
      . intro i
        rw [hw.mem_iff hid]
        split
        . next heq => simp [heq]
        . next hne =>
          rw [← hc'.mem, hnil]
          simp [hne]
    . by_cases hgh : g = h
      . subst hgh
        have hlinked := hc.linked_of_mem (i := last) (by simp)
        have hnodup := hc.nodup
        simp only [List.nodup_append, List.nodup_cons, List.mem_cons] at hnodup
        obtain ⟨hnodup1, ⟨hnodup2, hnodup3, hnodup4⟩, hnodup5⟩ := hnodup
        refine ⟨c1 ++ last :: c2, Or.inr ?_, ?_, ?_⟩
        . apply hlinked.remove
          . unfold next
            rw [slotAt_eq hm hlt]
            have : last ≠ mainposition m id := by
              intro heq
              exact hnodup2 (Or.inl heq)
            simp [this, next]
          . intro i hi
            have hi' : i ≠ mainposition m id ∧ i ≠ last := by
              simp only [List.mem_append] at hi
              cases hi with
              | inl hi =>
                exact ⟨hnodup5 i hi _ (by simp), hnodup5 i hi _ (by simp)⟩
              | inr hi =>
                constructor
                . intro heq
                  rw [heq] at hi
                  exact hnodup3 hi
                . intro heq
                  rw [heq] at hi
                  exact hnodup2 (Or.inr hi)
            unfold next
            rw [slotAt_eq hm hlt]
            simp [hi'.1, hi'.2]
        . simp only [List.nodup_append, List.nodup_cons, List.mem_cons]
          refine ⟨hnodup1, ⟨?_, hnodup4⟩, ?_⟩
          . intro hi
            exact hnodup2 (Or.inr hi)
          . intro a ha b hb
            apply hnodup5 a ha
            cases hb with
            | inl hb => exact Or.inl hb
            | inr hb => exact Or.inr (Or.inr hb)
        . intro i
          rw [hw.mem_iff hid]
          split
          . next hi =>
            rw [hi]
            simp only [List.mem_append, List.mem_cons, heq, iff_false, not_or]
            refine ⟨?_, ?_, hnodup3⟩
            . intro hmem
              exact hnodup5 _ hmem _ (Or.inr (Or.inl rfl)) rfl
            . intro heq
              exact hnodup2 (Or.inl heq.symm)
          . next hi =>
            rw [← hc.mem]
            simp [hi]
      . obtain ⟨c, hc'⟩ := hm.chain h hh
        have hnotin : mainposition m id ∉ c := by
          rw [hc'.mem, hmain.2]
          intro hocc
          exact hgh hocc.2
        refine ⟨c, hw.isChain_other hid hc' heq hnotin ?_⟩
        intro i hi
        have h1 : i ≠ mainposition m id := by
          intro h1
          rw [h1] at hi
          exact hnotin hi
        have h2 : i ≠ last := by
          intro h2
          rw [h2, hc'.mem, hlast.2] at hi
          exact hgh hi.2
        unfold next
        rw [slotAt_eq hm hlt]
        simp [h1, h2]

end evict

end Map

end Caoi
