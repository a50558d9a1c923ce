import SkynetAoi.Caoi.Lemmas.Object

/-!
This module contains what `map_query` and `aoi_update` do to the objects.
-/

namespace Caoi

def freshObject (id : UInt32) : Object where
  ref := 1
  id := id
  version := 0
  mode := 0
  last := ⟨0, 0, 0⟩
  position := ⟨0, 0, 0⟩

namespace Counted

variable {space : AoiSpace} {ends : Nat → Nat} {id : UInt32}

theorem alloc (hc : Counted space ends) {m : Map} (hm : m.WF)
    (hstores : ∀ id' a, m.Stores id' a ↔ (id' = id ∧ a = space.heap.brk) ∨ space.object.Stores id' a)
    (cookie : AllocCookie)
    : Counted
        { space with
          heap := (space.heap.alloc (freshObject id)).1
          object := m
          cookie := cookie
        }
        ends := by
  have hbrk := space.heap.get_brk
  constructor
  . exact hm
  . intro a o h
    dsimp only at h
    rw [Heap.get_alloc] at h
    rw [hstores]
    split at h
    . next heq =>
      simp only [Option.some.injEq] at h
      left
      rw [← h, heq]
      exact ⟨rfl, rfl⟩
    . exact Or.inr (hc.stored a o h)
  . intro id' a h
    rw [hstores] at h
    dsimp only
    rw [Heap.get_alloc]
    split
    . next heq =>
      refine ⟨freshObject id, rfl, ?_⟩
      cases h with
      | inl h => exact h.1.symm
      | inr h =>
        obtain ⟨o, ho, -⟩ := hc.live id' a h
        rw [heq, hbrk] at ho
        simp at ho
    . next hne =>
      cases h with
      | inl h => exact absurd h.2 hne
      | inr h => exact hc.live id' a h
  . intro a o h
    dsimp only at h
    rw [Heap.get_alloc] at h
    split at h
    . next heq =>
      simp only [Option.some.injEq] at h
      rw [heq, hc.dead _ hbrk, ← h]
      simp [freshObject, Object.isDrop]
    . exact hc.ref a o h
  . intro a o h
    dsimp only at h
    rw [Heap.get_alloc] at h
    split at h
    . simp only [Option.some.injEq] at h
      rw [← h]
      simp [freshObject]
    . exact hc.pos a o h
  . intro a h
    dsimp only at h
    rw [Heap.get_alloc] at h
    split at h
    . simp at h
    . exact hc.dead a h

end Counted

theorem mapQuery_total {space : AoiSpace} (hm : space.object.WF) {id : UInt32} (hid : id ≠ invalidId)
    : (∃ addr, space.object.Stores id addr ∧ mapQuery space id = some (space, addr))
        ∨ (∀ addr, ¬space.object.Stores id addr)
          ∧ ∃ cookie m, m.WF
            ∧ (∀ id' a, m.Stores id' a ↔ (id' = id ∧ a = space.heap.brk) ∨ space.object.Stores id' a)
            ∧ mapQuery space id
              = some
                ({ space with
                  heap := (space.heap.alloc (freshObject id)).1
                  object := m
                  cookie := cookie
                }, space.heap.brk) := by
  unfold mapQuery
  dsimp only
  rcases findSlot.spec hm hid with ⟨i, hfind, hi⟩ | hfind
  . have hocc : space.object.Occupied i := by
      unfold Map.Occupied
      rw [hi]
      exact hid
    rw [hfind]
    dsimp only
    rw [hm.getElem? (hm.lt_size_of_occupied hocc)]
    dsimp only
    cases hobj : (space.object.slotAt i).obj with
    | some addr =>
      refine Or.inl ⟨addr, ?_, rfl⟩
      rw [hm.stores_iff hocc hi]
      exact hobj
    | none =>
      have hnone : ∀ addr, ¬space.object.Stores id addr := by
        intro addr
        rw [hm.stores_iff hocc hi, hobj]
        simp
      refine Or.inr ⟨hnone, space.cookie.alloc sizeofObject, _,
        hm.setObj hocc (some space.heap.brk), ?_, rfl⟩
      intro id' a
      rw [hm.setObj_stores hocc, hi]
      split
      . next heq =>
        simp only [heq, hnone, or_false, true_and, Option.some.injEq]
        exact eq_comm
      . next hne => simp [hne]
  . obtain ⟨cookie, m, hins, hadds, -⟩ :=
      mapInsert.spec hm hid hfind.2 (space.cookie.alloc sizeofObject) space.heap.brk
    rw [hfind.1]
    dsimp only
    simp only [newObject, Heap.alloc_addr]
    rw [hins]
    refine Or.inr ⟨?_, cookie, m, hadds.wf, hadds.stores, rfl⟩
    rintro addr ⟨i, hi, -⟩
    exact hfind.2 ⟨i, hi⟩

/--
What `map_query` returns for an id: its object if there is one, else a new one.
-/
inductive Queried (space : AoiSpace) (ends : Nat → Nat) (id : UInt32)
    : AoiSpace → Nat → Object → Prop where
  | found (addr : Nat) (obj : Object) (hget : space.heap.get addr = some obj) (hid : obj.id = id)
    : Queried space ends id space addr obj
  | fresh (space' : AoiSpace) (addr : Nat)
      (hnew : ∀ a o, space.heap.get a = some o → o.id ≠ id)
      (hc : Counted space' ends)
      (hsets : SameSets space space')
      (hdead : space.heap.get addr = none)
      (hheap : ∀ a, space'.heap.get a
        = if a = addr then some (freshObject id) else space.heap.get a)
    : Queried space ends id space' addr (freshObject id)

theorem mapQuery_spec {space : AoiSpace} {ends : Nat → Nat} (hc : Counted space ends)
    {id : UInt32} (hid : id ≠ invalidId)
    : ∃ space' addr obj, mapQuery space id = some (space', addr)
        ∧ Queried space ends id space' addr obj := by
  rcases mapQuery_total hc.wf hid with ⟨addr, hstores, hquery⟩ | ⟨hnone, cookie, m, hm, hstores, hquery⟩
  . obtain ⟨obj, hget, hoid⟩ := hc.live id addr hstores
    exact ⟨space, addr, obj, hquery, .found addr obj hget hoid⟩
  . have hnew : ∀ a o, space.heap.get a = some o → o.id ≠ id := by
      intro a o h heq
      apply hnone a
      rw [← heq]
      exact hc.stored a o h
    refine ⟨_, _, freshObject id, hquery, .fresh _ _ hnew ?_ ?_ space.heap.get_brk ?_⟩
    . exact hc.alloc hm hstores cookie
    . constructor <;> rfl
    . intro a
      rfl

theorem scanMode_eq (modestring : List Char) (w m : Bool)
    : scanMode modestring w m
        =
      if 'd' ∈ modestring then
        none
      else
        some (w || 'w' ∈ modestring, m || 'm' ∈ modestring) := by
  induction modestring generalizing w m with
  | nil => simp [scanMode]
  | cons c modestring ih =>
    simp only [scanMode]
    by_cases hw : c = 'w'
    . subst hw
      simp [ih]
    . by_cases hm : c = 'm'
      . subst hm
        simp [ih]
      . by_cases hd : c = 'd'
        . subst hd
          simp
        . simp [hw, hm, hd, ih, Ne.symm hw, Ne.symm hm, Ne.symm hd]

theorem reviveObject_id (obj : Object) : (reviveObject obj).id = obj.id := by
  unfold reviveObject
  split
  . rfl
  . rfl

theorem reviveObject_isDrop (obj : Object) : (reviveObject obj).isDrop = false := by
  unfold reviveObject
  split
  . have h : ∀ (mode : Mode), (mode &&& ~~~modeDrop) &&& modeDrop = 0 := by decide
    simp only [Object.isDrop, bne_eq_false_iff_eq]
    apply h
  . next h => simpa using h

theorem reviveObject_ref (obj : Object)
    : (reviveObject obj).ref = obj.ref + if obj.isDrop then 1 else 0 := by
  unfold reviveObject
  split
  . rfl
  . simp

theorem moveObject_id (obj : Object) (w m : Bool) (pos : Point)
    : (moveObject obj w m pos).id = obj.id := by
  unfold moveObject
  dsimp only
  split
  . rfl
  . rfl

theorem moveObject_ref (obj : Object) (w m : Bool) (pos : Point)
    : (moveObject obj w m pos).ref = obj.ref := by
  unfold moveObject
  dsimp only
  split
  . rfl
  . rfl

theorem moveObject_isDrop {obj : Object} (hdrop : obj.isDrop = false) (w m : Bool) (pos : Point)
    : (moveObject obj w m pos).isDrop = false := by
  have hchange : ∀ (mode : Mode) (w m : Bool), mode &&& modeDrop = 0 →
      (changeMode mode w m).1 &&& modeDrop = 0
        ∧ ((changeMode mode w m).1 ||| modeMove) &&& modeDrop = 0 := by
    decide
  simp only [Object.isDrop, bne_eq_false_iff_eq] at hdrop
  unfold moveObject
  dsimp only
  split
  . simp only [Object.isDrop, bne_eq_false_iff_eq]
    apply (hchange _ _ _ hdrop).2
  . simp only [Object.isDrop, bne_eq_false_iff_eq]
    apply (hchange _ _ _ hdrop).1

def updateObject (obj : Object) (ends : Nat) (modestring : List Char) (pos : Point)
    : Option Object :=
  if 'd' ∈ modestring then
    if obj.isDrop then
      some obj
    else if ends = 0 then
      none
    else
      some { obj with mode := modeDrop, ref := obj.ref - 1 }
  else
    some (moveObject (reviveObject obj) ('w' ∈ modestring) ('m' ∈ modestring) pos)

theorem aoiUpdate_of_query {space space' : AoiSpace} {ends : Nat → Nat} (hc : Counted space' ends)
    {id : UInt32} {addr : Nat} (hquery : mapQuery space id = some (space', addr))
    {obj : Object} (hget : space'.heap.get addr = some obj) (modestring : List Char) (pos : Point)
    : ∃ space'', aoiUpdate space id modestring pos = some space''
        ∧ Counted space'' ends
        ∧ SameSets space' space''
        ∧ ∀ a, space''.heap.get a
            =
          if a = addr then updateObject obj (ends addr) modestring pos else space'.heap.get a := by
  have href := hc.ref addr obj hget
  have hpos := hc.pos addr obj hget
  unfold aoiUpdate
  rw [hquery]
  dsimp only
  rw [hget]
  dsimp only
  rw [scanMode_eq]
  unfold updateObject
  by_cases hd : 'd' ∈ modestring
  . simp only [hd, ↓reduceIte]
    cases hdrop : obj.isDrop with
    | true =>
      simp only [↓reduceIte]
      refine ⟨space', rfl, hc, SameSets.refl space', ?_⟩
      intro a
      split
      . next heq => rw [heq, hget]
      . rfl
    | false =>
      simp only [Bool.false_eq_true, ↓reduceIte]
      rw [hdrop] at href
      obtain ⟨heap, hwrite, hheap⟩ := Heap.write_of_get hget { obj with mode := modeDrop }
      rw [hwrite]
      dsimp only
      -- The reference that the map gives up counts as one more end until `drop_object` takes it.
      have hc1 : Counted { space' with heap := heap }
          (fun a => if a = addr then ends a + 1 else ends a) := by
        refine hc.write hget { obj with mode := modeDrop } rfl _ ?_ ?_ hpos hheap
        . intro a hne
          simp [hne]
        . have : ({ obj with mode := modeDrop } : Object).isDrop = true := by
            simp only [Object.isDrop]
            decide
          rw [this]
          simp only [↓reduceIte]
          simp only [Bool.false_eq_true, ↓reduceIte] at href
          omega
      have hget1 : ({ space' with heap := heap } : AoiSpace).heap.get addr
          = some { obj with mode := modeDrop } := by
        dsimp only
        rw [hheap]
        simp
      obtain ⟨space'', hdropped, hc'', hsets, hheap''⟩ := dropObject_spec hc1 hget1 (by simp)
      refine ⟨space'', hdropped, ?_, SameSets.trans (by constructor <;> rfl) hsets, ?_⟩
      . have : (fun a => if a = addr then (if a = addr then ends a + 1 else ends a) - 1
            else if a = addr then ends a + 1 else ends a) = ends := by
          funext a
          split
          . omega
          . rfl
        rw [this] at hc''
        exact hc''
      . intro a
        rw [hheap'']
        have hdropped : ({ obj with mode := modeDrop } : Object).isDrop = true := by
          simp only [Object.isDrop]
          decide
        split
        . simp [hdropped]
        . next hne =>
          rw [hheap]
          simp [hne]
  . simp only [hd, ↓reduceIte, Bool.false_or]
    obtain ⟨heap, hwrite, hheap⟩ :=
      Heap.write_of_get hget (moveObject (reviveObject obj) ('w' ∈ modestring) ('m' ∈ modestring) pos)
    rw [hwrite]
    dsimp only
    refine ⟨_, rfl, ?_, by constructor <;> rfl, hheap⟩
    refine hc.write hget _ ?_ ends ?_ ?_ ?_ hheap
    . rw [moveObject_id, reviveObject_id]
    . intros
      rfl
    . rw [moveObject_isDrop (reviveObject_isDrop obj), moveObject_ref, reviveObject_ref]
      cases hdrop : obj.isDrop with
      | true =>
        rw [hdrop] at href
        simp only [↓reduceIte, Bool.false_eq_true] at href ⊢
        omega
      | false =>
        rw [hdrop] at href
        simp only [↓reduceIte, Bool.false_eq_true] at href ⊢
        omega
    . rw [moveObject_ref, reviveObject_ref]
      split
      . omega
      . omega

theorem aoiUpdate_spec {space : AoiSpace} {ends : Nat → Nat} (hc : Counted space ends)
    {id : UInt32} (hid : id ≠ invalidId) (modestring : List Char) (pos : Point)
    : ∃ space', aoiUpdate space id modestring pos = some space'
        ∧ Counted space' ends
        ∧ SameSets space space'
        ∧ ((∃ addr obj, space.heap.get addr = some obj
              ∧ obj.id = id
              ∧ ∀ a, space'.heap.get a
                  =
                if a = addr then
                  updateObject obj (ends addr) modestring pos
                else
                  space.heap.get a)
            ∨ ((∀ a o, space.heap.get a = some o → o.id ≠ id)
              ∧ ∃ addr, space.heap.get addr = none
                ∧ ∀ a, space'.heap.get a
                    =
                  if a = addr then
                    updateObject (freshObject id) 0 modestring pos
                  else
                    space.heap.get a)) := by
  obtain ⟨space1, addr, obj, hquery, hq⟩ := mapQuery_spec hc hid
  cases hq with
  | found _ _ hget hoid =>
    obtain ⟨space', hupdate, hc', hsets, hheap⟩ :=
      aoiUpdate_of_query hc hquery hget modestring pos
    exact ⟨space', hupdate, hc', hsets, Or.inl ⟨addr, obj, hget, hoid, hheap⟩⟩
  | fresh _ _ hnew hc1 hsets1 hdead hheap1 =>
    have hget : space1.heap.get addr = some (freshObject id) := by
      rw [hheap1]
      simp
    obtain ⟨space', hupdate, hc', hsets, hheap⟩ :=
      aoiUpdate_of_query hc1 hquery hget modestring pos
    refine ⟨space', hupdate, hc', hsets1.trans hsets, Or.inr ⟨hnew, addr, hdead, ?_⟩⟩
    intro a
    rw [hheap, hc.dead addr hdead, hheap1]
    split
    . rfl
    . rfl

end Caoi
