import SkynetAoi.Caoi.Space
import SkynetAoi.Caoi.Lemmas.MapQuery

/-!
This module contains the reference counts of the objects: the map stores every live object under its
own id, and an object is referred to by the map as long as it is not dropped and by every end of a
hot pair. How many ends there are is a parameter, it changes while the hot list is walked.
-/

namespace Caoi

structure Counted (space : AoiSpace) (ends : Nat → Nat) : Prop where
  wf : space.object.WF
  stored : ∀ (addr : Nat) (obj : Object), space.heap.get addr = some obj →
    space.object.Stores obj.id addr
  live : ∀ (id : UInt32) (addr : Nat), space.object.Stores id addr →
    ∃ obj, space.heap.get addr = some obj ∧ obj.id = id
  ref : ∀ (addr : Nat) (obj : Object), space.heap.get addr = some obj →
    obj.ref = (if obj.isDrop then 0 else 1) + (ends addr : Int)
  pos : ∀ (addr : Nat) (obj : Object), space.heap.get addr = some obj → 1 ≤ obj.ref
  dead : ∀ (addr : Nat), space.heap.get addr = none → ends addr = 0

structure SameSets (space space' : AoiSpace) : Prop where
  hot : space'.hot = space.hot
  watcherStatic : space'.watcherStatic = space.watcherStatic
  markerStatic : space'.markerStatic = space.markerStatic
  watcherMove : space'.watcherMove = space.watcherMove
  markerMove : space'.markerMove = space.markerMove

namespace SameSets

theorem refl (space : AoiSpace) : SameSets space space := by
  constructor <;> rfl

theorem trans {s1 s2 s3 : AoiSpace} (h12 : SameSets s1 s2) (h23 : SameSets s2 s3)
    : SameSets s1 s3 where
  hot := by rw [h23.hot, h12.hot]
  watcherStatic := by rw [h23.watcherStatic, h12.watcherStatic]
  markerStatic := by rw [h23.markerStatic, h12.markerStatic]
  watcherMove := by rw [h23.watcherMove, h12.watcherMove]
  markerMove := by rw [h23.markerMove, h12.markerMove]

end SameSets

namespace Counted

variable {space : AoiSpace} {ends : Nat → Nat}

theorem exists_of_end (hc : Counted space ends) {addr : Nat} (h : 0 < ends addr)
    : ∃ obj, space.heap.get addr = some obj := by
  cases hget : space.heap.get addr with
  | none =>
    have := hc.dead addr hget
    omega
  | some obj => exact ⟨obj, rfl⟩

theorem addr_unique (hc : Counted space ends) {a b : Nat} {oa ob : Object}
    (ha : space.heap.get a = some oa) (hb : space.heap.get b = some ob) (hid : oa.id = ob.id)
    : a = b := by
  have h1 := hc.stored a oa ha
  have h2 := hc.stored b ob hb
  rw [← hid] at h2
  exact hc.wf.stores_unique h1 h2

theorem nodup_foreach (hc : Counted space ends) : (mapForeach space.object).Nodup := by
  apply nodup_mapForeach hc.wf
  intro id id' addr h h'
  obtain ⟨obj, hget, hid⟩ := hc.live id addr h
  obtain ⟨obj', hget', hid'⟩ := hc.live id' addr h'
  rw [hget] at hget'
  simp only [Option.some.injEq] at hget'
  rw [← hid, ← hid', hget']

theorem mem_foreach (hc : Counted space ends) (addr : Nat)
    : addr ∈ mapForeach space.object ↔ ∃ obj, space.heap.get addr = some obj := by
  rw [mem_mapForeach hc.wf]
  constructor
  . rintro ⟨id, h⟩
    obtain ⟨obj, hget, -⟩ := hc.live id addr h
    exact ⟨obj, hget⟩
  . rintro ⟨obj, h⟩
    exact ⟨obj.id, hc.stored addr obj h⟩

theorem write (hc : Counted space ends) {addr : Nat} {obj : Object}
    (hget : space.heap.get addr = some obj) (obj' : Object) (hid : obj'.id = obj.id)
    (ends' : Nat → Nat)
    (hends : ∀ a, a ≠ addr → ends' a = ends a)
    (href : obj'.ref = (if obj'.isDrop then 0 else 1) + (ends' addr : Int)) (hpos : 1 ≤ obj'.ref)
    {heap : Heap Object} (hheap : ∀ a, heap.get a = if a = addr then some obj' else space.heap.get a)
    : Counted { space with heap := heap } ends' where
  wf := hc.wf
  stored := by
    intro a o h
    dsimp only at h
    rw [hheap] at h
    split at h
    . next heq =>
      simp only [Option.some.injEq] at h
      rw [← h, hid, heq]
      exact hc.stored addr obj hget
    . exact hc.stored a o h
  live := by
    intro id a h
    dsimp only
    rw [hheap]
    obtain ⟨o, ho, hoid⟩ := hc.live id a h
    split
    . next heq =>
      rw [heq, hget] at ho
      simp only [Option.some.injEq] at ho
      refine ⟨obj', rfl, ?_⟩
      rw [hid, ho, hoid]
    . exact ⟨o, ho, hoid⟩
  ref := by
    intro a o h
    dsimp only at h
    rw [hheap] at h
    split at h
    . next heq =>
      simp only [Option.some.injEq] at h
      rw [← h, heq]
      exact href
    . next hne =>
      rw [hends a hne]
      exact hc.ref a o h
  pos := by
    intro a o h
    dsimp only at h
    rw [hheap] at h
    split at h
    . simp only [Option.some.injEq] at h
      rw [← h]
      exact hpos
    . exact hc.pos a o h
  dead := by
    intro a h
    dsimp only at h
    rw [hheap] at h
    split at h
    . simp at h
    . next hne =>
      rw [hends a hne]
      exact hc.dead a h

theorem cookie (hc : Counted space ends) (cookie : AllocCookie)
    : Counted { space with cookie := cookie } ends where
  wf := hc.wf
  stored := hc.stored
  live := hc.live
  ref := hc.ref
  pos := hc.pos
  dead := hc.dead

theorem release (hc : Counted space ends) {addr : Nat} {obj : Object}
    (hget : space.heap.get addr = some obj) (ends' : Nat → Nat)
    (hends : ∀ a, a ≠ addr → ends' a = ends a) (hzero : ends' addr = 0)
    {m : Map} (hm : m.WF)
    (hstores : ∀ id a, m.Stores id a ↔ id ≠ obj.id ∧ space.object.Stores id a)
    {heap : Heap Object} (hheap : ∀ a, heap.get a = if a = addr then none else space.heap.get a)
    : Counted { space with heap := heap, object := m } ends' := by
  have hlive : ∀ a o, heap.get a = some o → a ≠ addr ∧ space.heap.get a = some o := by
    intro a o h
    rw [hheap] at h
    split at h
    . simp at h
    . next hne => exact ⟨hne, h⟩
  constructor
  . exact hm
  . intro a o h
    obtain ⟨hne, h⟩ := hlive a o h
    rw [hstores]
    refine ⟨?_, hc.stored a o h⟩
    intro heq
    exact hne (hc.addr_unique h hget heq)
  . intro id a h
    rw [hstores] at h
    obtain ⟨o, ho, hid⟩ := hc.live id a h.2
    refine ⟨o, ?_, hid⟩
    dsimp only
    rw [hheap]
    split
    . next heq =>
      rw [heq, hget] at ho
      simp only [Option.some.injEq] at ho
      rw [ho] at h
      exact absurd hid.symm h.1
    . exact ho
  . intro a o h
    obtain ⟨hne, h⟩ := hlive a o h
    rw [hends a hne]
    exact hc.ref a o h
  . intro a o h
    obtain ⟨hne, h⟩ := hlive a o h
    exact hc.pos a o h
  . intro a h
    dsimp only at h
    rw [hheap] at h
    split at h
    . next heq =>
      rw [heq]
      exact hzero
    . next hne =>
      rw [hends a hne]
      exact hc.dead a h

end Counted

theorem grabObject_spec {space : AoiSpace} {ends : Nat → Nat} (hc : Counted space ends) {addr : Nat}
    {obj : Object} (hget : space.heap.get addr = some obj)
    : ∃ space', grabObject space addr = some space'
        ∧ Counted space' (fun a => if a = addr then ends a + 1 else ends a)
        ∧ SameSets space space'
        ∧ ∀ a, space'.heap.get a
            = if a = addr then some { obj with ref := obj.ref + 1 } else space.heap.get a := by
  obtain ⟨heap, hwrite, hheap⟩ := Heap.write_of_get hget { obj with ref := obj.ref + 1 }
  refine ⟨{ space with heap := heap }, ?_, ?_, by constructor <;> rfl, hheap⟩
  . unfold grabObject
    rw [hget]
    dsimp only
    rw [hwrite]
  . have href := hc.ref addr obj hget
    have hpos := hc.pos addr obj hget
    refine hc.write hget { obj with ref := obj.ref + 1 } rfl _ ?_ ?_ ?_ hheap
    . intro a hne
      simp [hne]
    . have : ({ obj with ref := obj.ref + 1 } : Object).isDrop = obj.isDrop := rfl
      rw [this]
      generalize (if obj.isDrop then (0 : Int) else 1) = own at href ⊢
      simp only [↓reduceIte]
      omega
    . dsimp only
      omega

theorem dropObject_spec {space : AoiSpace} {ends : Nat → Nat} (hc : Counted space ends) {addr : Nat}
    {obj : Object} (hget : space.heap.get addr = some obj) (hend : 0 < ends addr)
    : ∃ space', dropObject space addr = some space'
        ∧ Counted space' (fun a => if a = addr then ends a - 1 else ends a)
        ∧ SameSets space space'
        ∧ ∀ a, space'.heap.get a
            =
          if a = addr then
            if obj.isDrop ∧ ends addr = 1 then none else some { obj with ref := obj.ref - 1 }
          else
            space.heap.get a := by
  have href := hc.ref addr obj hget
  obtain ⟨heap, hwrite, hheap⟩ := Heap.write_of_get hget { obj with ref := obj.ref - 1 }
  unfold dropObject
  rw [hget]
  dsimp only
  rw [hwrite]
  dsimp only
  by_cases hzero : obj.isDrop ∧ ends addr = 1
  . have hle : obj.ref - 1 ≤ 0 := by
      simp only [hzero.1, hzero.2, ↓reduceIte] at href
      omega
    obtain ⟨m, hdrop, hwf, hstores⟩ := mapDrop_spec hc.wf (hc.stored addr obj hget)
    have hget' : heap.get addr = some { obj with ref := obj.ref - 1 } := by
      rw [hheap]
      simp
    obtain ⟨heap', hfree, hheap'⟩ := Heap.free_of_get hget'
    have hheap'' : ∀ a, heap'.get a = if a = addr then none else space.heap.get a := by
      intro a
      rw [hheap', hheap]
      split
      . rfl
      . rfl
    simp only [hle, ↓reduceIte]
    rw [hdrop]
    unfold deleteObject
    dsimp only
    rw [hfree]
    refine ⟨_, rfl, ?_, by constructor <;> rfl, ?_⟩
    . refine (hc.release hget _ ?_ ?_ hwf hstores hheap'').cookie _
      . intro a hne
        simp [hne]
      . simp [hzero.2]
    . intro a
      dsimp only
      rw [hheap'']
      simp [hzero]
  . have hpos : 1 ≤ obj.ref - 1 := by
      cases hdrop : obj.isDrop with
      | true =>
        simp only [hdrop, true_and] at hzero
        simp only [hdrop, ↓reduceIte] at href
        omega
      | false =>
        simp only [hdrop, Bool.false_eq_true, ↓reduceIte] at href
        omega
    have hle : ¬obj.ref - 1 ≤ 0 := by omega
    simp only [hle, ↓reduceIte]
    refine ⟨_, rfl, ?_, by constructor <;> rfl, ?_⟩
    . refine hc.write hget { obj with ref := obj.ref - 1 } rfl _ ?_ ?_ hpos hheap
      . intro a hne
        simp [hne]
      . have : ({ obj with ref := obj.ref - 1 } : Object).isDrop = obj.isDrop := rfl
        rw [this]
        generalize (if obj.isDrop then (0 : Int) else 1) = own at href ⊢
        simp only [↓reduceIte]
        omega
    . intro a
      dsimp only
      rw [hheap]
      simp only [hzero, ↓reduceIte]

end Caoi
