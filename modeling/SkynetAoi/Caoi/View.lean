import SkynetAoi.Caoi.Refine.Message
import SkynetAoi.Caoi.Refine.Update
import Mathlib.Data.Set.Card

/-!
This module contains what one can tell about a space without looking at addresses, slots and the
order of its lists: the object of each id and the hot pairs by the ids of their ends. Both events of
the `caoi` service act on this view alone.
-/

namespace Caoi

structure HotPair where
  watcher : UInt32
  marker : UInt32
  watcherVersion : Int
  markerVersion : Int
  deriving DecidableEq, Repr

@[ext]
structure View where
  object : UInt32 → Option Object
  hot : Set HotPair

namespace View

noncomputable def ends (hot : Set HotPair) (id : UInt32) : Nat :=
  {p ∈ hot | p.watcher = id}.ncard + {p ∈ hot | p.marker = id}.ncard

structure Fresh (v : View) (p : HotPair) (w m : Object) : Prop where
  watcher : v.object p.watcher = some w
  marker : v.object p.marker = some m
  watcher_version : w.version = p.watcherVersion
  marker_version : m.version = p.markerVersion
  watcher_drop : w.isDrop = false
  marker_drop : m.isDrop = false

structure Active (v : View) (w m : UInt32) (ow om : Object) : Prop where
  watcher : v.object w = some ow
  marker : v.object m = some om
  ne : w ≠ m
  watcher_drop : ow.isDrop = false
  marker_drop : om.isDrop = false
  isWatcher : ow.isWatcher = true
  isMarker : om.isMarker = true
  move : ow.isMove = true ∨ om.isMove = true

noncomputable def update (v : View) (id : UInt32) (modestring : List Char) (pos : Point) : View :=
  let obj := (v.object id).getD (freshObject id)
  { v with
    object := Function.update v.object id (updateObject obj (ends v.hot id) modestring pos)
  }

def reports (v : View) : Set (UInt32 × UInt32) :=
  {cb |
    (∃ p ∈ v.hot, ∃ w m, v.Fresh p w m ∧ dist2 w m < aoiRadis2 ∧ cb = (p.watcher, p.marker))
      ∨ ∃ w m, v.Active cb.1 cb.2 w m ∧ dist2 w m < aoiRadis2}

def nextHot (v : View) : Set HotPair :=
  {p |
    (p ∈ v.hot ∧ ∃ w m, v.Fresh p w m ∧ dist2 w m = aoiRadis2)
      ∨ ∃ w m, v.Active p.watcher p.marker w m
        ∧ dist2 w m = aoiRadis2
        ∧ w.version = p.watcherVersion
        ∧ m.version = p.markerVersion}

-- The dropped objects are gone, the others hold one reference for the map.
noncomputable def message (v : View) : View where
  object := fun id =>
    match v.object id with
    | none => none
    | some o => if o.isDrop then none else some { o.settle with ref := 1 + ends v.nextHot id }
  hot := v.nextHot

noncomputable def step (v : View) (event : Event) : View :=
  match event with
  | .update id modestring pos => v.update id modestring pos
  | .message => v.message

theorem update_comm (v : View) {id id' : UInt32} (hne : id ≠ id') (modestring modestring' : List Char)
    (pos pos' : Point)
    : (v.update id modestring pos).update id' modestring' pos'
        =
      (v.update id' modestring' pos').update id modestring pos := by
  unfold update
  dsimp only
  rw [Function.update_of_ne hne.symm, Function.update_of_ne hne, Function.update_comm hne]

end View

def objects (space : AoiSpace) : List Object :=
  (mapForeach space.object).filterMap space.heap.get

def hotPair (heap : Heap Object) (p : PairList) : HotPair where
  watcher := idAt heap p.watcher
  marker := idAt heap p.marker
  watcherVersion := p.watcherVersion
  markerVersion := p.markerVersion

def hotPairs (space : AoiSpace) : List HotPair :=
  space.hot.map (hotPair space.heap)

def objectAt (space : AoiSpace) (id : UInt32) : Option Object :=
  (objects space).find? (·.id == id)

def view (space : AoiSpace) : View where
  object := objectAt space
  hot := {p | p ∈ hotPairs space}

theorem idAt_of_get {heap : Heap Object} {a : Nat} {o : Object} (h : heap.get a = some o)
    : idAt heap a = o.id := by
  unfold idAt
  rw [h]

namespace Counted

variable {space : AoiSpace} {ends : Nat → Nat}

theorem mem_objects (hc : Counted space ends) (o : Object)
    : o ∈ objects space ↔ ∃ a, space.heap.get a = some o := by
  unfold objects
  rw [List.mem_filterMap]
  constructor
  . rintro ⟨a, -, ho⟩
    exact ⟨a, ho⟩
  . rintro ⟨a, ho⟩
    refine ⟨a, ?_, ho⟩
    rw [hc.mem_foreach]
    exact ⟨o, ho⟩

theorem nodup_objects (hc : Counted space ends) : (objects space).Nodup := by
  apply List.Nodup.filterMap
  . intro a b o ha hb
    exact hc.addr_unique ha hb rfl
  . exact hc.nodup_foreach

theorem objectAt_eq_some_iff (hc : Counted space ends) (id : UInt32) (o : Object)
    : objectAt space id = some o ↔ ∃ a, space.heap.get a = some o ∧ o.id = id := by
  unfold objectAt
  constructor
  . intro h
    have hmem := List.mem_of_find?_eq_some h
    have hid := List.find?_some h
    rw [hc.mem_objects] at hmem
    obtain ⟨a, ha⟩ := hmem
    exact ⟨a, ha, by simpa using hid⟩
  . rintro ⟨a, ha, hid⟩
    cases hfind : (objects space).find? (·.id == id) with
    | none =>
      rw [List.find?_eq_none] at hfind
      have := hfind o ((hc.mem_objects o).mpr ⟨a, ha⟩)
      simp [hid] at this
    | some o' =>
      have hmem := List.mem_of_find?_eq_some hfind
      have hid' := List.find?_some hfind
      rw [hc.mem_objects] at hmem
      obtain ⟨a', ha'⟩ := hmem
      simp only [beq_iff_eq] at hid'
      have haddr := hc.addr_unique ha' ha (by rw [hid, hid'])
      rw [haddr, ha] at ha'
      exact ha'.symm

theorem objectAt_idAt (hc : Counted space ends) {a : Nat} {o : Object}
    (ho : space.heap.get a = some o) : objectAt space (idAt space.heap a) = some o := by
  rw [hc.objectAt_eq_some_iff]
  exact ⟨a, ho, (idAt_of_get ho).symm⟩

theorem idAt_inj (hc : Counted space ends) {a b : Nat} {oa ob : Object}
    (ha : space.heap.get a = some oa) (hb : space.heap.get b = some ob)
    : idAt space.heap a = idAt space.heap b ↔ a = b := by
  rw [idAt_of_get ha, idAt_of_get hb]
  constructor
  . intro h
    exact hc.addr_unique ha hb h
  . rintro rfl
    rw [ha, Option.some.injEq] at hb
    rw [hb]

end Counted

end Caoi
