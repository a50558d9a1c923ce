import SkynetAoi.Caoi.Lemmas.Message
import SkynetAoi.Caoi.Lemmas.Track

/-!
This module contains the refinement relation between the events that the `caoi` service has received
and its space. It holds of the fresh space and every event preserves it.
-/

namespace Caoi

def EndAt (heap : Heap Object) (addr : Nat) (version : Int) (id : UInt32) : Prop :=
  ∃ obj, heap.get addr = some obj
    ∧ obj.version = version
    ∧ obj.isDrop = false
    ∧ obj.id = id

def FreshFor (heap : Heap Object) (p : PairList) (w m : UInt32) : Prop :=
  EndAt heap p.watcher p.watcherVersion w ∧ EndAt heap p.marker p.markerVersion m

theorem freshFor_iff (heap : Heap Object) (p : PairList) (w m : UInt32)
    : FreshFor heap p w m ↔ ∃ ow om, Fresh heap p ow om ∧ ow.id = w ∧ om.id = m := by
  constructor
  . rintro ⟨⟨ow, hw, hvw, hdw, hidw⟩, om, hm, hvm, hdm, hidm⟩
    exact ⟨ow, om, ⟨hw, hm, hvw, hvm, hdw, hdm⟩, hidw, hidm⟩
  . rintro ⟨ow, om, h, hidw, hidm⟩
    exact ⟨⟨ow, h.watcher, h.watcher_version, h.watcher_drop, hidw⟩,
      om, h.marker, h.marker_version, h.marker_drop, hidm⟩

structure Sound (events : List Event) (space : AoiSpace) : Prop where
  counted : Counted space (hotEnds space.hot)
  ne : ∀ p ∈ space.hot, p.watcher ≠ p.marker
  nodup : (space.hot.map PairList.ends).Nodup
  dropped : ∀ (a : Nat) (o : Object), space.heap.get a = some o → o.isDrop = true →
    o.mode = modeDrop
  -- The versions that a pair has recorded are not ahead of its objects, and an object that still
  -- has the recorded version is in its role and not marked as moved.
  watcher_version : ∀ p ∈ space.hot, ∀ (o : Object), space.heap.get p.watcher = some o →
    p.watcherVersion ≤ o.version
      ∧ (o.version = p.watcherVersion → o.isDrop = false → o.isWatcher = true ∧ o.isMove = false)
  marker_version : ∀ p ∈ space.hot, ∀ (o : Object), space.heap.get p.marker = some o →
    p.markerVersion ≤ o.version
      ∧ (o.version = p.markerVersion → o.isDrop = false → o.isMarker = true ∧ o.isMove = false)
  of_object : ∀ (a : Nat) (o : Object), space.heap.get a = some o → o.isDrop = false →
    ∃ t, track events o.id = some t ∧ Matches o t
  of_track : ∀ (id : UInt32) (t : Track), track events id = some t →
    ∃ a o, space.heap.get a = some o ∧ o.isDrop = false ∧ o.id = id
  hot : ∀ (w m : UInt32), StayedHot events w m ↔ ∃ p ∈ space.hot, FreshFor space.heap p w m

namespace Sound

variable {events : List Event} {space : AoiSpace}

theorem init : Sound [] caoiCreate := by
  have hget : ∀ a, caoiCreate.heap.get a = none := by
    intro a
    rfl
  have hhot : caoiCreate.hot = [] := rfl
  constructor
  . rw [hhot]
    have hslot : ∀ i, caoiCreate.object.slotAt i = emptySlot := by
      intro i
      unfold Map.slotAt
      rw [List.getD_eq_getElem?_getD]
      cases h : caoiCreate.object.slot[i]? with
      | none => rfl
      | some s =>
        have : s ∈ List.replicate preAlloc emptySlot := List.mem_of_getElem? h
        rw [List.mem_replicate] at this
        rw [this.2]
        rfl
    have hfree : ∀ i, ¬caoiCreate.object.Occupied i := by
      intro i
      unfold Map.Occupied
      rw [hslot]
      simp [emptySlot]
    constructor
    . constructor
      . rfl
      . exact ⟨4, rfl⟩
      . decide
      . decide
      . intro i hi hlast
        have hsize : caoiCreate.object.size = 16 := rfl
        have hfree : caoiCreate.object.lastfree = 15 := rfl
        omega
      . intro i _
        exact hslot i
      . intro i j hi
        exact absurd hi (hfree i)
      . intro h _
        refine ⟨[], Or.inl rfl, by simp, ?_⟩
        intro i
        simp [hfree i]
    . intro a o h
      rw [hget] at h
      simp at h
    . rintro id a ⟨i, -, hobj⟩
      rw [hslot] at hobj
      simp [emptySlot] at hobj
    . intro a o h
      rw [hget] at h
      simp at h
    . intro a o h
      rw [hget] at h
      simp at h
    . intro a _
      rfl
  . simp [hhot]
  . simp [hhot]
  . intro a o h
    rw [hget] at h
    simp at h
  . simp [hhot]
  . simp [hhot]
  . intro a o h
    rw [hget] at h
    simp at h
  . intro id t h
    simp [track] at h
  . intro w m
    simp [hhot, not_stayedHot_nil]

theorem quiet (h : Sound events space)
    : ∀ p ∈ space.hot, ∀ ow om, Fresh space.heap p ow om →
        ow.isMove = false ∧ om.isMove = false := by
  intro p hp ow om hfresh
  have hw := (h.watcher_version p hp ow hfresh.watcher).2 hfresh.watcher_version hfresh.watcher_drop
  have hm := (h.marker_version p hp om hfresh.marker).2 hfresh.marker_version hfresh.marker_drop
  exact ⟨hw.2, hm.2⟩

theorem get_of_track (h : Sound events space) {id : UInt32} {t : Track}
    (ht : track events id = some t)
    : ∃ a o, space.heap.get a = some o ∧ o.isDrop = false ∧ o.id = id ∧ Matches o t := by
  obtain ⟨a, o, ho, hdrop, hid⟩ := h.of_track id t ht
  obtain ⟨t', ht', hmatch⟩ := h.of_object a o ho hdrop
  rw [hid, ht, Option.some.injEq] at ht'
  rw [← ht'] at hmatch
  exact ⟨a, o, ho, hdrop, hid, hmatch⟩

theorem pair_of_fresh (h : Sound events space) {p : PairList} (hp : p ∈ space.hot) {ow om : Object}
    (hfresh : Fresh space.heap p ow om)
    : ∃ tw tm, Pair events ow.id om.id tw tm
        ∧ dist2 ow om = Point.dist2 tw.position tm.position := by
  obtain ⟨tw, htw, hmatchw⟩ := h.of_object _ ow hfresh.watcher hfresh.watcher_drop
  obtain ⟨tm, htm, hmatchm⟩ := h.of_object _ om hfresh.marker hfresh.marker_drop
  have hw := (h.watcher_version p hp ow hfresh.watcher).2 hfresh.watcher_version hfresh.watcher_drop
  have hm := (h.marker_version p hp om hfresh.marker).2 hfresh.marker_version hfresh.marker_drop
  refine ⟨tw, tm, ⟨?_, htw, htm, ?_, ?_⟩, ?_⟩
  . intro hid
    apply h.ne p hp
    exact h.counted.addr_unique hfresh.watcher hfresh.marker hid
  . rw [← hmatchw.watcher]
    exact hw.1
  . rw [← hmatchm.marker]
    exact hm.1
  . unfold dist2
    rw [hmatchw.position, hmatchm.position]

theorem active_iff (h : Sound events space) (w m : UInt32) (near : ℚ → Prop)
    : (∃ tw tm, Pair events w m tw tm
          ∧ (tw.moved = true ∨ tm.moved = true)
          ∧ near (Point.dist2 tw.position tm.position))
        ↔
      ∃ aw am ow om, Active space.heap aw am ow om
        ∧ near (dist2 ow om)
        ∧ ow.id = w
        ∧ om.id = m := by
  constructor
  . rintro ⟨tw, tm, hpair, hmoved, hnear⟩
    obtain ⟨aw, ow, how, hdropw, hidw, hmatchw⟩ := h.get_of_track hpair.watcher_track
    obtain ⟨am, om, hom, hdropm, hidm, hmatchm⟩ := h.get_of_track hpair.marker_track
    have hw : ow.isWatcher = true := by
      rw [hmatchw.watcher]
      exact hpair.watcher
    have hm : om.isMarker = true := by
      rw [hmatchm.marker]
      exact hpair.marker
    refine ⟨aw, am, ow, om, ⟨how, hom, ?_, hdropw, hdropm, hw, hm, ?_⟩, ?_, hidw, hidm⟩
    . intro heq
      rw [heq, hom, Option.some.injEq] at how
      apply hpair.ne
      rw [← hidw, ← hidm, how]
    . rw [hmatchw.move (by simp [Object.hasRole, hw]), hmatchm.move (by simp [Object.hasRole, hm])]
      exact hmoved
    . unfold dist2
      rw [hmatchw.position, hmatchm.position]
      exact hnear
  . rintro ⟨aw, am, ow, om, hact, hnear, rfl, rfl⟩
    obtain ⟨tw, htw, hmatchw⟩ := h.of_object aw ow hact.watcher hact.watcher_drop
    obtain ⟨tm, htm, hmatchm⟩ := h.of_object am om hact.marker hact.marker_drop
    have hw := hact.isWatcher
    have hm := hact.isMarker
    have hmove := hact.move
    rw [hmatchw.move (by simp [Object.hasRole, hw]), hmatchm.move (by simp [Object.hasRole, hm])]
      at hmove
    rw [hmatchw.watcher] at hw
    rw [hmatchm.marker] at hm
    unfold dist2 at hnear
    rw [hmatchw.position, hmatchm.position] at hnear
    refine ⟨tw, tm, ⟨?_, htw, htm, hw, hm⟩, hmove, hnear⟩
    intro hid
    apply hact.ne
    exact h.counted.addr_unique hact.watcher hact.marker hid

end Sound

end Caoi
