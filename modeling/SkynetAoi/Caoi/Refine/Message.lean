import SkynetAoi.Caoi.Refine.Basic

/-!
This module contains the refinement proof for `aoi_message`.
-/

namespace Caoi

theorem Matches.of_core {o o' : Object} {t : Track} (h : Matches o t) (hcore : o'.core = o.core)
    : Matches o' t := by
  rw [Object.core_eq_iff] at hcore
  constructor
  . unfold Object.isWatcher
    rw [hcore.2.2.1]
    exact h.watcher
  . unfold Object.isMarker
    rw [hcore.2.2.1]
    exact h.marker
  . rw [hcore.2.2.2.2, h.position]
  . rw [hcore.2.2.2.1, h.last]
  . rw [hcore.2.2.1]
    exact h.mode
  . unfold Object.hasRole Object.isWatcher Object.isMarker Object.isMove
    rw [hcore.2.2.1]
    exact h.move

namespace Walks

variable {space space' : AoiSpace} {heap : Heap Object} {addrs : List Nat}
  {cbs : List (UInt32 × UInt32)}

theorem endAt_iff (h : Walks space heap addrs space' cbs) (a : Nat) (version : Int) (id : UInt32)
    : EndAt space'.heap a version id ↔ EndAt space.heap a version id := by
  constructor
  . rintro ⟨o', ho', hversion, -, hid⟩
    obtain ⟨o, ho, hdrop, hcore⟩ := h.get_some ho'
    rw [Object.core_eq_iff, Object.settle_id, Object.settle_version] at hcore
    refine ⟨o, ho, ?_, hdrop, ?_⟩
    . rw [← hcore.2.1, hversion]
    . rw [← hcore.1, hid]
  . rintro ⟨o, ho, hversion, hdrop, hid⟩
    obtain ⟨o', ho', hcore⟩ := h.get_of ho hdrop
    have hdrop' := Object.isDrop_of_core hcore
    rw [Object.settle_isDrop, hdrop] at hdrop'
    rw [Object.core_eq_iff, Object.settle_id, Object.settle_version] at hcore
    refine ⟨o', ho', ?_, hdrop', ?_⟩
    . rw [hcore.2.1, hversion]
    . rw [hcore.1, hid]

theorem freshFor_iff (h : Walks space heap addrs space' cbs) (p : PairList) (w m : UInt32)
    : FreshFor space'.heap p w m ↔ FreshFor space.heap p w m := by
  unfold FreshFor
  rw [h.endAt_iff, h.endAt_iff]

end Walks

theorem Object.isMove_of_settled {o o' : Object} (hcore : o'.core = o.settle.core)
    (hrole : o.hasRole = true) : o'.isMove = false := by
  have : o'.isMove = o.settle.isMove := by
    rw [Object.core_eq_iff] at hcore
    unfold Object.isMove
    rw [hcore.2.2.1]
  rw [this, Object.settle_isMove, hrole]
  simp

namespace Sound

variable {events : List Event} {space space' : AoiSpace} {heap : Heap Object} {addrs : List Nat}
  {cbs : List (UInt32 × UInt32)}

theorem hot_cases (h : Sound events space) (hw : Walks space heap addrs space' cbs) {p : PairList}
    (hp : p ∈ space'.hot)
    : ∃ ow om, Fresh space.heap p ow om
        ∧ p.watcher ≠ p.marker
        ∧ ow.isWatcher = true
        ∧ om.isMarker = true := by
  rw [hw.mem_hot] at hp
  rcases hp with ⟨hp, ow, om, hfresh, -⟩ | ⟨ow, om, hact, -, hvw, hvm⟩
  . have hw := h.watcher_version p hp ow hfresh.watcher
    have hm := h.marker_version p hp om hfresh.marker
    exact ⟨ow, om, hfresh, h.ne p hp, (hw.2 hfresh.watcher_version hfresh.watcher_drop).1,
      (hm.2 hfresh.marker_version hfresh.marker_drop).1⟩
  . exact ⟨ow, om, ⟨hact.watcher, hact.marker, hvw, hvm, hact.watcher_drop, hact.marker_drop⟩,
      hact.ne, hact.isWatcher, hact.isMarker⟩

theorem hot_message (h : Sound events space) (hw : Walks space heap addrs space' cbs)
    (w m : UInt32)
    : StayedHot (events ++ [.message]) w m ↔ ∃ p ∈ space'.hot, FreshFor space'.heap p w m := by
  simp only [hw.freshFor_iff]
  rw [stayedHot_append]
  constructor
  . rintro (⟨hstayed, tw, tm, hpair, hedge⟩ | ⟨-, hheats⟩)
    . obtain ⟨p, hp, hfreshFor⟩ := (h.hot w m).mp hstayed
      obtain ⟨ow, om, hfresh, rfl, rfl⟩ := (freshFor_iff _ _ _ _).mp hfreshFor
      refine ⟨p, ?_, hfreshFor⟩
      obtain ⟨tw', tm', hpair', hdist⟩ := h.pair_of_fresh hp hfresh
      have htw := hpair.watcher_track
      have htm := hpair.marker_track
      rw [hpair'.watcher_track, Option.some.injEq] at htw
      rw [hpair'.marker_track, Option.some.injEq] at htm
      rw [hw.mem_hot]
      left
      refine ⟨hp, ow, om, hfresh, ?_⟩
      rw [hdist, htw, htm, hedge]
    . obtain ⟨aw, am, ow, om, hact, hedge, rfl, rfl⟩ :=
        (h.active_iff w m (· = aoiRadis2)).mp hheats
      refine ⟨⟨aw, am, ow.version, om.version⟩, ?_, ?_⟩
      . rw [hw.mem_hot]
        right
        exact ⟨ow, om, hact, hedge, rfl, rfl⟩
      . exact ⟨⟨ow, hact.watcher, rfl, hact.watcher_drop, rfl⟩,
          om, hact.marker, rfl, hact.marker_drop, rfl⟩
  . rintro ⟨p, hp, hfreshFor⟩
    rw [hw.mem_hot] at hp
    rcases hp with ⟨hp, ow, om, hfresh, hedge⟩ | ⟨ow, om, hact, hedge, -, -⟩
    . left
      refine ⟨(h.hot w m).mpr ⟨p, hp, hfreshFor⟩, ?_⟩
      obtain ⟨ow', om', hfresh', rfl, rfl⟩ := (freshFor_iff _ _ _ _).mp hfreshFor
      obtain ⟨tw, tm, hpair, hdist⟩ := h.pair_of_fresh hp hfresh'
      have how := hfresh.watcher
      have hom := hfresh.marker
      rw [hfresh'.watcher, Option.some.injEq] at how
      rw [hfresh'.marker, Option.some.injEq] at hom
      refine ⟨tw, tm, hpair, ?_⟩
      rw [← hdist, how, hom, hedge]
    . right
      refine ⟨rfl, ?_⟩
      rw [h.active_iff w m (· = aoiRadis2)]
      obtain ⟨ow', om', hfresh', rfl, rfl⟩ := (freshFor_iff _ _ _ _).mp hfreshFor
      have how := hact.watcher
      have hom := hact.marker
      rw [hfresh'.watcher, Option.some.injEq] at how
      rw [hfresh'.marker, Option.some.injEq] at hom
      rw [how, hom]
      exact ⟨p.watcher, p.marker, ow, om, hact, hedge, rfl, rfl⟩

theorem message (h : Sound events space) (hw : Walks space heap addrs space' cbs)
    : Sound (events ++ [.message]) space' where
  counted := hw.counted
  ne := by
    intro p hp
    obtain ⟨-, -, -, hne, -⟩ := h.hot_cases hw hp
    exact hne
  nodup := hw.nodup_hot h.nodup h.quiet
  dropped := by
    intro a o' ho' hdrop'
    obtain ⟨o, ho, hdrop, hcore⟩ := hw.get_some ho'
    rw [Object.isDrop_of_core hcore, Object.settle_isDrop, hdrop] at hdrop'
    simp at hdrop'
  watcher_version := by
    intro p hp o' ho'
    obtain ⟨o, ho, hdrop, hcore⟩ := hw.get_some ho'
    obtain ⟨ow, om, hfresh, -, hisw, -⟩ := h.hot_cases hw hp
    have := hfresh.watcher
    rw [ho, Option.some.injEq] at this
    subst this
    have hmove := Object.isMove_of_settled hcore (by simp [Object.hasRole, hisw])
    rw [Object.core_eq_iff, Object.settle_version] at hcore
    refine ⟨?_, ?_⟩
    . rw [hcore.2.1, hfresh.watcher_version]
    . intro _ _
      refine ⟨?_, hmove⟩
      unfold Object.isWatcher
      rw [hcore.2.2.1]
      rw [← Object.settle_isWatcher] at hisw
      exact hisw
  marker_version := by
    intro p hp o' ho'
    obtain ⟨o, ho, hdrop, hcore⟩ := hw.get_some ho'
    obtain ⟨ow, om, hfresh, -, -, hism⟩ := h.hot_cases hw hp
    have := hfresh.marker
    rw [ho, Option.some.injEq] at this
    subst this
    have hmove := Object.isMove_of_settled hcore (by simp [Object.hasRole, hism])
    rw [Object.core_eq_iff, Object.settle_version] at hcore
    refine ⟨?_, ?_⟩
    . rw [hcore.2.1, hfresh.marker_version]
    . intro _ _
      refine ⟨?_, hmove⟩
      unfold Object.isMarker
      rw [hcore.2.2.1]
      rw [← Object.settle_isMarker] at hism
      exact hism
  of_object := by
    intro a o' ho' _
    obtain ⟨o, ho, hdrop, hcore⟩ := hw.get_some ho'
    obtain ⟨t, ht, hmatch⟩ := h.of_object a o ho hdrop
    have hid := ((Object.core_eq_iff _ _).mp hcore).1
    rw [Object.settle_id] at hid
    refine ⟨{ t with moved := false }, ?_, ?_⟩
    . rw [track_message, hid, ht]
      rfl
    . exact hmatch.settle.of_core hcore
  of_track := by
    intro id t ht
    rw [track_message, Option.map_eq_some_iff] at ht
    obtain ⟨t0, ht0, -⟩ := ht
    obtain ⟨a, o, ho, hdrop, hid⟩ := h.of_track id t0 ht0
    obtain ⟨o', ho', hcore⟩ := hw.get_of ho hdrop
    have hdrop' := Object.isDrop_of_core hcore
    rw [Object.settle_isDrop, hdrop] at hdrop'
    rw [Object.core_eq_iff, Object.settle_id] at hcore
    refine ⟨a, o', ho', hdrop', ?_⟩
    rw [hcore.1, hid]
  hot := h.hot_message hw

end Sound

end Caoi
