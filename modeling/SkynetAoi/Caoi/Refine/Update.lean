import SkynetAoi.Caoi.Refine.Basic

/-!
This module contains the refinement proof for `aoi_update`.
-/

namespace Caoi

theorem reviveObject_mode {obj : Object} (h : obj.mode = modeDrop ∨ obj.mode = 0)
    : (reviveObject obj).mode = 0 := by
  unfold reviveObject Object.isDrop
  cases h with
  | inl h =>
    rw [h]
    rfl
  | inr h =>
    rw [h]
    exact h

theorem reviveObject_version (obj : Object) : (reviveObject obj).version = obj.version := by
  unfold reviveObject
  split
  . rfl
  . rfl

/--
One `aoi_update` of `id`, where `obj` is the object that `map_query` has found or made at `addr`.
-/
structure Updates (space : AoiSpace) (id : UInt32) (modestring : List Char) (pos : Point)
    (addr : Nat) (obj : Object) (space' : AoiSpace) : Prop where
  counted : Counted space' (hotEnds space.hot)
  hot : space'.hot = space.hot
  obj_id : obj.id = id
  get : ∀ (a : Nat), space'.heap.get a
    =
  if a = addr then
    updateObject obj (hotEnds space.hot addr) modestring pos
  else
    space.heap.get a
  old : space.heap.get addr = some obj
    ∨ (space.heap.get addr = none ∧ obj = freshObject id)
  other : ∀ (a : Nat) (o : Object), a ≠ addr → space.heap.get a = some o → o.id ≠ id

theorem aoiUpdate_updates {space : AoiSpace} (hc : Counted space (hotEnds space.hot)) {id : UInt32}
    (hid : id ≠ invalidId) (modestring : List Char) (pos : Point)
    : ∃ space' addr obj, aoiUpdate space id modestring pos = some space'
        ∧ Updates space id modestring pos addr obj space' := by
  obtain ⟨space', hupdate, hc', hsets, hcases⟩ := aoiUpdate_spec hc hid modestring pos
  rcases hcases with ⟨addr, obj, hget, hoid, hheap⟩ | ⟨hnew, addr, hdead, hheap⟩
  . refine ⟨space', addr, obj, hupdate, hc', hsets.hot, hoid, hheap, Or.inl hget, ?_⟩
    intro a o hne ho heq
    apply hne
    apply hc.addr_unique ho hget
    rw [heq, hoid]
  . refine ⟨space', addr, freshObject id, hupdate, hc', hsets.hot, rfl, ?_, Or.inr ⟨hdead, rfl⟩, ?_⟩
    . rw [hc.dead addr hdead]
      exact hheap
    . intro a o _ ho
      exact hnew a o ho

namespace Updates

variable {space space' : AoiSpace} {id : UInt32} {modestring : List Char} {pos : Point} {addr : Nat}
  {obj : Object} {events : List Event}

theorem get_addr (h : Updates space id modestring pos addr obj space')
    : space'.heap.get addr = updateObject obj (hotEnds space.hot addr) modestring pos := by
  rw [h.get]
  simp

theorem get_other (h : Updates space id modestring pos addr obj space') {a : Nat} (hne : a ≠ addr)
    : space'.heap.get a = space.heap.get a := by
  rw [h.get]
  simp [hne]

theorem not_drop (h : Updates space id modestring pos addr obj space') {o' : Object}
    (ho' : space'.heap.get addr = some o') (hdrop : o'.isDrop = false)
    : 'd' ∉ modestring
        ∧ o' = moveObject (reviveObject obj) ('w' ∈ modestring) ('m' ∈ modestring) pos := by
  rw [h.get_addr] at ho'
  unfold updateObject at ho'
  split at ho'
  . exfalso
    split at ho'
    . next hobj =>
      rw [Option.some.injEq] at ho'
      rw [ho', hdrop] at hobj
      simp at hobj
    . split at ho'
      . simp at ho'
      . rw [Option.some.injEq] at ho'
        rw [← ho'] at hdrop
        simp [Object.isDrop, modeDrop] at hdrop
  . next hd =>
    rw [Option.some.injEq] at ho'
    exact ⟨hd, ho'.symm⟩

theorem get_moved (h : Updates space id modestring pos addr obj space') (hd : 'd' ∉ modestring)
    : space'.heap.get addr
        =
      some (moveObject (reviveObject obj) ('w' ∈ modestring) ('m' ∈ modestring) pos) := by
  rw [h.get_addr]
  simp [updateObject, hd]

theorem old_cases (h : Updates space id modestring pos addr obj space') (hs : Sound events space)
    : (∃ t, track events id = some t
          ∧ Matches obj t
          ∧ obj.isDrop = false
          ∧ space.heap.get addr = some obj)
        ∨ (track events id = none ∧ (reviveObject obj).mode = 0) := by
  cases ht : track events id with
  | some t =>
    left
    obtain ⟨a, o, ho, hdrop, hoid, hmatch⟩ := hs.get_of_track ht
    have ha : a = addr := by
      apply Classical.byContradiction
      intro hne
      exact h.other a o hne ho hoid
    rw [ha] at ho
    rcases h.old with hobj | ⟨hnone, -⟩
    . rw [hobj, Option.some.injEq] at ho
      rw [← ho] at hmatch hdrop
      exact ⟨t, rfl, hmatch, hdrop, hobj⟩
    . rw [hnone] at ho
      simp at ho
  | none =>
    right
    refine ⟨rfl, ?_⟩
    rcases h.old with hobj | ⟨-, rfl⟩
    . cases hdrop : obj.isDrop with
      | true =>
        apply reviveObject_mode
        exact Or.inl (hs.dropped addr obj hobj hdrop)
      | false =>
        obtain ⟨t, ht', -⟩ := hs.of_object addr obj hobj hdrop
        rw [h.obj_id, ht] at ht'
        simp at ht'
    . apply reviveObject_mode
      exact Or.inr rfl

theorem moved_matches (h : Updates space id modestring pos addr obj space') (hs : Sound events space)
    (hd : 'd' ∉ modestring)
    : ∃ t, Track.update (track events id) modestring pos = some t
        ∧ Matches (moveObject (reviveObject obj) ('w' ∈ modestring) ('m' ∈ modestring) pos) t := by
  unfold Track.update
  rw [if_neg hd]
  rcases h.old_cases hs with ⟨t, ht, hmatch, hdrop, -⟩ | ⟨ht, hmode⟩
  . rw [ht, reviveObject_of_not_drop hdrop, moveObject_eq]
    dsimp only
    rw [hmatch.marks]
    split
    . exact ⟨_, rfl, matches_marked obj _ _ pos _⟩
    . exact ⟨_, rfl, hmatch.move_away pos⟩
  . rw [ht, moveObject_eq]
    have hmarked : (reviveObject obj).marked ('w' ∈ modestring) ('m' ∈ modestring) pos = true := by
      simp [Object.marked, hmode]
    rw [if_pos hmarked]
    exact ⟨_, rfl, matches_marked (reviveObject obj) _ _ pos _⟩

theorem kept (h : Updates space id modestring pos addr obj space') (hs : Sound events space)
    {a : Nat} {o o' : Object} (ho : space.heap.get a = some o) (ho' : space'.heap.get a = some o')
    (hdrop : o'.isDrop = false)
    : o.version < o'.version
        ∨ (o'.version = o.version
          ∧ o.isDrop = false
          ∧ o'.mode = o.mode
          ∧ o'.id = o.id
          ∧ (o.id = id → 'd' ∉ modestring ∧ Track.marks (track events id) modestring pos = false)) := by
  by_cases ha : a = addr
  . subst ha
    obtain ⟨hd, rfl⟩ := h.not_drop ho' hdrop
    have hobj : o = obj := by
      rcases h.old with hobj | ⟨hnone, -⟩
      . rw [ho, Option.some.injEq] at hobj
        exact hobj
      . rw [ho] at hnone
        simp at hnone
    subst hobj
    rw [moveObject_eq]
    split
    . left
      dsimp only
      rw [reviveObject_version]
      omega
    . next hmarked =>
      right
      rcases h.old_cases hs with ⟨t, ht, hmatch, holddrop, -⟩ | ⟨-, hmode⟩
      . rw [reviveObject_of_not_drop holddrop] at hmarked ⊢
        refine ⟨rfl, holddrop, rfl, rfl, ?_⟩
        intro _
        refine ⟨hd, ?_⟩
        rw [ht, hmatch.marks]
        simpa using hmarked
      . exfalso
        apply hmarked
        simp [Object.marked, hmode]
  . right
    rw [h.get_other ha, ho, Option.some.injEq] at ho'
    subst ho'
    refine ⟨rfl, hdrop, rfl, rfl, ?_⟩
    intro hid
    exact absurd hid (h.other a o ha ho)

theorem keeps (h : Updates space id modestring pos addr obj space') (hs : Sound events space)
    {a : Nat} {o : Object} (ho : space.heap.get a = some o) (hdrop : o.isDrop = false)
    (hkeep : o.id = id → 'd' ∉ modestring ∧ Track.marks (track events id) modestring pos = false)
    : ∃ o', space'.heap.get a = some o'
        ∧ o'.version = o.version
        ∧ o'.isDrop = false
        ∧ o'.id = o.id := by
  by_cases ha : a = addr
  . subst ha
    have hobj : o = obj := by
      rcases h.old with hobj | ⟨hnone, -⟩
      . rw [ho, Option.some.injEq] at hobj
        exact hobj
      . rw [ho] at hnone
        simp at hnone
    subst hobj
    obtain ⟨hd, hmarks⟩ := hkeep h.obj_id
    have hnew := h.get_moved hd
    rcases h.old_cases hs with ⟨t, ht, hmatch, -, -⟩ | ⟨ht, -⟩
    . rw [ht, hmatch.marks] at hmarks
      rw [reviveObject_of_not_drop hdrop, moveObject_eq] at hnew
      simp only [hmarks, Bool.false_eq_true, ↓reduceIte] at hnew
      exact ⟨_, hnew, rfl, hdrop, rfl⟩
    . rw [ht] at hmarks
      simp [Track.marks] at hmarks
  . refine ⟨o, ?_, rfl, hdrop, rfl⟩
    rw [h.get_other ha, ho]

theorem endAt_iff (h : Updates space id modestring pos addr obj space') (hs : Sound events space)
    {a : Nat} {version : Int} {o : Object} (ho : space.heap.get a = some o)
    (hversion : version ≤ o.version) (w : UInt32)
    : EndAt space'.heap a version w
        ↔
      EndAt space.heap a version w
        ∧ (id = w → 'd' ∉ modestring ∧ Track.marks (track events id) modestring pos = false) := by
  constructor
  . rintro ⟨o', ho', hv, hdrop, hid⟩
    rcases h.kept hs ho ho' hdrop with hlt | ⟨hveq, hodrop, -, hideq, hkeep⟩
    . omega
    . refine ⟨⟨o, ho, ?_, hodrop, ?_⟩, ?_⟩
      . rw [← hveq, hv]
      . rw [← hideq, hid]
      . intro hw
        apply hkeep
        rw [← hideq, hid, hw]
  . rintro ⟨⟨o1, ho1, hv, hdrop, hid⟩, hkeep⟩
    obtain ⟨o', ho', hv', hdrop', hid'⟩ := h.keeps hs ho1 hdrop (by
      intro heq
      apply hkeep
      rw [← heq, hid])
    refine ⟨o', ho', ?_, hdrop', ?_⟩
    . rw [hv', hv]
    . rw [hid', hid]

end Updates

namespace Sound

variable {space space' : AoiSpace} {id : UInt32} {modestring : List Char} {pos : Point} {addr : Nat}
  {obj : Object} {events : List Event}

theorem live_ends (h : Sound events space) {p : PairList} (hp : p ∈ space.hot)
    : ∃ ow om, space.heap.get p.watcher = some ow
        ∧ space.heap.get p.marker = some om
        ∧ p.watcherVersion ≤ ow.version
        ∧ p.markerVersion ≤ om.version := by
  have hpos := hotEnds_pos hp
  obtain ⟨ow, how⟩ := h.counted.exists_of_end hpos.1
  obtain ⟨om, hom⟩ := h.counted.exists_of_end hpos.2
  exact ⟨ow, om, how, hom, (h.watcher_version p hp ow how).1, (h.marker_version p hp om hom).1⟩

theorem hot_update (h : Sound events space) (hu : Updates space id modestring pos addr obj space')
    (w m : UInt32)
    : StayedHot (events ++ [.update id modestring pos]) w m
        ↔
      ∃ p ∈ space'.hot, FreshFor space'.heap p w m := by
  have hfresh : ∀ p ∈ space.hot, FreshFor space'.heap p w m
      ↔ FreshFor space.heap p w m ∧ Keeps events (.update id modestring pos) w m := by
    intro p hp
    obtain ⟨ow, om, how, hom, hvw, hvm⟩ := h.live_ends hp
    unfold FreshFor Keeps
    rw [hu.endAt_iff h how hvw, hu.endAt_iff h hom hvm]
    constructor
    . rintro ⟨⟨hw, hkw⟩, hm, hkm⟩
      refine ⟨⟨hw, hm⟩, ?_⟩
      rintro (hid | hid)
      . exact hkw hid
      . exact hkm hid
    . rintro ⟨⟨hw, hm⟩, hk⟩
      exact ⟨⟨hw, fun hid => hk (Or.inl hid)⟩, hm, fun hid => hk (Or.inr hid)⟩
  rw [stayedHot_update, h.hot, hu.hot]
  constructor
  . rintro ⟨⟨p, hp, hold⟩, hkeeps⟩
    exact ⟨p, hp, (hfresh p hp).mpr ⟨hold, hkeeps⟩⟩
  . rintro ⟨p, hp, hnew⟩
    obtain ⟨hold, hkeeps⟩ := (hfresh p hp).mp hnew
    exact ⟨⟨p, hp, hold⟩, hkeeps⟩

theorem version_update (h : Sound events space) (hu : Updates space id modestring pos addr obj space')
    {a : Nat} {version : Int} {role : Object → Prop}
    (hrole : ∀ o o', o'.mode = o.mode → role o → role o') {o o' : Object} (ho : space.heap.get a = some o)
    (ho' : space'.heap.get a = some o')
    (hold : version ≤ o.version ∧ (o.version = version → o.isDrop = false → role o))
    : version ≤ o'.version ∧ (o'.version = version → o'.isDrop = false → role o') := by
  have hle : o.version ≤ o'.version := by
    by_cases ha : a = addr
    . subst ha
      have hobj : obj = o := by
        rcases hu.old with hobj | ⟨hnone, -⟩
        . rw [ho, Option.some.injEq] at hobj
          exact hobj.symm
        . rw [ho] at hnone
          simp at hnone
      subst hobj
      rw [hu.get_addr] at ho'
      unfold updateObject at ho'
      split at ho'
      . split at ho'
        . rw [Option.some.injEq] at ho'
          rw [ho']
        . split at ho'
          . simp at ho'
          . rw [Option.some.injEq] at ho'
            rw [← ho']
      . rw [Option.some.injEq] at ho'
        rw [← ho', moveObject_eq]
        split
        . dsimp only
          rw [reviveObject_version]
          omega
        . dsimp only
          rw [reviveObject_version]
    . rw [hu.get_other ha, ho, Option.some.injEq] at ho'
      rw [ho']
  refine ⟨by omega, ?_⟩
  intro hv hdrop
  rcases hu.kept h ho ho' hdrop with hlt | ⟨hveq, hodrop, hmode, -⟩
  . omega
  . apply hrole o o' hmode
    apply hold.2
    . rw [← hveq, hv]
    . exact hodrop

theorem update (h : Sound events space) (hu : Updates space id modestring pos addr obj space')
    : Sound (events ++ [.update id modestring pos]) space' where
  counted := by
    rw [hu.hot]
    exact hu.counted
  ne := by
    rw [hu.hot]
    exact h.ne
  nodup := by
    rw [hu.hot]
    exact h.nodup
  dropped := by
    intro a o' ho' hdrop
    by_cases ha : a = addr
    . subst ha
      rw [hu.get_addr] at ho'
      unfold updateObject at ho'
      split at ho'
      . split at ho'
        . rw [Option.some.injEq] at ho'
          subst ho'
          rcases hu.old with hobj | ⟨-, rfl⟩
          . exact h.dropped a obj hobj hdrop
          . simp [Object.isDrop, freshObject] at hdrop
        . split at ho'
          . simp at ho'
          . rw [Option.some.injEq] at ho'
            rw [← ho']
      . rw [Option.some.injEq] at ho'
        rw [← ho', moveObject_isDrop (reviveObject_isDrop obj)] at hdrop
        simp at hdrop
    . rw [hu.get_other ha] at ho'
      exact h.dropped a o' ho' hdrop
  watcher_version := by
    intro p hp o' ho'
    rw [hu.hot] at hp
    obtain ⟨ow, -, how, -⟩ := h.live_ends hp
    apply h.version_update hu _ how ho' (h.watcher_version p hp ow how)
    intro o o' hmode
    unfold Object.isWatcher Object.isMove
    rw [hmode]
    exact fun h => h
  marker_version := by
    intro p hp o' ho'
    rw [hu.hot] at hp
    obtain ⟨-, om, -, hom, -⟩ := h.live_ends hp
    apply h.version_update hu _ hom ho' (h.marker_version p hp om hom)
    intro o o' hmode
    unfold Object.isMarker Object.isMove
    rw [hmode]
    exact fun h => h
  of_object := by
    intro a o' ho' hdrop
    rw [track_update]
    by_cases ha : a = addr
    . subst ha
      obtain ⟨hd, rfl⟩ := hu.not_drop ho' hdrop
      rw [moveObject_id, reviveObject_id, hu.obj_id]
      simp only [↓reduceIte]
      exact hu.moved_matches h hd
    . rw [hu.get_other ha] at ho'
      have hne := hu.other a o' ha ho'
      rw [if_neg hne.symm]
      exact h.of_object a o' ho' hdrop
  of_track := by
    intro id' t ht
    rw [track_update] at ht
    split at ht
    . next heq =>
      have hd : 'd' ∉ modestring := by
        intro hd
        simp [Track.update, hd] at ht
      refine ⟨addr, _, hu.get_moved hd, moveObject_isDrop (reviveObject_isDrop obj) _ _ _, ?_⟩
      rw [moveObject_id, reviveObject_id, hu.obj_id, heq]
    . next hne =>
      obtain ⟨a, o, ho, hdrop, hoid⟩ := h.of_track id' t ht
      refine ⟨a, o, ?_, hdrop, hoid⟩
      have ha : a ≠ addr := by
        rintro rfl
        rcases hu.old with hobj | ⟨hnone, -⟩
        . rw [ho, Option.some.injEq] at hobj
          apply hne
          rw [← hu.obj_id, ← hobj, hoid]
        . rw [ho] at hnone
          simp at hnone
      rw [hu.get_other ha, ho]
  hot := h.hot_update hu

end Sound

end Caoi
