import SkynetAoi.Caoi.View

/-!
This module contains the refinement between a space and its view.
-/

namespace Caoi

theorem ncard_mem_and {α : Type} [DecidableEq α] {l : List α} (h : l.Nodup) (P : α → Prop)
    [DecidablePred P] : {a | a ∈ l ∧ P a}.ncard = l.countP (P ·) := by
  have : {a | a ∈ l ∧ P a} = ((l.filter (P ·)).toFinset : Set α) := by
    ext a
    simp
  rw [this, Set.ncard_coe_finset, List.toFinset_card_of_nodup (h.filter _),
    List.countP_eq_length_filter]

namespace Sound

variable {events : List Event} {space space' : AoiSpace}

theorem get_ends (h : Sound events space) {p : PairList} (hp : p ∈ space.hot)
    : ∃ ow om, space.heap.get p.watcher = some ow ∧ space.heap.get p.marker = some om := by
  obtain ⟨ow, om, how, hom, -⟩ := h.live_ends hp
  exact ⟨ow, om, how, hom⟩

theorem hotPair_inj (h : Sound events space) {p q : PairList} (hp : p ∈ space.hot)
    (hq : q ∈ space.hot) (heq : hotPair space.heap p = hotPair space.heap q) : p = q := by
  obtain ⟨pw, pm, hpw, hpm⟩ := h.get_ends hp
  obtain ⟨qw, qm, hqw, hqm⟩ := h.get_ends hq
  simp only [hotPair, HotPair.mk.injEq] at heq
  apply List.inj_on_of_nodup_map h.nodup hp hq
  unfold PairList.ends
  rw [(h.counted.idAt_inj hpw hqw).mp heq.1, (h.counted.idAt_inj hpm hqm).mp heq.2.1]

theorem nodup_hotPairs (h : Sound events space) : (hotPairs space).Nodup := by
  apply List.Nodup.map_on
  . intro p hp q hq heq
    exact h.hotPair_inj hp hq heq
  . exact h.nodup.of_map

theorem hotEnds_eq (h : Sound events space) {a : Nat} {o : Object} (ho : space.heap.get a = some o)
    : hotEnds space.hot a = View.ends (view space).hot o.id := by
  have hcount : ∀ (addr : PairList → Nat) (id : HotPair → UInt32),
      (∀ p ∈ space.hot, ∃ op, space.heap.get (addr p) = some op
        ∧ id (hotPair space.heap p) = idAt space.heap (addr p)) →
      {p | p ∈ hotPairs space ∧ id p = o.id}.ncard = space.hot.countP (fun p => addr p = a) := by
    intro addr id hid
    rw [ncard_mem_and h.nodup_hotPairs]
    unfold hotPairs
    rw [List.countP_map]
    apply List.countP_congr
    intro p hp
    obtain ⟨op, hop, hidp⟩ := hid p hp
    simp only [Function.comp_apply, decide_eq_true_eq]
    rw [hidp, ← idAt_of_get ho, h.counted.idAt_inj hop ho]
  unfold hotEnds View.ends
  have hw := hcount PairList.watcher HotPair.watcher (by
    intro p hp
    obtain ⟨ow, -, how, -⟩ := h.get_ends hp
    exact ⟨ow, how, rfl⟩)
  have hm := hcount PairList.marker HotPair.marker (by
    intro p hp
    obtain ⟨-, om, -, hom⟩ := h.get_ends hp
    exact ⟨om, hom, rfl⟩)
  rw [← hw, ← hm]
  rfl

theorem ends_eq_zero (h : Sound events space) {id : UInt32} (hnone : objectAt space id = none)
    : View.ends (view space).hot id = 0 := by
  have hne : ∀ p ∈ hotPairs space, p.watcher ≠ id ∧ p.marker ≠ id := by
    intro p hp
    unfold hotPairs at hp
    rw [List.mem_map] at hp
    obtain ⟨q, hq, rfl⟩ := hp
    obtain ⟨ow, om, how, hom⟩ := h.get_ends hq
    constructor
    . rintro rfl
      have := h.counted.objectAt_idAt how
      unfold hotPair at hnone
      rw [this] at hnone
      simp at hnone
    . rintro rfl
      have := h.counted.objectAt_idAt hom
      unfold hotPair at hnone
      rw [this] at hnone
      simp at hnone
  have hw : {p ∈ (view space).hot | p.watcher = id} = ∅ := by
    apply Set.eq_empty_of_forall_notMem
    rintro p ⟨hp, heq⟩
    exact (hne p hp).1 heq
  have hm : {p ∈ (view space).hot | p.marker = id} = ∅ := by
    apply Set.eq_empty_of_forall_notMem
    rintro p ⟨hp, heq⟩
    exact (hne p hp).2 heq
  unfold View.ends
  rw [hw, hm, Set.ncard_empty]

end Sound

theorem updateObject_id {obj obj' : Object} {ends : Nat} {modestring : List Char} {pos : Point}
    (h : updateObject obj ends modestring pos = some obj') : obj'.id = obj.id := by
  unfold updateObject at h
  split at h
  . split at h
    . rw [Option.some.injEq] at h
      rw [h]
    . split at h
      . simp at h
      . rw [Option.some.injEq] at h
        rw [← h]
  . rw [Option.some.injEq] at h
    rw [← h, moveObject_id, reviveObject_id]

namespace Sound

variable {events : List Event} {space space' : AoiSpace}

section

variable {id : UInt32} {modestring : List Char} {pos : Point} {addr : Nat} {obj : Object}

theorem getD_objectAt (h : Sound events space) (hu : Updates space id modestring pos addr obj space')
    : (objectAt space id).getD (freshObject id) = obj
        ∧ View.ends (view space).hot id = hotEnds space.hot addr := by
  rcases hu.old with hget | ⟨hnone, hfresh⟩
  . have hobj : objectAt space id = some obj := by
      rw [h.counted.objectAt_eq_some_iff]
      exact ⟨addr, hget, hu.obj_id⟩
    rw [hobj, h.hotEnds_eq hget, hu.obj_id]
    exact ⟨rfl, rfl⟩
  . have hobj : objectAt space id = none := by
      rw [Option.eq_none_iff_forall_ne_some]
      intro o ho
      rw [h.counted.objectAt_eq_some_iff] at ho
      obtain ⟨a, ha, hid⟩ := ho
      apply hu.other a o _ ha hid
      rintro rfl
      rw [hnone] at ha
      simp at ha
    rw [hobj, h.ends_eq_zero hobj, h.counted.dead addr hnone]
    exact ⟨hfresh.symm, rfl⟩

theorem view_update (h : Sound events space) (hu : Updates space id modestring pos addr obj space')
    : view space' = (view space).update id modestring pos := by
  have hc' : Counted space' (hotEnds space'.hot) := by
    rw [hu.hot]
    exact hu.counted
  obtain ⟨hobj, hends⟩ := h.getD_objectAt hu
  have hold : (view space).object = objectAt space := rfl
  unfold View.update
  dsimp only
  rw [hold, hobj, hends, ← hu.get_addr]
  unfold view
  congr 1
  . funext id'
    apply Option.ext
    intro o
    rw [hc'.objectAt_eq_some_iff, Function.update_apply]
    split
    . next heq =>
      subst heq
      constructor
      . rintro ⟨a, ha, hid⟩
        by_cases haddr : a = addr
        . rw [← haddr]
          exact ha
        . rw [hu.get_other haddr] at ha
          exact absurd hid (hu.other a o haddr ha)
      . intro ho
        refine ⟨addr, ho, ?_⟩
        rw [hu.get_addr] at ho
        rw [updateObject_id ho, hu.obj_id]
    . next hne =>
      rw [h.counted.objectAt_eq_some_iff]
      constructor
      . rintro ⟨a, ha, rfl⟩
        have haddr : a ≠ addr := by
          rintro rfl
          rw [hu.get_addr] at ha
          apply hne
          rw [updateObject_id ha, hu.obj_id]
        rw [hu.get_other haddr] at ha
        exact ⟨a, ha, rfl⟩
      . rintro ⟨a, ha, rfl⟩
        have haddr : a ≠ addr := by
          rintro rfl
          rcases hu.old with hget | ⟨hnone, -⟩
          . rw [hget, Option.some.injEq] at ha
            apply hne
            rw [← ha, hu.obj_id]
          . rw [hnone] at ha
            simp at ha
        refine ⟨a, ?_, rfl⟩
        rw [hu.get_other haddr]
        exact ha
  . have hid : ∀ a, 0 < hotEnds space.hot a → idAt space'.heap a = idAt space.heap a := by
      intro a ha
      obtain ⟨o, ho⟩ := h.counted.exists_of_end ha
      obtain ⟨o', ho'⟩ := hu.counted.exists_of_end ha
      rw [idAt_of_get ho, idAt_of_get ho']
      by_cases haddr : a = addr
      . subst haddr
        rw [hu.get_addr] at ho'
        rw [updateObject_id ho']
        rcases hu.old with hget | ⟨hnone, -⟩
        . rw [hget, Option.some.injEq] at ho
          rw [ho]
        . rw [hnone] at ho
          simp at ho
      . rw [hu.get_other haddr, ho, Option.some.injEq] at ho'
        rw [ho']
    have hpairs : hotPairs space' = hotPairs space := by
      unfold hotPairs
      rw [hu.hot]
      apply List.map_congr_left
      intro p hp
      have hpos := hotEnds_pos hp
      unfold hotPair
      rw [hid _ hpos.1, hid _ hpos.2]
    rw [hpairs]

end

theorem fresh_iff (h : Sound events space) {p : PairList} (hp : p ∈ space.hot) (w m : Object)
    : (view space).Fresh (hotPair space.heap p) w m ↔ Fresh space.heap p w m := by
  obtain ⟨ow, om, how, hom⟩ := h.get_ends hp
  have hw : (view space).object (hotPair space.heap p).watcher = space.heap.get p.watcher := by
    rw [how]
    exact h.counted.objectAt_idAt how
  have hm : (view space).object (hotPair space.heap p).marker = space.heap.get p.marker := by
    rw [hom]
    exact h.counted.objectAt_idAt hom
  constructor
  . intro hfresh
    exact ⟨hw ▸ hfresh.watcher, hm ▸ hfresh.marker, hfresh.watcher_version, hfresh.marker_version,
      hfresh.watcher_drop, hfresh.marker_drop⟩
  . intro hfresh
    exact ⟨hw ▸ hfresh.watcher, hm ▸ hfresh.marker, hfresh.watcher_version, hfresh.marker_version,
      hfresh.watcher_drop, hfresh.marker_drop⟩

theorem active_view_iff (h : Sound events space) (w m : UInt32) (ow om : Object)
    : (view space).Active w m ow om
        ↔
      ∃ aw am, Active space.heap aw am ow om ∧ ow.id = w ∧ om.id = m := by
  have hobj : ∀ id o, (view space).object id = some o
      ↔ ∃ a, space.heap.get a = some o ∧ o.id = id := h.counted.objectAt_eq_some_iff
  constructor
  . intro hact
    obtain ⟨aw, haw, hidw⟩ := (hobj w ow).mp hact.watcher
    obtain ⟨am, ham, hidm⟩ := (hobj m om).mp hact.marker
    refine ⟨aw, am, ⟨haw, ham, ?_, hact.watcher_drop, hact.marker_drop, hact.isWatcher,
      hact.isMarker, hact.move⟩, hidw, hidm⟩
    rintro rfl
    rw [haw, Option.some.injEq] at ham
    apply hact.ne
    rw [← hidw, ← hidm, ham]
  . rintro ⟨aw, am, hact, rfl, rfl⟩
    refine ⟨(hobj _ _).mpr ⟨aw, hact.watcher, rfl⟩, (hobj _ _).mpr ⟨am, hact.marker, rfl⟩, ?_,
      hact.watcher_drop, hact.marker_drop, hact.isWatcher, hact.isMarker, hact.move⟩
    intro hid
    exact hact.ne (h.counted.addr_unique hact.watcher hact.marker hid)

section

variable {heap : Heap Object} {addrs : List Nat} {cbs : List (UInt32 × UInt32)}

theorem cbs_eq_reports (h : Sound events space) (hw : Walks space heap addrs space' cbs)
    : {cb | cb ∈ cbs} = (view space).reports := by
  ext cb
  rw [Set.mem_ofPred_eq, hw.mem_cbs]
  unfold View.reports
  rw [Set.mem_ofPred_eq]
  apply or_congr
  . constructor
    . rintro ⟨p, hp, ow, om, hfresh, hnear, rfl⟩
      refine ⟨hotPair space.heap p, List.mem_map_of_mem hp, ow, om, (h.fresh_iff hp ow om).mpr hfresh,
        hnear, ?_⟩
      unfold hotPair
      rw [idAt_of_get hfresh.watcher, idAt_of_get hfresh.marker]
    . rintro ⟨q, hq, ow, om, hfresh, hnear, rfl⟩
      obtain ⟨p, hp, rfl⟩ := List.mem_map.mp hq
      have hfresh' := (h.fresh_iff hp ow om).mp hfresh
      refine ⟨p, hp, ow, om, hfresh', hnear, ?_⟩
      unfold hotPair
      rw [idAt_of_get hfresh'.watcher, idAt_of_get hfresh'.marker]
  . constructor
    . rintro ⟨aw, am, ow, om, hact, hnear, rfl⟩
      exact ⟨ow, om, (h.active_view_iff _ _ ow om).mpr ⟨aw, am, hact, rfl, rfl⟩, hnear⟩
    . rintro ⟨ow, om, hact, hnear⟩
      obtain ⟨aw, am, hact', hidw, hidm⟩ := (h.active_view_iff _ _ ow om).mp hact
      refine ⟨aw, am, ow, om, hact', hnear, ?_⟩
      rw [hidw, hidm]

theorem idAt_message (hw : Walks space heap addrs space' cbs) {a : Nat} {o' : Object}
    (ho' : space'.heap.get a = some o') : idAt space'.heap a = idAt space.heap a := by
  obtain ⟨o, ho, -, hcore⟩ := hw.get_some ho'
  rw [Object.core_eq_iff, Object.settle_id] at hcore
  rw [idAt_of_get ho, idAt_of_get ho', hcore.1]

theorem hot_eq_nextHot (h : Sound events space) (hw : Walks space heap addrs space' cbs)
    : (view space').hot = (view space).nextHot := by
  have hpair : ∀ q ∈ space'.hot, hotPair space'.heap q = hotPair space.heap q := by
    intro q hq
    obtain ⟨qw, qm, hqw, hqm⟩ := (h.message hw).get_ends hq
    unfold hotPair
    rw [idAt_message hw hqw, idAt_message hw hqm]
  ext p
  unfold View.nextHot
  rw [Set.mem_ofPred_eq]
  constructor
  . intro hp
    obtain ⟨q, hq, rfl⟩ := List.mem_map.mp hp
    rw [hpair q hq]
    rcases (hw.mem_hot q).mp hq with ⟨hq, ow, om, hfresh, hedge⟩ | ⟨ow, om, hact, hedge, hvw, hvm⟩
    . left
      exact ⟨List.mem_map_of_mem hq, ow, om, (h.fresh_iff hq ow om).mpr hfresh, hedge⟩
    . right
      refine ⟨ow, om, ?_, hedge, hvw, hvm⟩
      rw [h.active_view_iff]
      exact ⟨q.watcher, q.marker, hact, (idAt_of_get hact.watcher).symm,
        (idAt_of_get hact.marker).symm⟩
  . rintro (⟨hp, ow, om, hfresh, hedge⟩ | ⟨ow, om, hact, hedge, hvw, hvm⟩)
    . obtain ⟨q, hq, rfl⟩ := List.mem_map.mp hp
      have hq' : q ∈ space'.hot := by
        rw [hw.mem_hot]
        exact Or.inl ⟨hq, ow, om, (h.fresh_iff hq ow om).mp hfresh, hedge⟩
      rw [← hpair q hq']
      exact List.mem_map_of_mem hq'
    . obtain ⟨aw, am, hact', hidw, hidm⟩ := (h.active_view_iff _ _ ow om).mp hact
      have hq' : ⟨aw, am, p.watcherVersion, p.markerVersion⟩ ∈ space'.hot := by
        rw [hw.mem_hot]
        exact Or.inr ⟨ow, om, hact', hedge, hvw, hvm⟩
      have hp : p = hotPair space'.heap ⟨aw, am, p.watcherVersion, p.markerVersion⟩ := by
        rw [hpair _ hq']
        unfold hotPair
        dsimp only
        rw [idAt_of_get hact'.watcher, idAt_of_get hact'.marker, hidw, hidm]
      rw [hp]
      exact List.mem_map_of_mem hq'

theorem objectAt_message (h : Sound events space) (hw : Walks space heap addrs space' cbs) {a : Nat}
    {o : Object} (ho : space.heap.get a = some o) (hdrop : o.isDrop = false)
    : objectAt space' o.id
        =
      some { o.settle with ref := 1 + (View.ends (view space').hot o.id : Int) } := by
  have h' := h.message hw
  obtain ⟨o', ho', hcore⟩ := hw.get_of ho hdrop
  have hdrop' : o'.isDrop = false := by
    rw [Object.isDrop_of_core hcore, Object.settle_isDrop, hdrop]
  have href := h'.counted.ref a o' ho'
  rw [h'.hotEnds_eq ho', hdrop'] at href
  simp only [Bool.false_eq_true, ↓reduceIte] at href
  rw [Object.core_eq_iff] at hcore
  have hid : o'.id = o.id := by rw [hcore.1, Object.settle_id]
  rw [h'.counted.objectAt_eq_some_iff]
  refine ⟨a, ?_, o.settle_id⟩
  rw [ho', ← hid, ← href]
  cases o'
  simp only [Option.some.injEq, Object.mk.injEq, true_and]
  exact hcore

theorem view_message (h : Sound events space) (hw : Walks space heap addrs space' cbs)
    : view space' = (view space).message := by
  have h' := h.message hw
  have hback : ∀ id o', objectAt space' id = some o' →
      ∃ o, objectAt space id = some o ∧ o.isDrop = false := by
    intro id o' ho'
    rw [h'.counted.objectAt_eq_some_iff] at ho'
    obtain ⟨a, ha, rfl⟩ := ho'
    obtain ⟨o, ho, hdrop, hcore⟩ := hw.get_some ha
    rw [Object.core_eq_iff, Object.settle_id] at hcore
    refine ⟨o, ?_, hdrop⟩
    rw [h.counted.objectAt_eq_some_iff]
    exact ⟨a, ho, hcore.1.symm⟩
  have hobject : ∀ id, objectAt space' id = (view space).message.object id := by
    intro id
    unfold View.message
    rw [← h.hot_eq_nextHot hw]
    have hview : (view space).object id = objectAt space id := rfl
    dsimp only
    rw [hview]
    cases hobj : objectAt space id with
    | none =>
      rw [Option.eq_none_iff_forall_ne_some]
      intro o' ho'
      obtain ⟨o, ho, -⟩ := hback id o' ho'
      rw [hobj] at ho
      simp at ho
    | some o =>
      dsimp only
      split
      . next hdrop =>
        rw [Option.eq_none_iff_forall_ne_some]
        intro o' ho'
        obtain ⟨o1, ho1, hdrop1⟩ := hback id o' ho'
        rw [hobj, Option.some.injEq] at ho1
        rw [ho1, hdrop1] at hdrop
        simp at hdrop
      . next hdrop =>
        rw [h.counted.objectAt_eq_some_iff] at hobj
        obtain ⟨a, ha, rfl⟩ := hobj
        exact h.objectAt_message hw ha (by simpa using hdrop)
  have hhot : (view space').hot = (view space).message.hot := h.hot_eq_nextHot hw
  have hview : (view space').object = (view space).message.object := by
    funext id
    exact hobject id
  exact View.ext hview hhot

end

-- Every event does to the view what it does to the space.
theorem view_step (h : Sound events space) {event : Event} (hvalid : event.Valid)
    : ∃ space' cbs, Caoi.step space event = some (space', cbs)
        ∧ Sound (events ++ [event]) space'
        ∧ view space' = (view space).step event
        ∧ cbs.Nodup
        ∧ (event = .message → {cb | cb ∈ cbs} = (view space).reports) := by
  cases event with
  | update id modestring pos =>
    obtain ⟨space', addr, obj, hupdate, hu⟩ := aoiUpdate_updates h.counted hvalid modestring pos
    refine ⟨space', [], ?_, h.update hu, h.view_update hu, by simp, by simp⟩
    unfold Caoi.step
    dsimp only
    rw [hupdate]
  | message =>
    obtain ⟨space', heap, addrs, cbs, hmessage, hw⟩ := aoiMessage_walks h.counted h.ne
    refine ⟨space', cbs, hmessage, h.message hw, h.view_message hw, ?_, ?_⟩
    . exact hw.nodup_cbs h.counted h.nodup h.quiet
    . intro _
      exact h.cbs_eq_reports hw

end Sound
end Caoi
