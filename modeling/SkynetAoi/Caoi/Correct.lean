import SkynetAoi.Caoi.Refine.Message
import SkynetAoi.Caoi.Refine.Update

/-!
This module contains the correctness of the `caoi` service: every run comes to its end, every
`aoi_message` reports the pairs of the spec and no others, and the objects live as long as something
refers to them.
-/

namespace Caoi

theorem Sound.mem_cbs_iff {events : List Event} {space space' : AoiSpace} {heap : Heap Object}
    {addrs : List Nat} {cbs : List (UInt32 × UInt32)} (h : Sound events space)
    (hw : Walks space heap addrs space' cbs) (w m : UInt32)
    : (w, m) ∈ cbs ↔ Reportable events w m := by
  have hactive := h.active_iff w m (· < aoiRadis2)
  rw [hw.mem_cbs]
  constructor
  . rintro (⟨p, hp, ow, om, hfresh, hnear, heq⟩ | ⟨aw, am, ow, om, hact, hnear, heq⟩)
    . simp only [Prod.mk.injEq] at heq
      obtain ⟨rfl, rfl⟩ := heq
      obtain ⟨tw, tm, hpair, hdist⟩ := h.pair_of_fresh hp hfresh
      rw [hdist] at hnear
      refine ⟨tw, tm, hpair, hnear, Or.inr (Or.inr ?_)⟩
      rw [h.hot]
      refine ⟨p, hp, ?_⟩
      rw [freshFor_iff]
      exact ⟨ow, om, hfresh, rfl, rfl⟩
    . simp only [Prod.mk.injEq] at heq
      obtain ⟨tw, tm, hpair, hmoved, hnear'⟩ :=
        hactive.mpr ⟨aw, am, ow, om, hact, hnear, heq.1.symm, heq.2.symm⟩
      refine ⟨tw, tm, hpair, hnear', ?_⟩
      rw [← or_assoc]
      exact Or.inl hmoved
  . rintro ⟨tw, tm, hpair, hnear, hcase⟩
    rw [← or_assoc] at hcase
    cases hcase with
    | inl hmoved =>
      right
      obtain ⟨aw, am, ow, om, hact, hnear', rfl, rfl⟩ :=
        hactive.mp ⟨tw, tm, hpair, hmoved, hnear⟩
      exact ⟨aw, am, ow, om, hact, hnear', rfl⟩
    | inr hhot =>
      left
      obtain ⟨p, hp, hfreshFor⟩ := (h.hot w m).mp hhot
      obtain ⟨ow, om, hfresh, rfl, rfl⟩ := (freshFor_iff _ _ _ _).mp hfreshFor
      obtain ⟨tw', tm', hpair', hdist⟩ := h.pair_of_fresh hp hfresh
      have htw := hpair'.watcher_track
      have htm := hpair'.marker_track
      rw [hpair.watcher_track, Option.some.injEq] at htw
      rw [hpair.marker_track, Option.some.injEq] at htm
      refine ⟨p, hp, ow, om, hfresh, ?_, rfl⟩
      rw [hdist, ← htw, ← htm]
      exact hnear

theorem Sound.step {events : List Event} {space : AoiSpace} (h : Sound events space) {event : Event}
    (hvalid : event.Valid)
    : ∃ space' cbs, step space event = some (space', cbs)
        ∧ Sound (events ++ [event]) space'
        ∧ ∀ w m, (w, m) ∈ cbs ↔ event = .message ∧ Reportable events w m := by
  cases event with
  | update id modestring pos =>
    obtain ⟨space', addr, obj, hupdate, hu⟩ := aoiUpdate_updates h.counted hvalid modestring pos
    refine ⟨space', [], ?_, h.update hu, by simp⟩
    unfold Caoi.step
    dsimp only
    rw [hupdate]
  | message =>
    obtain ⟨space', heap, addrs, cbs, hmessage, hw⟩ := aoiMessage_walks h.counted h.ne
    refine ⟨space', cbs, hmessage, h.message hw, ?_⟩
    intro w m
    rw [h.mem_cbs_iff hw]
    simp

theorem runEvents_sound {events : List Event} (hvalid : ∀ event ∈ events, event.Valid)
    : ∃ space, runEvents events = some space ∧ Sound events space := by
  have hstep : ∀ past space event, Sound past space → event.Valid →
      ∃ space', silentStep space event = some space' ∧ Sound (past ++ [event]) space' := by
    intro past space event hs hok
    obtain ⟨space', cbs, hstep, hs', -⟩ := hs.step hok
    refine ⟨space', ?_, hs'⟩
    unfold silentStep
    rw [hstep]
  exact run.total hstep Sound.init hvalid

theorem runEvents_append {events : List Event} {space space' : AoiSpace} {event : Event}
    {cbs : List (UInt32 × UInt32)} (hrun : runEvents events = some space)
    (hstep : step space event = some (space', cbs)) : runEvents (events ++ [event]) = some space' := by
  have hsilent : silentStep space event = some space' := by
    unfold silentStep
    rw [hstep]
  unfold runEvents at hrun ⊢
  rw [run.append hrun, run.cons hsilent, run.nil]

theorem aoiMessage_reports (events : List Event) (hvalid : ∀ event ∈ events, event.Valid)
    : ∃ space space' cbs, runEvents events = some space
        ∧ aoiMessage space = some (space', cbs)
        ∧ runEvents (events ++ [.message]) = some space'
        ∧ cbs.Nodup
        ∧ ∀ w m, (w, m) ∈ cbs ↔ Reportable events w m := by
  obtain ⟨space, hrun, hs⟩ := runEvents_sound hvalid
  obtain ⟨space', heap, addrs, cbs, hmessage, hw⟩ := aoiMessage_walks hs.counted hs.ne
  refine ⟨space, space', cbs, hrun, hmessage, ?_, ?_, ?_⟩
  . exact runEvents_append hrun hmessage
  . exact hw.nodup_cbs hs.counted hs.nodup hs.quiet
  . exact hs.mem_cbs_iff hw

example
    : ((runEvents [.update 1 ['w'] ⟨0, 0, 0⟩, .update 2 ['m'] ⟨3, 4, 0⟩]).bind aoiMessage).map (·.2)
        =
      some [(1, 2)] := by
  decide +kernel

theorem aoiMessage_reports_near
    : (∀ event ∈ [Event.update 1 ['w'] ⟨0, 0, 0⟩, .update 2 ['m'] ⟨3, 4, 0⟩], event.Valid)
        ∧ ∃ space space' cbs,
          runEvents [.update 1 ['w'] ⟨0, 0, 0⟩, .update 2 ['m'] ⟨3, 4, 0⟩] = some space
            ∧ aoiMessage space = some (space', cbs)
            ∧ runEvents [.update 1 ['w'] ⟨0, 0, 0⟩, .update 2 ['m'] ⟨3, 4, 0⟩, .message]
              = some space'
            ∧ cbs.Nodup
            ∧ ∀ w m, (w, m) ∈ cbs
              ↔ Reportable [.update 1 ['w'] ⟨0, 0, 0⟩, .update 2 ['m'] ⟨3, 4, 0⟩] w m := by
  have hvalid : ∀ event ∈ [Event.update 1 ['w'] ⟨0, 0, 0⟩, .update 2 ['m'] ⟨3, 4, 0⟩],
      event.Valid := by
    simp [Event.Valid, invalidId]
  exact ⟨hvalid, aoiMessage_reports _ hvalid⟩

/--
What holds of the objects between two calls of the service.
-/
structure Lifetime (space : AoiSpace) : Prop where
  slot : ∀ (a : Nat) (o : Object), space.heap.get a = some o →
    ∃ (i : Nat) (s : MapSlot), space.object.slot[i]? = some s
      ∧ s.id = o.id
      ∧ s.obj = some a
      ∧ ∀ (j : Nat) (t : MapSlot), space.object.slot[j]? = some t → t.obj = some a → j = i
  id : ∀ (a b : Nat) (oa ob : Object), space.heap.get a = some oa → space.heap.get b = some ob →
    oa.id = ob.id → a = b
  hot : ∀ p ∈ space.hot, (∃ o, space.heap.get p.watcher = some o)
    ∧ (∃ o, space.heap.get p.marker = some o)
    ∧ p.watcher ≠ p.marker
  nodup : (space.hot.map PairList.ends).Nodup
  ref : ∀ (a : Nat) (o : Object), space.heap.get a = some o →
    o.ref = (if o.isDrop then 0 else 1) + (hotEnds space.hot a : Int) ∧ 1 ≤ o.ref
  released : ∀ (a : Nat), space.heap.get a = none →
    (∀ s ∈ space.object.slot, s.obj ≠ some a) ∧ ∀ p ∈ space.hot, p.watcher ≠ a ∧ p.marker ≠ a

theorem Sound.lifetime {events : List Event} {space : AoiSpace} (h : Sound events space)
    : Lifetime space := by
  have hc := h.counted
  have hat : ∀ {i s}, space.object.slot[i]? = some s → space.object.slotAt i = s := by
    intro i s hs
    unfold Map.slotAt
    rw [List.getD_eq_getElem?_getD, hs]
    rfl
  constructor
  . intro a o ho
    obtain ⟨i, hid, hobj⟩ := hc.stored a o ho
    have hocc := hc.wf.occupied_of_stores hobj
    refine ⟨i, _, hc.wf.getElem? (hc.wf.lt_size_of_occupied hocc), hid, hobj, ?_⟩
    intro j t hj ht
    rw [← hat hj] at ht
    obtain ⟨o', ho', hid'⟩ := hc.live (space.object.slotAt j).id a ⟨j, rfl, ht⟩
    rw [ho, Option.some.injEq] at ho'
    apply hc.wf.inj j i (hc.wf.occupied_of_stores ht)
    rw [← hid', ← ho', hid]
  . intro a b oa ob ha hb hid
    exact hc.addr_unique ha hb hid
  . intro p hp
    obtain ⟨ow, om, how, hom, -⟩ := h.live_ends hp
    exact ⟨⟨ow, how⟩, ⟨om, hom⟩, h.ne p hp⟩
  . exact h.nodup
  . intro a o ho
    exact ⟨hc.ref a o ho, hc.pos a o ho⟩
  . intro a ha
    constructor
    . intro s hs hobj
      rw [List.mem_iff_getElem?] at hs
      obtain ⟨i, hi⟩ := hs
      rw [← hat hi] at hobj
      obtain ⟨o, ho, -⟩ := hc.live _ a ⟨i, rfl, hobj⟩
      rw [ha] at ho
      simp at ho
    . intro p hp
      obtain ⟨ow, om, how, hom, -⟩ := h.live_ends hp
      constructor
      . rintro rfl
        rw [ha] at how
        simp at how
      . rintro rfl
        rw [ha] at hom
        simp at hom

def DroppedBy (obj : Object) (event : Event) : Prop :=
  obj.isDrop = true
    ∨ match event with
      | .update id modestring _ => id = obj.id ∧ 'd' ∈ modestring
      | .message => False

theorem not_on_hot_iff (hot : List PairList) (a : Nat)
    : (∀ p ∈ hot, p.watcher ≠ a ∧ p.marker ≠ a) ↔ hotEnds hot a = 0 := by
  constructor
  . intro h
    apply Nat.eq_zero_of_not_pos
    intro hpos
    obtain ⟨p, hp, hend⟩ := mem_of_hotEnds_pos hpos
    cases hend with
    | inl heq => exact (h p hp).1 heq
    | inr heq => exact (h p hp).2 heq
  . intro h p hp
    have hpos := hotEnds_pos hp
    constructor
    . rintro rfl
      omega
    . rintro rfl
      omega

theorem Counted.hotEnds_pos_of_drop {space : AoiSpace} {ends : Nat → Nat} (hc : Counted space ends)
    {a : Nat} {o : Object} (ho : space.heap.get a = some o) (hdrop : o.isDrop = true)
    : ends a ≠ 0 := by
  have href := hc.ref a o ho
  have hpos := hc.pos a o ho
  rw [hdrop] at href
  simp only [↓reduceIte] at href
  omega

theorem Walks.released_iff {space space' : AoiSpace} {heap : Heap Object} {addrs : List Nat}
    {cbs : List (UInt32 × UInt32)} (hw : Walks space heap addrs space' cbs) {a : Nat} {o : Object}
    (ho : space.heap.get a = some o)
    : space'.heap.get a = none ↔ DroppedBy o .message ∧ hotEnds space'.hot a = 0 := by
  simp only [DroppedBy, or_false]
  constructor
  . intro hnone
    refine ⟨?_, hw.counted.dead a hnone⟩
    cases hdrop : o.isDrop with
    | true => rfl
    | false =>
      obtain ⟨o', ho', -⟩ := hw.get_of ho hdrop
      rw [hnone] at ho'
      simp at ho'
  . rintro ⟨hdrop, -⟩
    cases hget : space'.heap.get a with
    | none => rfl
    | some o' =>
      obtain ⟨o1, ho1, hdrop1, -⟩ := hw.get_some hget
      rw [ho, Option.some.injEq] at ho1
      rw [ho1, hdrop1] at hdrop
      simp at hdrop

theorem Sound.released_update {events : List Event} {space space' : AoiSpace} {id : UInt32}
    {modestring : List Char} {pos : Point} {addr : Nat} {obj : Object} (h : Sound events space)
    (hu : Updates space id modestring pos addr obj space') {a : Nat} {o : Object}
    (ho : space.heap.get a = some o)
    : space'.heap.get a = none
        ↔
      DroppedBy o (.update id modestring pos) ∧ hotEnds space'.hot a = 0 := by
  rw [hu.hot]
  by_cases ha : a = addr
  . subst ha
    have hobj : obj = o := by
      rcases hu.old with hobj | ⟨hnone, -⟩
      . rw [ho, Option.some.injEq] at hobj
        exact hobj.symm
      . rw [ho] at hnone
        simp at hnone
    subst hobj
    rw [hu.get_addr]
    unfold updateObject DroppedBy
    have hid := hu.obj_id
    cases hdrop : obj.isDrop with
    | true =>
      have := h.counted.hotEnds_pos_of_drop ho hdrop
      split
      . simp [this]
      . simp [this]
    | false =>
      simp only [Bool.false_eq_true, ↓reduceIte, false_or]
      split
      . next hd =>
        split
        . next hends => simp [hends, hid, hd]
        . next hends => simp [hends]
      . next hd => simp [hd]
  . rw [hu.get_other ha, ho]
    simp only [reduceCtorEq, false_iff, not_and]
    rintro (hdrop | ⟨hid, -⟩)
    . exact h.counted.hotEnds_pos_of_drop ho hdrop
    . exact absurd hid.symm (hu.other a o ha ho)

theorem object_lifetime (events : List Event) (event : Event)
    (hvalid : ∀ e ∈ events ++ [event], e.Valid)
    : ∃ space space' cbs, runEvents events = some space
        ∧ step space event = some (space', cbs)
        ∧ Lifetime space
        ∧ Lifetime space'
        ∧ (∀ a o, space.heap.get a = some o →
          (space'.heap.get a = none
            ↔ DroppedBy o event ∧ ∀ p ∈ space'.hot, p.watcher ≠ a ∧ p.marker ≠ a))
        ∧ (event = .message → ∀ a o, space'.heap.get a = some o → o.isDrop = false) := by
  have hevents : ∀ e ∈ events, e.Valid := by
    intro e he
    apply hvalid
    simp [he]
  obtain ⟨space, hrun, hs⟩ := runEvents_sound hevents
  have hvalid : event.Valid := by
    apply hvalid
    simp
  cases event with
  | update id modestring pos =>
    obtain ⟨space', addr, obj, hupdate, hu⟩ := aoiUpdate_updates hs.counted hvalid modestring pos
    refine ⟨space, space', [], hrun, ?_, hs.lifetime, (hs.update hu).lifetime, ?_, by simp⟩
    . simp [Caoi.step, hupdate]
    . intro a o ho
      rw [not_on_hot_iff]
      exact hs.released_update hu ho
  | message =>
    obtain ⟨space', heap, addrs, cbs, hmessage, hw⟩ := aoiMessage_walks hs.counted hs.ne
    refine ⟨space, space', cbs, hrun, hmessage, hs.lifetime, (hs.message hw).lifetime, ?_, ?_⟩
    . intro a o ho
      rw [not_on_hot_iff]
      exact hw.released_iff ho
    . intro _ a o' ho'
      obtain ⟨o, ho, hdrop, hcore⟩ := hw.get_some ho'
      rw [Object.isDrop_of_core hcore, Object.settle_isDrop, hdrop]

theorem object_lifetime_drop
    : (∀ e ∈ [Event.update 1 ['w'] ⟨0, 0, 0⟩, .message] ++ [.update 1 ['d'] ⟨0, 0, 0⟩], e.Valid)
        ∧ ∃ space space' cbs, runEvents [.update 1 ['w'] ⟨0, 0, 0⟩, .message] = some space
          ∧ step space (.update 1 ['d'] ⟨0, 0, 0⟩) = some (space', cbs)
          ∧ Lifetime space
          ∧ Lifetime space' := by
  have hvalid : ∀ e ∈ [Event.update 1 ['w'] ⟨0, 0, 0⟩, .message] ++ [.update 1 ['d'] ⟨0, 0, 0⟩],
      e.Valid := by
    simp [Event.Valid, invalidId]
  obtain ⟨space, space', cbs, hrun, hstep, hlife, hlife', -⟩ := object_lifetime _ _ hvalid
  exact ⟨hvalid, space, space', cbs, hrun, hstep, hlife, hlife'⟩

-- The object sets are left as they are when an object is released, the next `aoi_message` starts
-- them anew before it reads them.
def Refers (space : AoiSpace) (a : Nat) : Prop :=
  (∃ s ∈ space.object.slot, s.obj = some a)
    ∨ (∃ p ∈ space.hot, p.watcher = a ∨ p.marker = a)
    ∨ a ∈ space.watcherStatic.slot
    ∨ a ∈ space.markerStatic.slot
    ∨ a ∈ space.watcherMove.slot
    ∨ a ∈ space.markerMove.slot

theorem released_object_in_set
    : ¬∀ (events : List Event) (space : AoiSpace), (∀ e ∈ events, e.Valid) →
        runEvents events = some space →
        ∀ a < space.heap.brk, space.heap.get a = none → ¬Refers space a := by
  intro h
  have hvalid : ∀ e ∈ [Event.update 1 ['w'] ⟨0, 0, 0⟩, .message, .update 1 ['d'] ⟨0, 0, 0⟩],
      e.Valid := by
    simp [Event.Valid, invalidId]
  obtain ⟨space, hrun, -⟩ := runEvents_sound hvalid
  have hstate : (runEvents [.update 1 ['w'] ⟨0, 0, 0⟩, .message, .update 1 ['d'] ⟨0, 0, 0⟩]).map
      (fun space => (space.heap.brk, (space.heap.get 0).isNone, space.watcherMove.slot))
      = some (1, true, [0]) := by
    decide +kernel
  rw [hrun] at hstate
  simp only [Option.map_some, Option.some.injEq, Prod.mk.injEq, Option.isNone_iff_eq_none] at hstate
  apply h _ space hvalid hrun 0
  . omega
  . exact hstate.2.1
  . right
    right
    right
    right
    left
    simp [hstate.2.2]

end Caoi
