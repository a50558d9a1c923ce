import SkynetAoi.Caoi.Correct

/-!
This module contains that an id keeps its object from one update to the next until it is dropped.
The sentinel of the free slots is an id that `_ctrl` lets pass as well, and the object of the
sentinel is in a slot that the next insertion takes for a free one.
-/

namespace Caoi

def Event.Drops (event : Event) (id : UInt32) : Prop :=
  match event with
  | .update id' modestring _ => id' = id ∧ 'd' ∈ modestring
  | .message => False

/--
The object at `addr` that an update has found or made is the one of its id as long as nothing drops
it: `map_foreach` visits it once, and the next update of the id finds it.
-/
def KeepsObjects (events : List Event) : Prop :=
  ∀ (past rest : List Event) (id : UInt32) (modestring : List Char) (pos : Point),
    events = past ++ .update id modestring pos :: rest → 'd' ∉ modestring →
    (∀ event ∈ rest, ¬event.Drops id) →
    ∃ space₀ space₁ space addr, runEvents past = some space₀
      ∧ mapQuery space₀ id = some (space₁, addr)
      ∧ runEvents events = some space
      ∧ (∃ obj, space.heap.get addr = some obj ∧ obj.id = id)
      ∧ (mapForeach space.object).count addr = 1
      ∧ mapQuery space id = some (space, addr)

structure LiveAt (space : AoiSpace) (id : UInt32) (addr : Nat) (obj : Object) : Prop where
  get : space.heap.get addr = some obj
  id : obj.id = id
  drop : obj.isDrop = false

theorem aoiUpdate_live {space : AoiSpace} {ends : Nat → Nat} (hc : Counted space ends) {id : UInt32}
    (hid : id ≠ invalidId) {modestring : List Char} (hd : 'd' ∉ modestring) (pos : Point)
    : ∃ space₁ addr space' obj, mapQuery space id = some (space₁, addr)
        ∧ aoiUpdate space id modestring pos = some space'
        ∧ LiveAt space' id addr obj := by
  obtain ⟨space₁, addr, obj, hquery, hqueried⟩ := mapQuery_spec hc hid
  have hfound : Counted space₁ ends ∧ space₁.heap.get addr = some obj ∧ obj.id = id := by
    cases hqueried with
    | found _ _ hget hoid => exact ⟨hc, hget, hoid⟩
    | fresh _ _ _ hc₁ _ _ hheap =>
      refine ⟨hc₁, ?_, rfl⟩
      rw [hheap]
      simp
  obtain ⟨hc₁, hget, hoid⟩ := hfound
  obtain ⟨space', hupdate, -, -, hheap⟩ := aoiUpdate_of_query hc₁ hquery hget modestring pos
  refine ⟨space₁, addr, space',
    moveObject (reviveObject obj) ('w' ∈ modestring) ('m' ∈ modestring) pos, hquery, hupdate,
    ?_, ?_, ?_⟩
  . rw [hheap]
    simp [updateObject, hd]
  . rw [moveObject_id, reviveObject_id, hoid]
  . exact moveObject_isDrop (reviveObject_isDrop obj) _ _ pos

namespace Sound

variable {events : List Event} {space : AoiSpace} {id : UInt32} {addr : Nat} {obj : Object}

theorem step_live (h : Sound events space) (hlive : LiveAt space id addr obj) {event : Event}
    (hvalid : event.Valid) (hdrops : ¬event.Drops id)
    : ∃ space' obj', silentStep space event = some space'
        ∧ Sound (events ++ [event]) space'
        ∧ LiveAt space' id addr obj' := by
  unfold silentStep Caoi.step
  cases event with
  | update id' modestring pos =>
    obtain ⟨space', addr', obj', hupdate, hu⟩ := aoiUpdate_updates h.counted hvalid modestring pos
    dsimp only
    rw [hupdate]
    by_cases heq : addr = addr'
    . subst heq
      have hobj : obj' = obj := by
        rcases hu.old with hold | ⟨hnone, -⟩
        . rw [hlive.get, Option.some.injEq] at hold
          exact hold.symm
        . rw [hlive.get] at hnone
          simp at hnone
      have hd : 'd' ∉ modestring := by
        intro hd
        apply hdrops
        refine ⟨?_, hd⟩
        rw [← hu.obj_id, hobj, hlive.id]
      refine ⟨space', _, rfl, h.update hu, hu.get_moved hd, ?_, ?_⟩
      . rw [moveObject_id, reviveObject_id, hobj, hlive.id]
      . exact moveObject_isDrop (reviveObject_isDrop _) _ _ pos
    . refine ⟨space', obj, rfl, h.update hu, ?_, hlive.id, hlive.drop⟩
      rw [hu.get_other heq]
      exact hlive.get
  | message =>
    obtain ⟨space', heap, addrs, cbs, hmessage, hw⟩ := aoiMessage_walks h.counted h.ne
    dsimp only
    rw [hmessage]
    obtain ⟨obj', hget', hcore⟩ := hw.get_of hlive.get hlive.drop
    refine ⟨space', obj', rfl, h.message hw, hget', ?_, ?_⟩
    . rw [Object.core_eq_iff, Object.settle_id] at hcore
      rw [hcore.1, hlive.id]
    . rw [Object.isDrop_of_core hcore, Object.settle_isDrop, hlive.drop]

theorem count_foreach (h : Sound events space) (hlive : LiveAt space id addr obj)
    : (mapForeach space.object).count addr = 1 := by
  apply List.count_eq_one_of_mem h.counted.nodup_foreach
  rw [h.counted.mem_foreach]
  exact ⟨obj, hlive.get⟩

theorem mapQuery_live (h : Sound events space) (hlive : LiveAt space id addr obj)
    : mapQuery space id = some (space, addr) := by
  have hstores := h.counted.stored addr obj hlive.get
  rw [hlive.id] at hstores
  have hid := h.counted.wf.stores_ne_invalidId hstores
  rcases mapQuery_total h.counted.wf hid with ⟨addr', hstores', hquery⟩ | ⟨hnone, -⟩
  . rw [hquery, h.counted.wf.stores_unique hstores hstores']
  . exact absurd hstores (hnone addr)

end Sound

theorem keepsObjects_of_valid (events : List Event) (hvalid : ∀ event ∈ events, event.Valid)
    : KeepsObjects events := by
  intro past rest id modestring pos hevents hd hdrops
  have hpast : ∀ event ∈ past, event.Valid := by
    intro event hevent
    apply hvalid
    simp [hevents, hevent]
  have hupdate : (Event.update id modestring pos).Valid := by
    apply hvalid
    simp [hevents]
  have hrest : ∀ event ∈ rest, event.Valid ∧ ¬event.Drops id := by
    intro event hevent
    refine ⟨?_, hdrops event hevent⟩
    apply hvalid
    simp [hevents, hevent]
  obtain ⟨space₀, hrun₀, h₀⟩ := runEvents_sound hpast
  obtain ⟨space₁, addr, space₂, obj, hquery, haoi, hlive⟩ :=
    aoiUpdate_live h₀.counted hupdate hd pos
  obtain ⟨space₂', cbs, hstep, h₂, -⟩ := h₀.step hupdate
  have heq : space₂' = space₂ := by
    unfold step at hstep
    dsimp only at hstep
    rw [haoi, Option.some.injEq, Prod.mk.injEq] at hstep
    exact hstep.1.symm
  subst heq
  have hnext : ∀ (past : List Event) (space : AoiSpace) (event : Event),
      Sound past space ∧ (∃ obj, LiveAt space id addr obj) → event.Valid ∧ ¬event.Drops id →
      ∃ space', silentStep space event = some space'
        ∧ Sound (past ++ [event]) space' ∧ ∃ obj, LiveAt space' id addr obj := by
    rintro past space event ⟨h, obj, hlive⟩ ⟨hvalid, hdrops⟩
    obtain ⟨space', obj', hsilent, h', hlive'⟩ := h.step_live hlive hvalid hdrops
    exact ⟨space', hsilent, h', obj', hlive'⟩
  obtain ⟨space, hrun, h, obj', hlive'⟩ := run.total hnext ⟨h₂, obj, hlive⟩ hrest
  refine ⟨space₀, space₁, space, addr, hrun₀, hquery, ?_, ⟨obj', hlive'.get, hlive'.id⟩,
    h.count_foreach hlive', h.mapQuery_live hlive'⟩
  have hsplit : events = (past ++ [.update id modestring pos]) ++ rest := by
    rw [hevents, List.append_assoc]
    rfl
  rw [hsplit]
  exact (run.append (runEvents_append hrun₀ hstep) rest).trans hrun

theorem keepsObjects_colliding
    : (∀ event ∈ [Event.update 3 ['w'] ⟨0, 0, 0⟩, .update 19 ['m'] ⟨0, 0, 0⟩], event.Valid)
        ∧ KeepsObjects [.update 3 ['w'] ⟨0, 0, 0⟩, .update 19 ['m'] ⟨0, 0, 0⟩] := by
  have hvalid : ∀ event ∈ [Event.update 3 ['w'] ⟨0, 0, 0⟩, .update 19 ['m'] ⟨0, 0, 0⟩],
      event.Valid := by
    simp [Event.Valid, invalidId]
  exact ⟨hvalid, keepsObjects_of_valid _ hvalid⟩

-- The sentinel gets the slot at its main position, where the id 15 is put next.
theorem not_keepsObjects_of_invalidId
    : ¬KeepsObjects [.update invalidId ['w', 'm'] ⟨0, 0, 0⟩, .update 15 ['w', 'm'] ⟨0, 0, 0⟩] := by
  intro h
  obtain ⟨space₀, space₁, space, addr, hrun₀, hquery, hrun, -, hcount, -⟩ :=
    h [] [.update 15 ['w', 'm'] ⟨0, 0, 0⟩] invalidId ['w', 'm'] ⟨0, 0, 0⟩ rfl (by decide)
      (by simp [Event.Drops])
  have haddr
      : ((runEvents []).bind fun space => mapQuery space invalidId).map Prod.snd = some 0 := by
    decide +kernel
  have hforeach : (runEvents [.update invalidId ['w', 'm'] ⟨0, 0, 0⟩,
      .update 15 ['w', 'm'] ⟨0, 0, 0⟩]).map (fun space => mapForeach space.object) = some [1] := by
    decide +kernel
  rw [hrun₀, Option.bind_some, hquery, Option.map_some, Option.some.injEq] at haddr
  rw [hrun, Option.map_some, Option.some.injEq] at hforeach
  dsimp only at haddr
  rw [hforeach, haddr] at hcount
  simp at hcount

end Caoi
