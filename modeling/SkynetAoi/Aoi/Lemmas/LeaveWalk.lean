import SkynetAoi.Aoi.Invariant

/-!
This module contains what the walk of `leave` does to the tables and whom it tells.
-/

namespace Aoi

variable {Id Agent : Type} [DecidableEq Id]

def State.farewell (s : State Id Agent) (x k : Id) : Option (Dest Agent × Msg Id Agent) :=
  if s.getView .player k x = some true then
    (s.OBJ k).map fun other => (.agent other.agent, .delaoiobj x .leave)
  else
    none

/--
The walk of `leave` over the view of `x`: `x` is taken out of the views of the players among the keys,
and those who had it in sight are told.
-/
structure LeaveWalk (s : State Id Agent) (x : Id) (ks : List Id) (s' : State Id Agent) : Prop where
  obj : s'.OBJ = s.OBJ
  needUpdate : s'.needUpdate = s.needUpdate
  texts : s'.texts = s.texts
  hasView : ∀ (type : CharType) (c : Id), s'.hasView type c = s.hasView type c
  get : ∀ (type : CharType) (c d : Id), s'.getView type c d
    =
  if type = .player ∧ d = x ∧ c ∈ ks then none else s.getView type c d
  sent : s'.sent = s.sent ++ ks.filterMap (s.farewell x)

namespace leave

variable {x : Id}

theorem walk_spec (ks : List Id) (s : State Id Agent) (hnodup : ks.Nodup)
    (hlive : ∀ k ∈ ks, s.getView .player k x = some true → (s.OBJ k).isSome = true)
    (hplayer : ∀ k ∈ ks, s.hasView .player k = false → s.hasView .monster k = false)
    : ∃ s', forPairs (visit x) ks [] s = .ok [] s' ∧ LeaveWalk s x ks s' := by
  induction ks generalizing s with
  | nil =>
    refine ⟨s, rfl, rfl, rfl, rfl, fun _ _ => rfl, ?_, by simp⟩
    intros
    simp
  | cons k ks ih =>
    rw [List.nodup_cons] at hnodup
    have hvisit : ∃ s1, visit x k [] s = .ok [] s1
        ∧ s1.OBJ = s.OBJ
        ∧ s1.needUpdate = s.needUpdate
        ∧ s1.texts = s.texts
        ∧ (∀ type c, s1.hasView type c = s.hasView type c)
        ∧ (∀ type c d, s1.getView type c d
          = if type = .player ∧ c = k ∧ d = x then none else s.getView type c d)
        ∧ s1.sent = s.sent ++ (s.farewell x k).toList := by
      unfold visit
      cases hview : s.playerview k with
      | some view =>
        have hhas : s.hasView .player k = true := by
          rw [State.hasView_iff]
          exact ⟨view, hview⟩
        dsimp only
        by_cases htrue : s.getView .player k x = some true
        . obtain ⟨other, hobj⟩ := Option.isSome_iff_exists.mp (hlive k (by simp) htrue)
          have hhas' : (s.send (.agent other.agent) (.delaoiobj x .leave)).hasView .player k = true :=
            hhas
          obtain ⟨s1, hset, hrest, hview1, hget1⟩ := State.setView_spec hhas' x none
          rw [if_pos htrue, hobj]
          dsimp only
          rw [hset]
          refine ⟨s1, rfl, hrest.obj, hrest.needUpdate, hrest.texts, hview1, hget1, ?_⟩
          rw [hrest.sent, State.farewell, if_pos htrue, hobj]
          rfl
        . obtain ⟨s1, hset, hrest, hview1, hget1⟩ := State.setView_spec hhas x none
          rw [if_neg htrue, hset]
          refine ⟨s1, rfl, hrest.obj, hrest.needUpdate, hrest.texts, hview1, hget1, ?_⟩
          rw [hrest.sent, State.farewell, if_neg htrue, Option.toList_none, List.append_nil]
      | none =>
        have hhas : s.hasView .player k = false := by
          simp [State.hasView, State.views, hview]
        have hmonster : s.monsterview k = none := by
          have := hplayer k (by simp) hhas
          unfold State.hasView State.views at this
          simpa using this
        have hnone : ∀ d, s.getView .player k d = none := State.getView_eq_none hhas
        dsimp only
        rw [hmonster]
        refine ⟨s, rfl, rfl, rfl, rfl, fun _ _ => rfl, ?_, by simp [State.farewell, hnone]⟩
        intro type c d
        split
        . next h => rw [h.1, h.2.1, hnone]
        . rfl
    obtain ⟨s1, hvisit, hobj1, hneed1, htexts1, hview1, hget1, hsent1⟩ := hvisit
    have hother : ∀ j ∈ ks, s1.getView .player j x = s.getView .player j x := by
      intro j hj
      rw [hget1, if_neg]
      rintro ⟨-, rfl, -⟩
      exact hnodup.1 hj
    obtain ⟨s', hwalk, hw⟩ := ih s1 hnodup.2
      (by
        intro j hj
        rw [hother j hj, hobj1]
        apply hlive
        simp [hj])
      (by
        intro j hj
        rw [hview1, hview1]
        apply hplayer
        simp [hj])
    have hfarewell : ks.filterMap (s1.farewell x) = ks.filterMap (s.farewell x) := by
      apply List.filterMap_congr
      intro j hj
      unfold State.farewell
      rw [hother j hj, hobj1]
    refine ⟨s', ?_, ?_, ?_, ?_, ?_, ?_, ?_⟩
    . rw [forPairs, hvisit]
      exact hwalk
    . rw [hw.obj, hobj1]
    . rw [hw.needUpdate, hneed1]
    . rw [hw.texts, htexts1]
    . intro type c
      rw [hw.hasView, hview1]
    . intro type c d
      rw [hw.get, hget1]
      grind
    . rw [hw.sent, hfarewell, hsent1, List.append_assoc]
      cases hk : s.farewell x k with
      | none => rw [List.filterMap_cons_none hk, Option.toList_none, List.nil_append]
      | some msg => rw [List.filterMap_cons_some hk, Option.toList_some, List.singleton_append]

end leave

end Aoi
