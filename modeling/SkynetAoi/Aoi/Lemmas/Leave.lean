import SkynetAoi.Aoi.Lemmas.LeaveWalk

/-!
This module contains what `leave` does.
-/

namespace Aoi

variable {Id Agent : Type} [DecidableEq Id] {kind : Id → CharType}

/--
`leave` of `obj`: its view is gone, and so is `obj` in the views of the players it had in its own. A
monster that is in the view of a player keeps the player.
-/
structure Left (s : State Id Agent) (obj : Obj Id Agent) (s' : State Id Agent) : Prop where
  OBJ : ∀ (a : Id), s'.OBJ a = if a = obj.tempid then none else s.OBJ a
  needUpdate : s'.needUpdate = true
  texts : s'.texts = s.texts ++ [.update obj.tempid ['d'] obj.pos]
  hasView : ∀ (type : CharType) (c : Id), s'.hasView type c
    =
  if type = obj.type ∧ c = obj.tempid then false else s.hasView type c
  get : ∀ (type : CharType) (c d : Id), s'.getView type c d
    =
  if type = obj.type ∧ c = obj.tempid then
    none
  else if type = .player ∧ d = obj.tempid ∧ (s.getView obj.type obj.tempid c).isSome then
    none
  else
    s.getView type c d
  sent : ∃ (ks : List Id), ks.Nodup
    ∧ (∀ k, k ∈ ks → k ≠ obj.tempid)
    ∧ (∀ k, k ∈ ks ↔ (s.getView obj.type obj.tempid k).isSome = true)
    ∧ s'.sent = s.sent ++ ks.filterMap (s.farewell obj.tempid)

theorem Left.mem_sent {s s' : State Id Agent} {obj : Obj Id Agent} (h : Left s obj s')
    : ∃ msgs, s'.sent = s.sent ++ msgs
        ∧ ∀ msg, msg ∈ msgs
          ↔
        ∃ k o, s.OBJ k = some o
          ∧ k ≠ obj.tempid
          ∧ (s.getView obj.type obj.tempid k).isSome
          ∧ s.getView .player k obj.tempid = some true
          ∧ msg = (.agent o.agent, .delaoiobj obj.tempid .leave) := by
  obtain ⟨ks, -, hne, hks, hsent⟩ := h.sent
  refine ⟨_, hsent, ?_⟩
  intro msg
  simp only [List.mem_filterMap, State.farewell, Option.ite_none_right_eq_some,
    Option.map_eq_some_iff]
  constructor
  . rintro ⟨k, hk, htrue, o, ho, rfl⟩
    exact ⟨k, o, ho, hne k hk, (hks k).mp hk, htrue, rfl⟩
  . rintro ⟨k, o, ho, -, hk, htrue, rfl⟩
    exact ⟨k, (hks k).mpr hk, htrue, o, ho, rfl⟩

def State.withdraw (s : State Id Agent) (obj : Obj Id Agent) : State Id Agent :=
  { s.sendText (.update obj.tempid ['d'] obj.pos) with
    OBJ := Function.update s.OBJ obj.tempid none
  }

theorem State.withdraw_obj (s : State Id Agent) (obj : Obj Id Agent) (a : Id)
    : (s.withdraw obj).OBJ a = if a = obj.tempid then none else s.OBJ a := by
  unfold State.withdraw
  dsimp only
  rw [Function.update_apply]

theorem leave_left {s : State Id Agent} (hinv : Inv kind s) (order : PairsOrder Id) {obj : Obj Id Agent}
    (hwf : obj.WF kind) : ∃ s', leave order obj s = .ok () s' ∧ Left s obj s' := by
  have hviews : (s.withdraw obj).views obj.type obj.tempid = s.views obj.type obj.tempid := rfl
  have hget0 : ∀ type c d, (s.withdraw obj).getView type c d = s.getView type c d := fun _ _ _ => rfl
  have hhas0 : ∀ type c, (s.withdraw obj).hasView type c = s.hasView type c := fun _ _ => rfl
  cases hview : s.views obj.type obj.tempid with
  | none =>
    rw [hview] at hviews
    have hleave : leave order obj s = .ok () { s.withdraw obj with needUpdate := true } := by
      unfold leave
      dsimp only
      split
      . rfl
      . next heq => simpa using hviews.symm.trans heq
    have hhas : s.hasView obj.type obj.tempid = false := by
      unfold State.hasView
      rw [hview]
      rfl
    have hnone := State.getView_eq_none hhas
    refine ⟨_, hleave, ?_, rfl, rfl, ?_, ?_, [], by simp, by simp, by simp [hnone],
      by simp [State.withdraw, State.sendText]⟩
    . intro a
      exact s.withdraw_obj obj a
    . intro type c
      split
      . next h =>
        rw [h.1, h.2]
        exact hhas
      . rfl
    . intro type c d
      rw [hnone]
      simp only [Option.isSome_none, Bool.false_eq_true, and_false, ↓reduceIte]
      split
      . next h =>
        rw [h.1, h.2]
        exact hnone d
      . rfl
  | some view =>
    rw [hview] at hviews
    have hkeys : ∀ k, k ∈ order.arrange view.keys
        ↔ (s.getView obj.type obj.tempid k).isSome = true := by
      intro k
      rw [(order.perm view.keys).mem_iff, State.mem_keys_iff hview, Option.isSome_iff_exists]
    have hkind : ∀ k, (s.getView obj.type obj.tempid k).isSome = true → k ≠ obj.tempid
        ∧ (s.hasView .player k = false → s.hasView .monster k = false) := by
      intro k hk
      obtain ⟨v, hv⟩ := Option.isSome_iff_exists.mp hk
      cases htype : obj.type with
      | player =>
        rw [htype] at hv
        obtain ⟨hne, hlive, -⟩ := hinv.mirror obj.tempid k v hv
        refine ⟨hne, ?_⟩
        intro hnone
        have hview : s.hasView .player k = true := by
          cases hkindk : kind k with
          | player =>
            rw [hinv.player_view k hkindk]
            exact hlive
          | monster => exact hinv.monster_view k hkindk hlive
        rw [hnone] at hview
        simp at hview
      | monster =>
        rw [htype] at hv
        have hk := hinv.watcher obj.tempid k v hv
        refine ⟨?_, fun _ => hinv.no_monster_view k hk⟩
        rintro rfl
        rw [← hwf.type, htype] at hk
        simp at hk
    obtain ⟨s1, hwalk, hw⟩ := leave.walk_spec (x := obj.tempid) (order.arrange view.keys)
      (s.withdraw obj) ((order.perm view.keys).nodup_iff.mpr view.keys_nodup)
      (by
        intro k hk htrue
        rw [hget0] at htrue
        have hp := hinv.player_of_getView htrue
        have hne := (hkind k ((hkeys k).mp hk)).1
        rw [State.withdraw_obj, if_neg hne, ← hinv.player_view k hp]
        exact State.hasView_of_getView htrue)
      (by
        intro k hk
        exact (hkind k ((hkeys k).mp hk)).2)
    have hleave : leave order obj s
        = .ok () { s1.setTable obj.type obj.tempid none with needUpdate := true } := by
      unfold leave
      dsimp only
      split
      . next heq => simpa using hviews.symm.trans heq
      . next heq =>
        obtain rfl := Option.some.inj (hviews.symm.trans heq)
        split
        . next heq => simpa using hwalk.symm.trans heq
        . next heq =>
          obtain ⟨rfl, rfl⟩ := EStateM.Result.ok.inj (hwalk.symm.trans heq)
          rfl
    have hne : ∀ k, k ∈ order.arrange view.keys → k ≠ obj.tempid := by
      intro k hk
      exact (hkind k ((hkeys k).mp hk)).1
    have hrest := State.setTable_sameRest s1 obj.type obj.tempid none
    refine ⟨_, hleave, ?_, rfl, ?_, ?_, ?_, order.arrange view.keys,
      (order.perm view.keys).nodup_iff.mpr view.keys_nodup, hne, hkeys, ?_⟩
    . intro a
      dsimp only
      rw [hrest.obj, hw.obj]
      exact s.withdraw_obj obj a
    . dsimp only
      rw [hrest.texts, hw.texts]
      rfl
    . intro type c
      show (s1.setTable obj.type obj.tempid none).hasView type c = _
      rw [State.hasView_setTable, hw.hasView, hhas0]
      rfl
    . intro type c d
      show (s1.setTable obj.type obj.tempid none).getView type c d = _
      rw [State.getView_setTable, hw.get, hget0]
      simp only [hkeys]
      rfl
    . dsimp only
      rw [hrest.sent, hw.sent]
      congr 1
      apply List.filterMap_congr
      intro k hk
      unfold State.farewell
      rw [State.withdraw_obj, if_neg (hne k hk)]
      rfl

theorem Inv.left {s s' : State Id Agent} (h : Inv kind s) {obj : Obj Id Agent} (hwf : obj.WF kind)
    (hleft : Left s obj s') : Inv kind s' := by
  have hkind := hwf.type
  constructor
  . intro a o ho
    rw [hleft.OBJ] at ho
    split at ho
    . simp at ho
    . exact h.obj a o ho
  . intro a ha
    rw [hleft.hasView, hleft.OBJ]
    by_cases heq : a = obj.tempid
    . rw [if_pos ⟨by rw [hkind, ← heq, ha], heq⟩, if_pos heq]
      rfl
    . rw [if_neg (by simp [heq]), if_neg heq]
      exact h.player_view a ha
  . intro a ha hlive
    rw [hleft.OBJ] at hlive
    rw [hleft.hasView]
    split at hlive
    . simp at hlive
    . next hne =>
      rw [if_neg (by simp [hne])]
      exact h.monster_view a ha hlive
  . intro a k ha
    rw [hleft.get, h.empty a k ha]
    simp
  . intro a ha
    rw [hleft.hasView, h.no_monster_view a ha]
    simp
  . intro a ha
    rw [hleft.hasView] at ha
    split at ha
    . simp at ha
    . next hne =>
      have hlive := h.live a ha
      rw [hleft.OBJ, if_neg]
      . exact hlive
      . rintro rfl
        cases htype : kind obj.tempid with
        | player =>
          rw [h.no_monster_view _ htype] at ha
          simp at ha
        | monster =>
          apply hne
          rw [hkind, htype]
          exact ⟨rfl, rfl⟩
  . intro p k v hv
    rw [hleft.get] at hv
    split at hv
    . simp at hv
    . next hself =>
      split at hv
      . simp at hv
      . next hother =>
        have hp := h.player_of_getView hv
        obtain ⟨hne, hlive, hmirror⟩ := h.mirror p k v hv
        have hk : k ≠ obj.tempid := by
          rintro rfl
          apply hother
          refine ⟨rfl, rfl, ?_⟩
          rw [hkind, hmirror]
          rfl
        have hp' : p ≠ obj.tempid := by
          rintro rfl
          apply hself
          rw [hkind, hp]
          exact ⟨rfl, rfl⟩
        refine ⟨hne, ?_, ?_⟩
        . rw [hleft.OBJ, if_neg hk]
          exact hlive
        . rw [hleft.get, if_neg (by simp [hk]), if_neg (by simp [hp'])]
          exact hmirror
  . intro a k v hv
    rw [hleft.get] at hv
    split at hv
    . simp at hv
    . split at hv
      . simp at hv
      . exact h.watcher a k v hv

theorem leave_spec {s : State Id Agent} (hinv : Inv kind s) (order : PairsOrder Id) {obj : Obj Id Agent}
    (hwf : obj.WF kind)
    : ∃ s', leave order obj s = .ok () s' ∧ Inv kind s' ∧ Left s obj s' := by
  obtain ⟨s', hleave, hleft⟩ := leave_left hinv order hwf
  exact ⟨s', hleave, hinv.left hwf hleft, hleft⟩

end Aoi
