import SkynetAoi.Aoi.Handlers

/-!
This module contains how the entries of the view tables change when the handlers write them.
-/

namespace Aoi

variable {Id Agent : Type}

namespace State

def hasView (s : State Id Agent) (type : CharType) (a : Id) : Bool :=
  (s.views type a).isSome

theorem hasView_iff (s : State Id Agent) (type : CharType) (a : Id)
    : s.hasView type a = true ↔ ∃ view, s.views type a = some view := by
  unfold hasView
  rw [Option.isSome_iff_exists]

structure SameRest (s s' : State Id Agent) : Prop where
  obj : s'.OBJ = s.OBJ
  needUpdate : s'.needUpdate = s.needUpdate
  texts : s'.texts = s.texts
  sent : s'.sent = s.sent

namespace SameRest

theorem refl (s : State Id Agent) : SameRest s s := ⟨rfl, rfl, rfl, rfl⟩

theorem trans {s1 s2 s3 : State Id Agent} (h12 : SameRest s1 s2) (h23 : SameRest s2 s3)
    : SameRest s1 s3 where
  obj := by rw [h23.obj, h12.obj]
  needUpdate := by rw [h23.needUpdate, h12.needUpdate]
  texts := by rw [h23.texts, h12.texts]
  sent := by rw [h23.sent, h12.sent]

end SameRest

variable [DecidableEq Id]

theorem hasView_of_getView {s : State Id Agent} {type : CharType} {a k : Id} {v : Bool}
    (h : s.getView type a k = some v) : s.hasView type a = true := by
  unfold getView at h
  split at h
  . simp at h
  . next view hview =>
    unfold hasView
    rw [hview]
    rfl

theorem getView_eq_none {s : State Id Agent} {type : CharType} {a : Id}
    (h : s.hasView type a = false) (k : Id) : s.getView type a k = none := by
  cases hget : s.getView type a k with
  | none => rfl
  | some v =>
    rw [hasView_of_getView hget] at h
    simp at h

theorem mem_keys_iff {s : State Id Agent} {type : CharType} {a : Id} {view : View Id}
    (h : s.views type a = some view) (k : Id)
    : k ∈ view.keys ↔ ∃ v, s.getView type a k = some v := by
  unfold getView
  rw [h]
  dsimp only
  rw [← AList.mem_keys, ← AList.lookup_isSome, Option.isSome_iff_exists]

theorem views_setTable (s : State Id Agent) (type : CharType) (a : Id) (view : Option (View Id))
    (type' : CharType) (a' : Id)
    : (s.setTable type a view).views type' a'
        =
      if type' = type ∧ a' = a then view else s.views type' a' := by
  cases type <;> cases type' <;> simp [setTable, views, Function.update_apply]

theorem getView_setTable (s : State Id Agent) (type : CharType) (a : Id) (view : Option (View Id))
    (type' : CharType) (a' k : Id)
    : (s.setTable type a view).getView type' a' k
        =
      if type' = type ∧ a' = a then view.bind (AList.lookup k) else s.getView type' a' k := by
  unfold getView
  rw [views_setTable]
  by_cases h : type' = type ∧ a' = a
  . rw [if_pos h, if_pos h]
    cases view with
    | none => rfl
    | some view => rfl
  . rw [if_neg h, if_neg h]

theorem hasView_setTable (s : State Id Agent) (type : CharType) (a : Id) (view : Option (View Id))
    (type' : CharType) (a' : Id)
    : (s.setTable type a view).hasView type' a'
        =
      if type' = type ∧ a' = a then view.isSome else s.hasView type' a' := by
  unfold hasView
  rw [views_setTable]
  split
  . rfl
  . rfl

theorem setTable_sameRest (s : State Id Agent) (type : CharType) (a : Id) (view : Option (View Id))
    : SameRest s (s.setTable type a view) := by
  cases type with
  | player => exact ⟨rfl, rfl, rfl, rfl⟩
  | monster => exact ⟨rfl, rfl, rfl, rfl⟩

theorem setView_spec {s : State Id Agent} {type : CharType} {a : Id}
    (h : s.hasView type a = true) (k : Id) (v : Option Bool)
    : ∃ s', s.setView type a k v = some s'
        ∧ SameRest s s'
        ∧ (∀ type' a', s'.hasView type' a' = s.hasView type' a')
        ∧ ∀ type' a' k', s'.getView type' a' k'
            =
          if type' = type ∧ a' = a ∧ k' = k then v else s.getView type' a' k' := by
  rw [hasView_iff] at h
  obtain ⟨view, hview⟩ := h
  have hset : ∀ (view' : View Id), (∀ k', view'.lookup k' = if k' = k then v else view.lookup k') →
      SameRest s (s.setTable type a (some view'))
        ∧ (∀ type' a', (s.setTable type a (some view')).hasView type' a' = s.hasView type' a')
        ∧ ∀ type' a' k', (s.setTable type a (some view')).getView type' a' k'
            = if type' = type ∧ a' = a ∧ k' = k then v else s.getView type' a' k' := by
    intro view' hlookup
    refine ⟨setTable_sameRest s type a _, ?_, ?_⟩
    . intro type' a'
      rw [hasView_setTable]
      split
      . next heq =>
        unfold hasView
        rw [heq.1, heq.2, hview]
        rfl
      . rfl
    . intro type' a' k'
      rw [getView_setTable]
      by_cases heq : type' = type ∧ a' = a
      . rw [if_pos heq, Option.bind_some, hlookup]
        have hold : s.getView type' a' k' = view.lookup k' := by
          unfold getView
          rw [heq.1, heq.2, hview]
        rw [hold]
        simp [heq]
      . rw [if_neg heq, if_neg]
        intro h
        exact heq ⟨h.1, h.2.1⟩
  unfold setView
  rw [hview]
  cases v with
  | some flag =>
    refine ⟨_, rfl, hset (view.insert k flag) ?_⟩
    intro k'
    split
    . next heq => rw [heq, AList.lookup_insert]
    . next hne => rw [AList.lookup_insert_ne hne]
  | none =>
    refine ⟨_, rfl, hset (view.erase k) ?_⟩
    intro k'
    split
    . next heq => rw [heq, AList.lookup_erase]
    . next hne => rw [AList.lookup_erase_ne hne]

end State

end Aoi
