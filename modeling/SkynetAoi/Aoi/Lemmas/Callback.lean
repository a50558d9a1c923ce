import SkynetAoi.Aoi.Invariant

/-!
This module contains what `aoicallback` does.
-/

namespace Aoi

variable {Id Agent : Type} [DecidableEq Id] {kind : Id → CharType}

structure Sighted (kind : Id → CharType) (s : State Id Agent) (w m : Id) (ow om : Obj Id Agent)
    (s' : State Id Agent) : Prop where
  OBJ : s'.OBJ = s.OBJ
  needUpdate : s'.needUpdate = s.needUpdate
  texts : s'.texts = s.texts
  hasView : ∀ (type : CharType) (c : Id), s'.hasView type c
    =
  (s.hasView type c || decide (type = kind c ∧ (c = w ∨ c = m)))
  get : ∀ (type : CharType) (c d : Id), s'.getView type c d
    =
  if type = kind c ∧ ((c = w ∧ d = m) ∨ (c = m ∧ d = w)) then some true else s.getView type c d
  sent : s'.sent = s.sent
    ++ [(.agent ow.agent, .addaoiobj om (.aoicallbackPlayer m))]
    ++ (if kind m = .player then [] else [(.agent om.agent, .addaoiobjMonster m ow .aoicallback)])

namespace aoicallback

theorem put_spec (s : State Id Agent) (type : CharType) (a k : Id)
    : State.SameRest s (put s type a k)
        ∧ (∀ type' c, (put s type a k).hasView type' c
          = (s.hasView type' c || decide (type' = type ∧ c = a)))
        ∧ ∀ type' c d, (put s type a k).getView type' c d
          = if type' = type ∧ c = a ∧ d = k then some true else s.getView type' c d := by
  have hput : ∃ view : View Id, put s type a k = s.setTable type a (some (view.insert k true))
      ∧ ∀ d, view.lookup d = s.getView type a d := by
    unfold put State.getView
    cases hview : s.views type a with
    | none => exact ⟨∅, rfl, fun d => AList.lookup_empty d⟩
    | some view => exact ⟨view, rfl, fun _ => rfl⟩
  obtain ⟨view, hput, hlookup⟩ := hput
  rw [hput]
  refine ⟨State.setTable_sameRest s type a _, ?_, ?_⟩
  . intro type' c
    rw [State.hasView_setTable]
    split
    . next h => simp [h]
    . next h => simp [h]
  . intro type' c d
    rw [State.getView_setTable]
    by_cases h : type' = type ∧ c = a
    . rw [if_pos h, Option.bind_some, h.1, h.2]
      by_cases hd : d = k
      . rw [hd, AList.lookup_insert]
        simp
      . rw [AList.lookup_insert_ne hd, hlookup]
        simp [hd]
    . rw [if_neg h, if_neg]
      intro h'
      exact h ⟨h'.1, h'.2.1⟩

end aoicallback

theorem aoicallback_sighted {s : State Id Agent} (hinv : Inv kind s) {w m : Id}
    (hw : kind w = .player) (hne : w ≠ m) {ow om : Obj Id Agent} (how : s.OBJ w = some ow)
    (hom : s.OBJ m = some om)
    : ∃ s', aoicallback w m s = .ok () s' ∧ Sighted kind s w m ow om s' := by
  obtain ⟨hidw, htypew, -⟩ := hinv.obj w ow how
  obtain ⟨hidm, htypem, -⟩ := hinv.obj m om hom
  obtain ⟨hrest1, hhas1, hget1⟩ := aoicallback.put_spec s (kind w) w m
  obtain ⟨hrest2, hhas2, hget2⟩ :=
    aoicallback.put_spec (aoicallback.put s (kind w) w m) (kind m) m w
  have hrest := hrest1.trans hrest2
  unfold aoicallback
  rw [how, hom]
  dsimp only
  rw [hidw, hidm, htypew, htypem, if_pos hw]
  have hhas : ∀ type c, (aoicallback.put (aoicallback.put s (kind w) w m) (kind m) m w).hasView type c
      = (s.hasView type c || decide (type = kind c ∧ (c = w ∨ c = m))) := by
    intro type c
    rw [hhas2, hhas1]
    grind
  have hget : ∀ type c d,
      (aoicallback.put (aoicallback.put s (kind w) w m) (kind m) m w).getView type c d
        = if type = kind c ∧ ((c = w ∧ d = m) ∨ (c = m ∧ d = w)) then some true
          else s.getView type c d := by
    intro type c d
    rw [hget2, hget1]
    grind
  cases hm : kind m with
  | player =>
    rw [hm] at hhas hget hrest
    simp only [ne_eq, not_true_eq_false, ↓reduceIte]
    refine ⟨_, rfl, hrest.obj, hrest.needUpdate, hrest.texts, hhas, hget, ?_⟩
    simp only [State.send, hrest.sent, hm, ↓reduceIte, List.append_nil]
  | monster =>
    rw [hm] at hhas hget hrest
    simp only [ne_eq, reduceCtorEq, not_false_eq_true, ↓reduceIte]
    refine ⟨_, rfl, hrest.obj, hrest.needUpdate, hrest.texts, hhas, hget, ?_⟩
    simp only [State.send, hrest.sent, hm, reduceCtorEq, ↓reduceIte]

theorem Inv.sighted {s s' : State Id Agent} (h : Inv kind s) {w m : Id} (hw : kind w = .player)
    (hne : w ≠ m) {ow om : Obj Id Agent} (how : s.OBJ w = some ow) (hom : s.OBJ m = some om)
    (hs : Sighted kind s w m ow om s') : Inv kind s' := by
  have hlivew : (s.OBJ w).isSome = true := by
    rw [how]
    rfl
  have hlivem : (s.OBJ m).isSome = true := by
    rw [hom]
    rfl
  constructor
  . rw [hs.OBJ]
    exact h.obj
  . intro a ha
    rw [hs.hasView, hs.OBJ, h.player_view a ha]
    by_cases heq : a = w ∨ a = m
    . have : (s.OBJ a).isSome = true := by
        rcases heq with rfl | rfl
        . exact hlivew
        . exact hlivem
      simp [this]
    . simp [heq]
  . intro a ha hlive
    rw [hs.OBJ] at hlive
    rw [hs.hasView, h.monster_view a ha hlive]
    rfl
  . intro a k ha
    rw [hs.get, if_neg, h.empty a k ha]
    rw [ha]
    simp
  . intro a ha
    rw [hs.hasView, h.no_monster_view a ha, ha]
    simp
  . intro a ha
    rw [hs.hasView] at ha
    rw [hs.OBJ]
    simp only [Bool.or_eq_true, decide_eq_true_eq] at ha
    rcases ha with ha | ⟨-, rfl | rfl⟩
    . exact h.live a ha
    . exact hlivew
    . exact hlivem
  . intro p k v hv
    rw [hs.get] at hv
    rw [hs.get, hs.OBJ]
    split at hv
    . next hpair =>
      rw [if_pos]
      . rcases hpair.2 with ⟨rfl, rfl⟩ | ⟨rfl, rfl⟩
        . exact ⟨hne.symm, hlivem, hv⟩
        . exact ⟨hne, hlivew, hv⟩
      . refine ⟨rfl, ?_⟩
        rcases hpair.2 with ⟨rfl, rfl⟩ | ⟨rfl, rfl⟩
        . exact Or.inr ⟨rfl, rfl⟩
        . exact Or.inl ⟨rfl, rfl⟩
    . next hpair =>
      have hp := h.player_of_getView hv
      obtain ⟨hkp, hlive, hmirror⟩ := h.mirror p k v hv
      rw [if_neg]
      . exact ⟨hkp, hlive, hmirror⟩
      . rintro ⟨-, hpair'⟩
        apply hpair
        rw [hp]
        refine ⟨rfl, ?_⟩
        rcases hpair' with ⟨rfl, rfl⟩ | ⟨rfl, rfl⟩
        . exact Or.inr ⟨rfl, rfl⟩
        . exact Or.inl ⟨rfl, rfl⟩
  . intro a k v hv
    rw [hs.get] at hv
    split at hv
    . next hpair =>
      rcases hpair with ⟨hkind, ⟨rfl, rfl⟩ | ⟨rfl, rfl⟩⟩
      . rw [hw] at hkind
        simp at hkind
      . exact hw
    . exact h.watcher a k v hv

inductive CallbackResult (kind : Id → CharType) (s : State Id Agent) (w m : Id)
    : State Id Agent → Prop where
  | ignored (h : s.OBJ w = none ∨ s.OBJ m = none) : CallbackResult kind s w m s
  | sighted (s' : State Id Agent) (ow om : Obj Id Agent) (how : s.OBJ w = some ow)
      (hom : s.OBJ m = some om) (hs : Sighted kind s w m ow om s')
    : CallbackResult kind s w m s'

theorem aoicallback_spec {s : State Id Agent} (hinv : Inv kind s) {w m : Id}
    (hw : kind w = .player) (hne : w ≠ m)
    : ∃ s', aoicallback w m s = .ok () s' ∧ Inv kind s' ∧ CallbackResult kind s w m s' := by
  cases how : s.OBJ w with
  | none =>
    refine ⟨s, ?_, hinv, .ignored (Or.inl how)⟩
    unfold aoicallback
    rw [how]
  | some ow =>
    cases hom : s.OBJ m with
    | none =>
      refine ⟨s, ?_, hinv, .ignored (Or.inr hom)⟩
      unfold aoicallback
      rw [how, hom]
    | some om =>
      obtain ⟨s', hcallback, hs⟩ := aoicallback_sighted hinv hw hne how hom
      exact ⟨s', hcallback, hinv.sighted hw hne how hom hs, .sighted s' ow om how hom hs⟩

end Aoi
