import SkynetAoi.Aoi.Lemmas.Entry

/-!
This module contains the invariant of the tables that no request breaks, not even one that raises.
What a player has in its view is there, and it has the player in its own view with the same flag. A
monster on the other hand may keep a player in its view that has left.
-/

namespace Aoi

variable {Id Agent : Type} [DecidableEq Id]

def modeOf (type : CharType) : List Char :=
  match type with
  | .player => ['w', 'm']
  | .monster => ['m']

-- Objects as the agents and the monsters send them, where no id is used for both types.
structure Obj.WF (kind : Id → CharType) (obj : Obj Id Agent) : Prop where
  type : obj.type = kind obj.tempid
  mode : obj.mode = modeOf obj.type

def Action.WF (kind : Id → CharType) (action : Action Id Agent) : Prop :=
  match action with
  | .enter _ obj => obj.WF kind
  | .leave _ obj => obj.WF kind
  | .aoicallback w m => kind w = .player ∧ w ≠ m
  | .messageUpdate => True

structure Inv (kind : Id → CharType) (s : State Id Agent) : Prop where
  obj : ∀ (a : Id) (o : Obj Id Agent), s.OBJ a = some o →
    o.tempid = a ∧ o.type = kind a ∧ o.mode = modeOf (kind a)
  player_view : ∀ (a : Id), kind a = .player → s.hasView .player a = (s.OBJ a).isSome
  monster_view : ∀ (a : Id), kind a = .monster → (s.OBJ a).isSome = true →
    s.hasView .player a = true
  empty : ∀ (a k : Id), kind a = .monster → s.getView .player a k = none
  no_monster_view : ∀ (a : Id), kind a = .player → s.hasView .monster a = false
  live : ∀ (a : Id), s.hasView .monster a = true → (s.OBJ a).isSome = true
  mirror : ∀ (p k : Id) (v : Bool), s.getView .player p k = some v →
    k ≠ p ∧ (s.OBJ k).isSome = true ∧ s.getView (kind k) k p = some v
  watcher : ∀ (a k : Id) (v : Bool), s.getView .monster a k = some v → kind k = .player

namespace Inv

variable {kind : Id → CharType} {s : State Id Agent}

theorem init : Inv kind (.init : State Id Agent) := by
  constructor
  all_goals
    intros
    simp_all [State.init, State.hasView, State.getView, State.views]

theorem congr {s' : State Id Agent} (h : Inv kind s) (hobj : s'.OBJ = s.OBJ)
    (hplayer : s'.playerview = s.playerview) (hmonster : s'.monsterview = s.monsterview)
    : Inv kind s' := by
  have hviews : ∀ type, s'.views type = s.views type := by
    intro type
    cases type with
    | player => exact hplayer
    | monster => exact hmonster
  have hhas : ∀ type a, s'.hasView type a = s.hasView type a := by
    intro type a
    unfold State.hasView
    rw [hviews]
  have hget : ∀ type a k, s'.getView type a k = s.getView type a k := by
    intro type a k
    unfold State.getView
    rw [hviews]
  constructor
  . rw [hobj]
    exact h.obj
  . simp only [hhas, hobj]
    exact h.player_view
  . simp only [hhas, hobj]
    exact h.monster_view
  . simp only [hget]
    exact h.empty
  . simp only [hhas]
    exact h.no_monster_view
  . simp only [hhas, hobj]
    exact h.live
  . simp only [hget, hobj]
    exact h.mirror
  . simp only [hget]
    exact h.watcher

theorem player_of_getView (h : Inv kind s) {p k : Id} {v : Bool}
    (hget : s.getView .player p k = some v) : kind p = .player := by
  cases hkind : kind p with
  | player => rfl
  | monster =>
    rw [h.empty p k hkind] at hget
    simp at hget

theorem monster_of_getView (h : Inv kind s) {m k : Id} {v : Bool}
    (hget : s.getView .monster m k = some v) : kind m = .monster := by
  cases hkind : kind m with
  | monster => rfl
  | player =>
    rw [State.getView_eq_none (h.no_monster_view m hkind)] at hget
    simp at hget

theorem live_of_getView (h : Inv kind s) {a k : Id} {v : Bool}
    (hget : s.getView (kind a) a k = some v) : (s.OBJ a).isSome = true := by
  have hview := State.hasView_of_getView hget
  cases hkind : kind a with
  | player =>
    rw [hkind] at hview
    rw [← h.player_view a hkind]
    exact hview
  | monster =>
    rw [hkind] at hview
    exact h.live a hview

end Inv

structure SetsPair (kind : Id → CharType) (s s' : State Id Agent) (a b : Id) (v : Option Bool)
    : Prop where
  rest : State.SameRest s s'
  hasView : ∀ (type : CharType) (c : Id), s'.hasView type c = s.hasView type c
  get : ∀ (type : CharType) (c d : Id), s'.getView type c d
    =
  if type = kind c ∧ ((c = a ∧ d = b) ∨ (c = b ∧ d = a)) then v else s.getView type c d

theorem setBoth_spec {kind : Id → CharType} {s : State Id Agent} {a b : Id}
    (ha : s.hasView (kind a) a = true) (hb : s.hasView (kind b) b = true) {α : Type} (lists : α)
    (v : Option Bool)
    : ∃ s', setBoth (kind a) (kind b) a b v lists s = .ok lists s'
        ∧ SetsPair kind s s' a b v := by
  obtain ⟨s1, hset1, hrest1, hview1, hget1⟩ := State.setView_spec ha b v
  rw [← hview1] at hb
  obtain ⟨s2, hset2, hrest2, hview2, hget2⟩ := State.setView_spec hb a v
  refine ⟨s2, ?_, hrest1.trans hrest2, ?_, ?_⟩
  . unfold setBoth
    rw [hset1]
    dsimp only
    rw [hset2]
  . intro type c
    rw [hview2, hview1]
  . intro type c d
    rw [hget2, hget1]
    by_cases h1 : type = kind b ∧ c = b ∧ d = a
    . rw [if_pos h1, if_pos]
      exact ⟨by rw [h1.1, h1.2.1], Or.inr h1.2⟩
    . rw [if_neg h1]
      by_cases h2 : type = kind a ∧ c = a ∧ d = b
      . rw [if_pos h2, if_pos]
        exact ⟨by rw [h2.1, h2.2.1], Or.inl h2.2⟩
      . rw [if_neg h2, if_neg]
        rintro ⟨htype, hc | hc⟩
        . apply h2
          rw [htype, hc.1]
          exact ⟨rfl, rfl, hc.2⟩
        . apply h1
          rw [htype, hc.1]
          exact ⟨rfl, rfl, hc.2⟩

namespace Inv

variable {kind : Id → CharType} {s s' : State Id Agent}

theorem setsPair (h : Inv kind s) {a b : Id} {v : Option Bool} (hsets : SetsPair kind s s' a b v)
    (hne : a ≠ b) (ha : (s.OBJ a).isSome = true) (hb : (s.OBJ b).isSome = true)
    (hplayer : kind a = .player ∨ kind b = .player) : Inv kind s' where
  obj := by
    rw [hsets.rest.obj]
    exact h.obj
  player_view := by
    intro c hc
    rw [hsets.hasView, hsets.rest.obj]
    exact h.player_view c hc
  monster_view := by
    intro c hc hobj
    rw [hsets.rest.obj] at hobj
    rw [hsets.hasView]
    exact h.monster_view c hc hobj
  empty := by
    intro c d hc
    rw [hsets.get, if_neg]
    . exact h.empty c d hc
    . rw [hc]
      simp
  no_monster_view := by
    intro c hc
    rw [hsets.hasView]
    exact h.no_monster_view c hc
  live := by
    intro c hc
    rw [hsets.hasView] at hc
    rw [hsets.rest.obj]
    exact h.live c hc
  mirror := by
    intro p k v' hget
    rw [hsets.rest.obj]
    rw [hsets.get] at hget
    rw [hsets.get]
    split at hget
    . next hpair =>
      rw [if_pos]
      . rcases hpair.2 with ⟨rfl, rfl⟩ | ⟨rfl, rfl⟩
        . exact ⟨hne.symm, hb, hget⟩
        . exact ⟨hne, ha, hget⟩
      . refine ⟨rfl, ?_⟩
        rcases hpair.2 with ⟨rfl, rfl⟩ | ⟨rfl, rfl⟩
        . exact Or.inr ⟨rfl, rfl⟩
        . exact Or.inl ⟨rfl, rfl⟩
    . next hpair =>
      have hp := h.player_of_getView hget
      obtain ⟨hkp, hlive, hmirror⟩ := h.mirror p k v' hget
      rw [if_neg]
      . exact ⟨hkp, hlive, hmirror⟩
      . rintro ⟨-, hpair'⟩
        apply hpair
        rw [hp]
        refine ⟨rfl, ?_⟩
        rcases hpair' with ⟨rfl, rfl⟩ | ⟨rfl, rfl⟩
        . exact Or.inr ⟨rfl, rfl⟩
        . exact Or.inl ⟨rfl, rfl⟩
  watcher := by
    intro c k v' hget
    rw [hsets.get] at hget
    split at hget
    . next hpair =>
      rcases hpair with ⟨hkind, ⟨rfl, rfl⟩ | ⟨rfl, rfl⟩⟩
      . rw [← hkind] at hplayer
        simpa using hplayer
      . rw [← hkind] at hplayer
        simpa using hplayer
    . exact h.watcher c k v' hget

end Inv

end Aoi
