import SkynetAoi.Aoi.Invariant

/-!
This module contains what the walk of `updateviewplayer` does to the tables and which lists it
collects.
-/

namespace Aoi

variable {Id Agent : Type}

def near (mypos : Point) (other : Obj Id Agent) : Bool :=
  Point.dist2 mypos other.pos ≤ aoiRadis2

def Obj.brief (obj : Obj Id Agent) : Brief Id Agent where
  tempid := obj.tempid
  agent := obj.agent

-- The flag that a walk leaves for an object at this distance, a monster forgets who is far away.
def zone (type : CharType) (mypos : Point) (other : Obj Id Agent) : Option Bool :=
  if near mypos other then
    some true
  else
    match type with
    | .player => some false
    | .monster => if Point.dist2 mypos other.pos ≤ leaveAoiRadis2 then some false else none

def State.zone (s : State Id Agent) (type : CharType) (mypos : Point) (k : Id) : Option Bool :=
  match s.OBJ k with
  | some other => Aoi.zone type mypos other
  | none => none

theorem zone_of_near {type : CharType} {mypos : Point} {other : Obj Id Agent}
    (h : near mypos other = true) : zone type mypos other = some true := by
  unfold zone
  rw [h]
  rfl

theorem near_of_zone {type : CharType} {mypos : Point} {other : Obj Id Agent}
    (h : zone type mypos other = some true) : near mypos other = true := by
  unfold zone at h
  split at h
  . assumption
  . cases type with
    | player => simp at h
    | monster =>
      dsimp only at h
      split at h
      . simp at h
      . simp at h

namespace Lists

def of {α : Type} (lists : Lists α) (type : CharType) : List α :=
  match type with
  | .player => lists.playerlist
  | .monster => lists.monsterlist

theorem of_insert {α : Type} (lists : Lists α) (v : α) (type type' : CharType)
    : (inserttotablebytype lists v type).of type'
        = lists.of type' ++ if type = type' then [v] else [] := by
  cases type <;> cases type' <;> simp [inserttotablebytype, of]

def sorted {α : Type} (f : Obj Id Agent → α) (objs : List (Obj Id Agent)) : Lists α where
  playerlist := (objs.filter (·.type = .player)).map f
  monsterlist := (objs.filter (·.type = .monster)).map f

theorem of_sorted {α : Type} (f : Obj Id Agent → α) (objs : List (Obj Id Agent))
    (type : CharType) : (sorted f objs).of type = (objs.filter (·.type = type)).map f := by
  cases type <;> rfl

theorem eq_sorted {α : Type} {lists : Lists α} {f : Obj Id Agent → α} {objs : List (Obj Id Agent)}
    (h : ∀ type, lists.of type
      = (⟨[], []⟩ : Lists α).of type ++ (objs.filter (·.type = type)).map f)
    : lists = sorted f objs := by
  have hplayer := h .player
  have hmonster := h .monster
  cases lists
  simp only [of, List.nil_append] at hplayer hmonster
  rw [sorted, hplayer, hmonster]

end Lists

variable [DecidableEq Id] {kind : Id → CharType}

def State.pick (s : State Id Agent) (type : CharType) (a : Id) (mypos : Point) (old new : Bool)
    (k : Id) : Option (Obj Id Agent) :=
  match s.getView type a k, s.OBJ k with
  | some v, some o => if v = old ∧ near mypos o = new then some o else none
  | _, _ => none

theorem State.pick_of_get {s : State Id Agent} {type : CharType} {a k : Id} {v : Bool}
    (hget : s.getView type a k = some v) {o : Obj Id Agent} (hobj : s.OBJ k = some o)
    (mypos : Point) (old new : Bool)
    : s.pick type a mypos old new k = if v = old ∧ near mypos o = new then some o else none := by
  unfold State.pick
  rw [hget, hobj]

theorem State.pick_eq_some_iff {s : State Id Agent} {type : CharType} {a : Id} {mypos : Point}
    {old new : Bool} {k : Id} {o : Obj Id Agent}
    : s.pick type a mypos old new k = some o
        ↔
      s.getView type a k = some old ∧ s.OBJ k = some o ∧ near mypos o = new := by
  unfold State.pick
  cases s.getView type a k with
  | none => simp
  | some v =>
    cases s.OBJ k with
    | none => simp
    | some o' =>
      simp only [Option.ite_none_right_eq_some, Option.some.injEq]
      constructor
      . rintro ⟨⟨hv, hnear⟩, rfl⟩
        exact ⟨hv, rfl, hnear⟩
      . rintro ⟨hv, rfl, hnear⟩
        exact ⟨⟨hv, hnear⟩, rfl⟩

theorem State.mem_picks {s : State Id Agent} {type : CharType} {a : Id} {ks : List Id}
    (hks : ∀ k, k ∈ ks ↔ (s.getView type a k).isSome = true) {mypos : Point} {old new : Bool}
    {o : Obj Id Agent}
    : o ∈ ks.filterMap (s.pick type a mypos old new)
        ↔
      ∃ k, s.OBJ k = some o ∧ s.getView type a k = some old ∧ near mypos o = new := by
  rw [List.mem_filterMap]
  simp only [State.pick_eq_some_iff]
  constructor
  . rintro ⟨k, -, hget, hobj, hnear⟩
    exact ⟨k, hobj, hget, hnear⟩
  . rintro ⟨k, hobj, hget, hnear⟩
    refine ⟨k, ?_, hget, hobj, hnear⟩
    rw [hks, hget]
    rfl

structure PlayerWalk (kind : Id → CharType) (s : State Id Agent) (p : Id) (mypos : Point)
    (ks : List Id) (lists lists' : PlayerLists Id Agent) (s' : State Id Agent) : Prop where
  rest : State.SameRest s s'
  hasView : ∀ (type : CharType) (c : Id), s'.hasView type c = s.hasView type c
  get : ∀ (type : CharType) (c d : Id), s'.getView type c d
    =
  if type = kind c ∧ c = p ∧ d ∈ ks then
    s.zone .player mypos d
  else if type = kind c ∧ d = p ∧ c ∈ ks then
    s.zone .player mypos c
  else
    s.getView type c d
  enter : ∀ (type : CharType), lists'.enterlist.of type
    =
  lists.enterlist.of type
    ++ (ks.filterMap (s.pick .player p mypos false true)).filter (·.type = type)
  leave : ∀ (type : CharType), lists'.leavelist.of type
    =
  lists.leavelist.of type
    ++ ((ks.filterMap (s.pick .player p mypos true false)).filter (·.type = type)).map Obj.brief
  move : ∀ (type : CharType), lists'.movelist.of type
    =
  lists.movelist.of type
    ++ ((ks.filterMap (s.pick .player p mypos true true)).filter (·.type = type)).map Obj.brief

namespace updateviewplayer

variable {s : State Id Agent} {p : Id}

theorem visit_spec (mypos : Point) (hinv : Inv kind s) {k : Id} {v : Bool}
    (hget : s.getView .player p k = some v) {other : Obj Id Agent} (hobj : s.OBJ k = some other)
    (lists : PlayerLists Id Agent)
    : ∃ lists' s', visit p mypos k lists s = .ok lists' s'
        ∧ SetsPair kind s s' p k (zone .player mypos other)
        ∧ lists'.enterlist
          = (if v = false ∧ near mypos other = true then
              inserttotablebytype lists.enterlist other other.type
            else
              lists.enterlist)
        ∧ lists'.leavelist
          = (if v = true ∧ near mypos other = false then
              inserttotablebytype lists.leavelist other.brief other.type
            else
              lists.leavelist)
        ∧ lists'.movelist
          = (if v = true ∧ near mypos other = true then
              inserttotablebytype lists.movelist other.brief other.type
            else
              lists.movelist) := by
  have hp := hinv.player_of_getView hget
  have htype := (hinv.obj k other hobj).2.1
  obtain ⟨hne, -, hmirror⟩ := hinv.mirror p k v hget
  have hviewp := State.hasView_of_getView hget
  rw [← hp] at hviewp
  have hset := fun (lists : PlayerLists Id Agent) (v : Option Bool) =>
    setBoth_spec hviewp (State.hasView_of_getView hmirror) lists v
  rw [hp] at hset
  have hstay : SetsPair kind s s p k (some v) := by
    refine ⟨State.SameRest.refl s, fun _ _ => rfl, ?_⟩
    intro type c d
    split
    . next hpair =>
      rcases hpair with ⟨rfl, ⟨rfl, rfl⟩ | ⟨rfl, rfl⟩⟩
      . rw [hp]
        exact hget
      . exact hmirror
    . rfl
  unfold visit
  rw [hget]
  dsimp only
  rw [hobj]
  dsimp only
  rw [htype]
  by_cases hnear : Point.dist2 mypos other.pos ≤ aoiRadis2
  . have hnear' : near mypos other = true := by simpa [near] using hnear
    rw [if_pos hnear, zone_of_near hnear']
    cases v with
    | true => exact ⟨_, s, rfl, hstay, by simp, by simp [hnear'], by simp [hnear', Obj.brief]⟩
    | false =>
      obtain ⟨s', hset', hsets⟩ := hset
        { lists with enterlist := inserttotablebytype lists.enterlist other (kind k) } (some true)
      exact ⟨_, s', hset', hsets, by simp [hnear'], by simp, by simp⟩
  . have hnear' : near mypos other = false := by simpa [near] using hnear
    have hzone : zone .player mypos other = some false := by simp [zone, hnear']
    have hdist : aoiRadis2 < Point.dist2 mypos other.pos := lt_of_not_ge hnear
    rw [if_neg hnear, hzone]
    cases v with
    | true =>
      obtain ⟨s', hset', hsets⟩ := hset
        { lists with leavelist := inserttotablebytype lists.leavelist other.brief (kind k) }
        (some false)
      simp only [↓reduceIte, ite_self]
      exact ⟨_, s', hset', hsets, by simp, by simp [hnear'], by simp [hnear']⟩
    | false =>
      by_cases hleave : Point.dist2 mypos other.pos ≤ leaveAoiRadis2
      . rw [if_pos ⟨hdist, hleave⟩]
        exact ⟨lists, s, rfl, hstay, by simp [hnear'], by simp, by simp⟩
      . obtain ⟨s', hset', hsets⟩ := hset lists (some false)
        rw [if_neg (by simp [hleave])]
        exact ⟨lists, s', hset', hsets, by simp [hnear'], by simp, by simp⟩

theorem picks_cons {mypos : Point} {k : Id} {v : Bool} (hget : s.getView .player p k = some v)
    {other : Obj Id Agent} (hobj : s.OBJ k = some other) {α : Type} (f : Obj Id Agent → α)
    (lists : Lists α) (ks : List Id) (old new : Bool) (type : CharType)
    : (if v = old ∧ near mypos other = new then
          inserttotablebytype lists (f other) other.type
        else
          lists).of type
          ++ ((ks.filterMap (s.pick .player p mypos old new)).filter (·.type = type)).map f
        =
      lists.of type
        ++ (((k :: ks).filterMap (s.pick .player p mypos old new)).filter (·.type = type)).map f := by
  rw [List.filterMap_cons, State.pick_of_get hget hobj]
  split
  . rw [Lists.of_insert]
    by_cases htype : other.type = type
    . simp [htype]
    . rw [if_neg htype, List.append_nil, List.filter_cons_of_neg (by simpa using htype)]
  . rfl

theorem walk_spec (mypos : Point) (ks : List Id) (s : State Id Agent) (lists : PlayerLists Id Agent)
    (hinv : Inv kind s) (hp : (s.OBJ p).isSome = true) (hnodup : ks.Nodup)
    (hks : ∀ k ∈ ks, ∃ v, s.getView .player p k = some v)
    : ∃ lists' s', forPairs (visit p mypos) ks lists s = .ok lists' s'
        ∧ Inv kind s'
        ∧ PlayerWalk kind s p mypos ks lists lists' s' := by
  induction ks generalizing s lists with
  | nil =>
    refine ⟨lists, s, rfl, hinv, State.SameRest.refl s, fun _ _ => rfl, ?_, ?_, ?_, ?_⟩
    . intros
      simp
    . intros
      simp
    . intros
      simp
    . intros
      simp
  | cons k ks ih =>
    obtain ⟨v, hget⟩ := hks k (by simp)
    obtain ⟨hne, hlive, -⟩ := hinv.mirror p k v hget
    obtain ⟨other, hobj⟩ := Option.isSome_iff_exists.mp hlive
    obtain ⟨lists1, s1, hvisit, hsets, henter1, hleave1, hmove1⟩ :=
      visit_spec mypos hinv hget hobj lists
    have hplayer := hinv.player_of_getView hget
    have hinv1 := hinv.setsPair hsets hne.symm hp hlive (Or.inl hplayer)
    rw [List.nodup_cons] at hnodup
    have hother : ∀ j ∈ ks, s1.getView .player p j = s.getView .player p j := by
      intro j hj
      rw [hsets.get, if_neg]
      rintro ⟨-, ⟨-, rfl⟩ | ⟨rfl, -⟩⟩
      . exact hnodup.1 hj
      . exact hne rfl
    obtain ⟨lists', s', hwalk, hinv', hw⟩ := ih s1 lists1 hinv1
      (by
        rw [hsets.rest.obj]
        exact hp)
      hnodup.2
      (by
        intro j hj
        rw [hother j hj]
        apply hks
        simp [hj])
    have hzone : ∀ j, s1.zone .player mypos j = s.zone .player mypos j := by
      intro j
      unfold State.zone
      rw [hsets.rest.obj]
    have hzonek : s.zone .player mypos k = zone .player mypos other := by
      unfold State.zone
      rw [hobj]
    have hpick : ∀ old new, ks.filterMap (s1.pick .player p mypos old new)
        = ks.filterMap (s.pick .player p mypos old new) := by
      intro old new
      apply List.filterMap_congr
      intro j hj
      unfold State.pick
      rw [hother j hj, hsets.rest.obj]
    refine ⟨lists', s', ?_, hinv', hsets.rest.trans hw.rest, ?_, ?_, ?_, ?_, ?_⟩
    . rw [forPairs, hvisit]
      exact hwalk
    . intro type c
      rw [hw.hasView, hsets.hasView]
    . intro type c d
      rw [hw.get, hzone, hzone, hsets.get]
      grind
    . intro type
      rw [hw.enter, hpick, henter1]
      simpa using picks_cons hget hobj id lists.enterlist ks false true type
    . intro type
      rw [hw.leave, hpick, hleave1]
      exact picks_cons hget hobj Obj.brief lists.leavelist ks true false type
    . intro type
      rw [hw.move, hpick, hmove1]
      exact picks_cons hget hobj Obj.brief lists.movelist ks true true type

end updateviewplayer

end Aoi
