import SkynetAoi.Aoi.Lemmas.PlayerWalk

/-!
This module contains what the walk of `updateviewmonster` does to the tables, which lists it collects
and where it raises.
-/

namespace Aoi

variable {Id Agent : Type} [DecidableEq Id] {kind : Id → CharType}

/--
A walk of `updateviewmonster` over the keys `ks`. Where the monster has the right flag already the
view of the player is left alone, whatever it says.
-/
structure MonsterWalk (s : State Id Agent) (m : Id) (mypos : Point) (ks : List Id)
    (lists lists' : MonsterLists Id Agent) (s' : State Id Agent) : Prop where
  rest : State.SameRest s s'
  hasView : ∀ (type : CharType) (c : Id), s'.hasView type c = s.hasView type c
  get : ∀ (type : CharType) (c d : Id), s'.getView type c d
    =
  if type = .monster ∧ c = m ∧ d ∈ ks then
    s.zone .monster mypos d
  else if type = .player ∧ d = m ∧ c ∈ ks
      ∧ s.getView .monster m c ≠ s.zone .monster mypos c then
    s.zone .monster mypos c
  else
    s.getView type c d
  enter : lists'.enterlist
    =
  lists.enterlist ++ ks.filterMap (s.pick .monster m mypos false true)
  leave : lists'.leavelist
    =
  lists.leavelist ++ (ks.filterMap (s.pick .monster m mypos true false)).map Obj.brief
  move : lists'.movelist
    =
  lists.movelist ++ (ks.filterMap (s.pick .monster m mypos true true)).map Obj.agent

theorem MonsterWalk.nil (s : State Id Agent) (m : Id) (mypos : Point) (lists : MonsterLists Id Agent)
    : MonsterWalk s m mypos [] lists lists s where
  rest := State.SameRest.refl s
  hasView := fun _ _ => rfl
  get := by
    intros
    simp
  enter := by simp
  leave := by simp
  move := by simp

namespace updateviewmonster

variable {s : State Id Agent} {m : Id}

theorem visit_spec (mypos : Point) (hinv : Inv kind s) {k : Id} {v : Bool}
    (hget : s.getView .monster m k = some v) {other : Obj Id Agent} (hobj : s.OBJ k = some other)
    (lists : MonsterLists Id Agent)
    : ∃ lists' s', visit m mypos k lists s = .ok lists' s'
        ∧ Inv kind s'
        ∧ (SetsPair kind s s' m k (zone .monster mypos other) ∧ zone .monster mypos other ≠ some v
          ∨ s' = s ∧ zone .monster mypos other = some v)
        ∧ lists'.enterlist
          = (if v = false ∧ near mypos other = true then
              lists.enterlist ++ [other]
            else
              lists.enterlist)
        ∧ lists'.leavelist
          = (if v = true ∧ near mypos other = false then
              lists.leavelist ++ [other.brief]
            else
              lists.leavelist)
        ∧ lists'.movelist
          = (if v = true ∧ near mypos other = true then
              lists.movelist ++ [other.agent]
            else
              lists.movelist) := by
  have hm := hinv.monster_of_getView hget
  have hk := hinv.watcher m k v hget
  have hlivek : (s.OBJ k).isSome = true := by
    rw [hobj]
    rfl
  have hlivem : (s.OBJ m).isSome = true := by
    apply hinv.live
    exact State.hasView_of_getView hget
  have hne : m ≠ k := by
    rintro rfl
    rw [hm] at hk
    simp at hk
  have hset : ∀ (lists : MonsterLists Id Agent) (x : Option Bool),
      ∃ s', setBoth .monster .player m k x lists s = .ok lists s'
        ∧ Inv kind s'
        ∧ SetsPair kind s s' m k x := by
    intro lists x
    have hviewm : s.hasView (kind m) m = true := by
      rw [hm]
      exact State.hasView_of_getView hget
    have hviewk : s.hasView (kind k) k = true := by
      rw [hk, hinv.player_view k hk]
      exact hlivek
    obtain ⟨s', hset, hsets⟩ := setBoth_spec hviewm hviewk lists x
    rw [hm, hk] at hset
    exact ⟨s', hset, hinv.setsPair hsets hne hlivem hlivek (Or.inr hk), hsets⟩
  unfold visit
  rw [hget]
  dsimp only
  rw [hobj]
  dsimp only
  by_cases hnear : Point.dist2 mypos other.pos ≤ aoiRadis2
  . have hnear' : near mypos other = true := by simpa [near] using hnear
    rw [if_pos hnear, zone_of_near hnear']
    cases v with
    | true => exact ⟨_, s, rfl, hinv, Or.inr ⟨rfl, rfl⟩, by simp, by simp [hnear'], by simp [hnear']⟩
    | false =>
      obtain ⟨s', hset', hinv', hsets⟩ := hset
        { lists with enterlist := lists.enterlist ++ [other] } (some true)
      exact ⟨_, s', hset', hinv', Or.inl ⟨hsets, by simp⟩, by simp [hnear'], by simp, by simp⟩
  . have hnear' : near mypos other = false := by simpa [near] using hnear
    have hdist : aoiRadis2 < Point.dist2 mypos other.pos := lt_of_not_ge hnear
    rw [if_neg hnear]
    by_cases hleave : Point.dist2 mypos other.pos ≤ leaveAoiRadis2
    . have hzone : zone .monster mypos other = some false := by simp [zone, hnear', hleave]
      rw [if_pos ⟨hdist, hleave⟩, hzone]
      cases v with
      | true =>
        obtain ⟨s', hset', hinv', hsets⟩ := hset
          { lists with leavelist := lists.leavelist ++ [other.brief] } (some false)
        exact ⟨_, s', hset', hinv', Or.inl ⟨hsets, by simp⟩, by simp, by simp [hnear'],
          by simp [hnear']⟩
      | false => exact ⟨lists, s, rfl, hinv, Or.inr ⟨rfl, rfl⟩, by simp [hnear'], by simp, by simp⟩
    . have hzone : zone .monster mypos other = none := by simp [zone, hnear', hleave]
      rw [if_neg (by simp [hleave]), hzone]
      obtain ⟨s', hset', hinv', hsets⟩ := hset
        (if v then { lists with leavelist := lists.leavelist ++ [other.brief] } else lists) none
      refine ⟨_, s', hset', hinv', Or.inl ⟨hsets, by simp⟩, ?_, ?_, ?_⟩
      . cases v with
        | true => simp
        | false => simp [hnear']
      . cases v with
        | true => simp [hnear']
        | false => simp
      . cases v with
        | true => simp [hnear']
        | false => simp

theorem walk_cons {mypos : Point} {k : Id} {ks : List Id} {s s1 s' : State Id Agent}
    {lists lists1 lists' : MonsterLists Id Agent} {v : Bool} {other : Obj Id Agent}
    (hinv : Inv kind s)
    (hget : s.getView .monster m k = some v) (hobj : s.OBJ k = some other) (hnotin : k ∉ ks)
    (hsets : SetsPair kind s s1 m k (zone .monster mypos other) ∧ zone .monster mypos other ≠ some v
      ∨ s1 = s ∧ zone .monster mypos other = some v)
    (henter : lists1.enterlist
      = if v = false ∧ near mypos other = true then lists.enterlist ++ [other]
        else lists.enterlist)
    (hleave : lists1.leavelist
      = if v = true ∧ near mypos other = false then lists.leavelist ++ [other.brief]
        else lists.leavelist)
    (hmove : lists1.movelist
      = if v = true ∧ near mypos other = true then lists.movelist ++ [other.agent]
        else lists.movelist)
    (hw : MonsterWalk s1 m mypos ks lists1 lists' s')
    : MonsterWalk s m mypos (k :: ks) lists lists' s' := by
  have hm := hinv.monster_of_getView hget
  have hk := hinv.watcher m k v hget
  have hrest : State.SameRest s s1 := by
    rcases hsets with ⟨hsets, -⟩ | ⟨rfl, -⟩
    . exact hsets.rest
    . exact State.SameRest.refl s1
  have hother : ∀ j ∈ ks, s1.getView .monster m j = s.getView .monster m j := by
    intro j hj
    rcases hsets with ⟨hsets, -⟩ | ⟨rfl, -⟩
    . rw [hsets.get, if_neg]
      rintro ⟨-, ⟨-, rfl⟩ | ⟨rfl, rfl⟩⟩
      . exact hnotin hj
      . rw [hm] at hk
        simp at hk
    . rfl
  have hzone : ∀ j, s1.zone .monster mypos j = s.zone .monster mypos j := by
    intro j
    unfold State.zone
    rw [hrest.obj]
  have hzonek : s.zone .monster mypos k = zone .monster mypos other := by
    unfold State.zone
    rw [hobj]
  have hpick : ∀ old new, ks.filterMap (s1.pick .monster m mypos old new)
      = ks.filterMap (s.pick .monster m mypos old new) := by
    intro old new
    apply List.filterMap_congr
    intro j hj
    unfold State.pick
    rw [hother j hj, hrest.obj]
  refine ⟨hrest.trans hw.rest, ?_, ?_, ?_, ?_, ?_⟩
  . intro type c
    rw [hw.hasView]
    rcases hsets with ⟨hsets, -⟩ | ⟨rfl, -⟩
    . rw [hsets.hasView]
    . rfl
  . intro type c d
    rw [hw.get]
    clear hw henter hleave hmove
    rcases hsets with ⟨hsets, hdiff⟩ | ⟨rfl, hsame⟩
    . have := hsets.get
      cases type with
      | player => grind
      | monster => grind
    . cases type with
      | player => grind
      | monster => grind
  . rw [hw.enter, hpick, henter, List.filterMap_cons, State.pick_of_get hget hobj]
    split
    . simp
    . rfl
  . rw [hw.leave, hpick, hleave, List.filterMap_cons, State.pick_of_get hget hobj]
    split
    . simp
    . rfl
  . rw [hw.move, hpick, hmove, List.filterMap_cons, State.pick_of_get hget hobj]
    split
    . simp
    . rfl

-- The walk goes on until it comes to someone who has left, and raises there.
theorem walk_spec (mypos : Point) (ks : List Id) (s : State Id Agent) (lists : MonsterLists Id Agent)
    (hinv : Inv kind s) (hnodup : ks.Nodup) (hks : ∀ k ∈ ks, ∃ v, s.getView .monster m k = some v)
    : ∃ done lists' s', Inv kind s'
        ∧ MonsterWalk s m mypos done lists lists' s'
        ∧ (done = ks
            ∧ (∀ k ∈ ks, (s.OBJ k).isSome = true)
            ∧ forPairs (visit m mypos) ks lists s = .ok lists' s'
          ∨ (∃ k ∈ ks, s.OBJ k = none)
            ∧ (∀ k ∈ done, k ∈ ks ∧ (s.OBJ k).isSome = true)
            ∧ forPairs (visit m mypos) ks lists s = .error .index s') := by
  induction ks generalizing s lists with
  | nil =>
    refine ⟨[], lists, s, hinv, .nil s m mypos lists, Or.inl ⟨rfl, by simp, rfl⟩⟩
  | cons k ks ih =>
    obtain ⟨v, hget⟩ := hks k (by simp)
    rw [List.nodup_cons] at hnodup
    cases hobj : s.OBJ k with
    | none =>
      refine ⟨[], lists, s, hinv, .nil s m mypos lists, Or.inr ⟨⟨k, by simp, hobj⟩, by simp, ?_⟩⟩
      rw [forPairs, visit, hget]
      dsimp only
      rw [hobj]
    | some other =>
      obtain ⟨lists1, s1, hvisit, hinv1, hsets, henter, hleave, hmove⟩ :=
        visit_spec mypos hinv hget hobj lists
      have hobj1 : s1.OBJ = s.OBJ := by
        rcases hsets with ⟨hsets, -⟩ | ⟨rfl, -⟩
        . exact hsets.rest.obj
        . rfl
      have hks1 : ∀ j ∈ ks, ∃ v, s1.getView .monster m j = some v := by
        intro j hj
        obtain ⟨vj, hj'⟩ := hks j (by simp [hj])
        rcases hsets with ⟨hsets, -⟩ | ⟨rfl, -⟩
        . refine ⟨vj, ?_⟩
          rw [hsets.get, if_neg, hj']
          rintro ⟨-, ⟨-, rfl⟩ | ⟨rfl, -⟩⟩
          . exact hnodup.1 hj
          . have hm := hinv.monster_of_getView hget
            have hk := hinv.watcher m m v hget
            rw [hm] at hk
            simp at hk
        . exact ⟨vj, hj'⟩
      obtain ⟨done, lists', s', hinv', hw, hcase⟩ := ih s1 lists1 hinv1 hnodup.2 hks1
      rw [hobj1] at hcase
      have hnotin : k ∉ done := by
        intro hk
        apply hnodup.1
        rcases hcase with ⟨rfl, -⟩ | ⟨-, hdone, -⟩
        . exact hk
        . exact (hdone k hk).1
      refine ⟨k :: done, lists', s', hinv',
        walk_cons hinv hget hobj hnotin hsets henter hleave hmove hw, ?_⟩
      rw [forPairs, hvisit]
      dsimp only
      rcases hcase with ⟨rfl, hall, hwalk⟩ | ⟨⟨j, hj, hnone⟩, hdone, hwalk⟩
      . left
        refine ⟨rfl, ?_, hwalk⟩
        intro j hj
        rw [List.mem_cons] at hj
        rcases hj with rfl | hj
        . rw [hobj]
          rfl
        . exact hall j hj
      . right
        refine ⟨⟨j, by simp [hj], hnone⟩, ?_, hwalk⟩
        intro i hi
        rw [List.mem_cons] at hi
        rcases hi with rfl | hi
        . refine ⟨by simp, ?_⟩
          rw [hobj]
          rfl
        . refine ⟨?_, (hdone i hi).2⟩
          simp [(hdone i hi).1]

end updateviewmonster

end Aoi
