import SkynetAoi.Aoi.Integrity

/-!
This module contains where the flags in the view of a player come from: from the distance as long as
nobody has moved since, or from an `aoicallback`.
-/

namespace Aoi

variable {Id Agent : Type}

theorem zone_player (mypos : Point) (other : Obj Id Agent)
    : zone .player mypos other = some (near mypos other) := by
  unfold zone
  cases near mypos other with
  | true => rfl
  | false => rfl

theorem eq_near_of_zone {type : CharType} {mypos : Point} {other : Obj Id Agent} {v : Bool}
    (h : zone type mypos other = some v) : v = near mypos other := by
  cases v with
  | true => exact (near_of_zone h).symm
  | false =>
    cases hnear : near mypos other with
    | false => rfl
    | true =>
      rw [zone_of_near hnear] at h
      simp at h

theorem far_of_zone {type : CharType} {mypos : Point} {other : Obj Id Agent}
    (h : zone type mypos other = none) : leaveAoiRadis2 < Point.dist2 mypos other.pos := by
  unfold zone at h
  split at h
  . simp at h
  . cases type with
    | player => simp at h
    | monster =>
      dsimp only at h
      split at h
      . simp at h
      . next hfar => exact lt_of_not_ge hfar

theorem near_comm (a b : Obj Id Agent) : near a.pos b = near b.pos a := by
  unfold near
  rw [Point.dist2_comm]

theorem State.zone_eq {s : State Id Agent} {k : Id} {other : Obj Id Agent} (h : s.OBJ k = some other)
    (type : CharType) (mypos : Point) : s.zone type mypos k = Aoi.zone type mypos other := by
  unfold State.zone
  rw [h]

variable [DecidableEq Id] {kind : Id → CharType}

inductive FlagFrom (s : State Id Agent) (action : Action Id Agent) (p k : Id) (op ok : Obj Id Agent)
    : Bool → Prop where
  | distance : FlagFrom s action p k op ok (near op.pos ok)
  | before (v : Bool) (hget : s.getView .player p k = some v) (hp : s.OBJ p = some op)
      (hk : s.OBJ k = some ok)
    : FlagFrom s action p k op ok v
  | callback (hpair : action = .aoicallback p k ∨ action = .aoicallback k p)
    : FlagFrom s action p k op ok true

namespace FlagFrom

variable {s s' : State Id Agent} {p k : Id} {op ok : Obj Id Agent} {v : Bool}

theorem fresh (hinv : Inv kind s) {obj : Obj Id Agent} (hnew : s.OBJ obj.tempid = none)
    (hobj : s'.OBJ = (s.store obj).OBJ)
    (hget : ∀ type c d, s'.getView type c d = s.getView type c d) {action : Action Id Agent}
    (hp : s'.OBJ p = some op) (hk : s'.OBJ k = some ok) (hv : s'.getView .player p k = some v)
    : FlagFrom s action p k op ok v := by
  rw [hget] at hv
  have hlivep : (s.OBJ p).isSome = true := by
    apply hinv.live_of_getView (k := k) (v := v)
    rw [hinv.player_of_getView hv]
    exact hv
  have hlivek := (hinv.mirror p k v hv).2.1
  rw [hobj, State.store_obj, if_neg] at hp hk
  . exact .before v hv hp hk
  . rintro rfl
    rw [hnew] at hlivek
    simp at hlivek
  . rintro rfl
    rw [hnew] at hlivep
    simp at hlivep

theorem playerMoved (hinv : Inv kind s) {obj : Obj Id Agent} (hwf : obj.WF kind)
    (htype : obj.type = .player) (hmoved : PlayerMoved kind (s.store obj) obj.tempid obj s')
    {action : Action Id Agent} (hp : s'.OBJ p = some op) (hk : s'.OBJ k = some ok)
    (hv : s'.getView .player p k = some v) : FlagFrom s action p k op ok v := by
  have hme : kind obj.tempid = .player := by rw [← hwf.type, htype]
  rw [hmoved.obj] at hp hk
  rw [hmoved.get] at hv
  split at hv
  . next hcond =>
    rw [hcond.2.1, State.store_obj, if_pos rfl, Option.some.injEq] at hp
    rw [State.zone_eq hk, zone_player, Option.some.injEq, hp] at hv
    rw [← hv]
    exact .distance
  . next hself =>
    split at hv
    . next hcond =>
      rw [hcond.2.1, State.store_obj, if_pos rfl, Option.some.injEq] at hk
      rw [State.zone_eq hp, zone_player, Option.some.injEq, hk, near_comm] at hv
      rw [← hv]
      exact .distance
    . next hother =>
      have hv' : s.getView .player p k = some v := hv
      have hplayer := hinv.player_of_getView hv'
      have hmirror := (hinv.mirror p k v hv').2.2
      rw [State.store_obj, if_neg] at hp hk
      . exact .before v hv' hp hk
      . rintro rfl
        apply hother
        rw [hme] at hmirror
        refine ⟨hplayer.symm, rfl, ?_⟩
        show (s.getView .player obj.tempid p).isSome = true
        rw [hmirror]
        rfl
      . rintro rfl
        apply hself
        rw [hv]
        exact ⟨hplayer.symm, rfl, rfl⟩

theorem monsterMoved (hinv : Inv kind s) {obj : Obj Id Agent} (hwf : obj.WF kind)
    (htype : obj.type = .monster) {done : List Id}
    (hdone : ∀ c, (s.getView .monster obj.tempid c).isSome = true → c ∈ done)
    (hmoved : MonsterMoved (s.store obj) obj.tempid obj done s') {action : Action Id Agent}
    (hp : s'.OBJ p = some op) (hk : s'.OBJ k = some ok) (hv : s'.getView .player p k = some v)
    : FlagFrom s action p k op ok v := by
  have hme : kind obj.tempid = .monster := by rw [← hwf.type, htype]
  rw [hmoved.obj] at hp hk
  have hzone : k = obj.tempid → (s.store obj).zone .monster obj.pos p = some v →
      FlagFrom s action p k op ok v := by
    intro heq hv
    rw [heq, State.store_obj, if_pos rfl, Option.some.injEq] at hk
    rw [State.zone_eq hp] at hv
    rw [eq_near_of_zone hv, hk, near_comm]
    exact .distance
  rw [hmoved.get, if_neg (by simp)] at hv
  split at hv
  . next hcond => exact hzone hcond.2.1 hv
  . next hsame =>
    have hv' : s.getView .player p k = some v := hv
    by_cases heq : k = obj.tempid
    . apply hzone heq
      have hmirror := (hinv.mirror p k v hv').2.2
      rw [heq, hme] at hmirror
      by_contra hne
      apply hsame
      refine ⟨rfl, heq, ?_, ?_⟩
      . apply hdone
        rw [hmirror]
        rfl
      . intro hflag
        apply hne
        rw [← hflag]
        exact hmirror
    . rw [State.store_obj, if_neg] at hp hk
      . exact .before v hv' hp hk
      . exact heq
      . rintro rfl
        rw [hinv.player_of_getView hv'] at hme
        simp at hme

theorem handle (hinv : Inv kind s) {action : Action Id Agent} (hwf : action.WF kind)
    (hraises : raises (handle action s) = false)
    (hp : (outcome (handle action s)).OBJ p = some op)
    (hk : (outcome (handle action s)).OBJ k = some ok)
    (hv : (outcome (handle action s)).getView .player p k = some v)
    : FlagFrom s action p k op ok v := by
  have hresult := (handle_spec hinv hwf).2
  generalize Aoi.handle action s = result at hresult hraises hp hk hv
  cases hresult with
  | enter order obj _ hresult =>
    cases hresult with
    | fresh s' hnew hobj hget htexts hneed hsent => exact fresh hinv hnew hobj hget hp hk hv
    | player s1 hold htype hmoved => exact playerMoved hinv hwf htype hmoved hp hk hv
    | unseen hold htype hview =>
      have hmoved : MonsterMoved (s.store obj) obj.tempid obj [] (s.store obj) := by
        refine ⟨rfl, rfl, rfl, fun _ _ => rfl, ?_⟩
        intro type c d
        simp
      apply monsterMoved hinv hwf htype _ hmoved hp hk hv
      intro c hc
      rw [State.getView_eq_none hview] at hc
      simp at hc
    | monster s1 done hold htype hdone hlive hmoved htells =>
      exact monsterMoved hinv hwf htype (fun c => (hdone c).mpr) hmoved hp hk hv
    | raised s1 done hold htype hlost hdone hmoved hsent => simp [raises] at hraises
  | leave order obj s' hleft =>
    simp only [outcome] at hp hk hv
    rw [hleft.OBJ] at hp hk
    split at hp
    . simp at hp
    . next hnep =>
      split at hk
      . simp at hk
      . next hnek =>
        rw [hleft.get, if_neg (by simp [hnep]), if_neg (by simp [hnek])] at hv
        exact .before v hv hp hk
  | aoicallback w m s' hresult =>
    simp only [outcome] at hp hk hv
    cases hresult with
    | ignored _ => exact .before v hv hp hk
    | sighted _ ow om how hom hs =>
      rw [hs.OBJ] at hp hk
      rw [hs.get] at hv
      split at hv
      . next hpair =>
        rw [Option.some.injEq] at hv
        rw [← hv]
        apply callback
        rcases hpair.2 with ⟨rfl, rfl⟩ | ⟨rfl, rfl⟩
        . exact Or.inl rfl
        . exact Or.inr rfl
      . exact .before v hv hp hk
  | messageUpdate =>
    simp only [outcome] at hp hk hv
    unfold messageUpdate at hp hk hv
    split at hp
    . next hneed =>
      rw [if_pos hneed] at hk hv
      exact .before v hv hp hk
    . next hneed =>
      rw [if_neg hneed] at hk hv
      exact .before v hv hp hk

end FlagFrom

theorem EnterResult.texts {s : State Id Agent} {obj : Obj Id Agent} {result : Result Id Agent Unit}
    (h : EnterResult kind s obj result) (hraises : raises result = false)
    : (outcome result).texts = s.texts ++ [.update obj.tempid obj.mode (scaled obj.pos)] := by
  rcases h.texts_cases with htexts | ⟨-, s', rfl⟩
  . exact htexts
  . simp [raises] at hraises

theorem EnterResult.known {s : State Id Agent} {obj : Obj Id Agent} {result : Result Id Agent Unit}
    (hinv : Inv kind s) (h : EnterResult kind s obj result) (hraises : raises result = false)
    {p k : Id} (hknown : (s.getView .player p k).isSome = true)
    : ((outcome result).getView .player p k).isSome = true
        ∨ (k = obj.tempid
          ∧ ∃ op, (outcome result).OBJ p = some op ∧ leaveAoiRadis2 < Point.dist2 obj.pos op.pos) := by
  obtain ⟨v, hv⟩ := Option.isSome_iff_exists.mp hknown
  have hkindp := hinv.player_of_getView hv
  have hstored : ∀ a, (s.OBJ a).isSome = true → ∃ o, (s.store obj).OBJ a = some o := by
    intro a ha
    rw [State.store_obj]
    split
    . exact ⟨obj, rfl⟩
    . exact Option.isSome_iff_exists.mp ha
  have hlivep : (s.OBJ p).isSome = true := by
    rw [← hkindp] at hv
    exact hinv.live_of_getView hv
  obtain ⟨op, hp⟩ := hstored p hlivep
  obtain ⟨ok, hk⟩ := hstored k (hinv.mirror p k v hv).2.1
  cases h with
  | fresh s' hnew hobj hget htexts hneed hsent =>
    left
    simp only [outcome]
    rw [hget]
    exact hknown
  | player s1 hold htype hmoved =>
    left
    have : (s1.getView .player p k).isSome = true := by
      rw [hmoved.get]
      split
      . rw [State.zone_eq hk, zone_player]
        rfl
      . split
        . rw [State.zone_eq hp, zone_player]
          rfl
        . exact hknown
    exact this
  | unseen hold htype hview => exact Or.inl hknown
  | monster s1 done hold htype hdone hlive hmoved htells =>
    have hget : (outcome (.ok () (s1.announce obj) : Result Id Agent Unit)).getView .player p k
        = s1.getView .player p k := rfl
    rw [hget, hmoved.get, if_neg (by simp)]
    split
    . next hcond =>
      rw [State.zone_eq hp]
      cases hzone : zone .monster obj.pos op with
      | some v => exact Or.inl rfl
      | none =>
        right
        refine ⟨hcond.2.1, op, ?_, far_of_zone hzone⟩
        have : s1.OBJ p = some op := by
          rw [hmoved.obj]
          exact hp
        exact this
    . exact Or.inl hknown
  | raised s1 done hold htype hlost hdone hmoved hsent => simp [raises] at hraises

end Aoi
