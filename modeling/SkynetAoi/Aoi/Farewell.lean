import SkynetAoi.Aoi.Symmetry

/-!
This module contains whom `leave` tells and what it leaves behind. The branch for the monsters in the
view of a player is never taken, as `enter` makes a table in `playerview` for a monster too.
-/

namespace Aoi

variable {Id Agent : Type} [DecidableEq Id] {kind : Id → CharType}

/--
`obj` is in no view any more, everyone who had it in sight is told once, and nothing else happens.
-/
structure Clears (s : State Id Agent) (obj : Obj Id Agent) (s' : State Id Agent) : Prop where
  gone : ∀ (type : CharType) (c : Id), s'.getView type c obj.tempid = none
  others : ∀ (type : CharType) (c d : Id), c ≠ obj.tempid → d ≠ obj.tempid →
    s'.getView type c d = s.getView type c d
  told : ∃ (players monsters : List Id) (msgs : List (Dest Agent × Msg Id Agent)),
    players.Nodup
      ∧ (∀ k, k ∈ players ↔ s.getView .player k obj.tempid = some true)
      ∧ List.Forall₂
        (fun k msg => ∃ o, s.OBJ k = some o
          ∧ msg = (.agent o.agent, .delaoiobj obj.tempid .leave))
        players msgs
      ∧ monsters.Nodup
      ∧ (∀ k, k ∈ monsters ↔ s.getView .monster k obj.tempid = some true)
      ∧ s'.sent = s.sent ++ msgs
        ++ if monsters = [] then [] else [(.mapagent, .updateaoiinfoLeave obj.tempid monsters)]

theorem State.forall₂_farewell {s : State Id Agent} {x : Id} {ks : List Id}
    (hlive : ∀ k ∈ ks, s.getView .player k x = some true → (s.OBJ k).isSome = true)
    : List.Forall₂
        (fun k msg => ∃ o, s.OBJ k = some o ∧ msg = (.agent o.agent, .delaoiobj x .leave))
        (ks.filter (s.getView .player · x = some true)) (ks.filterMap (s.farewell x)) := by
  induction ks with
  | nil => exact .nil
  | cons k ks ih =>
    have ih := ih (by
      intro j hj
      exact hlive j (by simp [hj]))
    by_cases htrue : s.getView .player k x = some true
    . obtain ⟨o, ho⟩ := Option.isSome_iff_exists.mp (hlive k (by simp) htrue)
      have hk : s.farewell x k = some (.agent o.agent, .delaoiobj x .leave) := by
        rw [State.farewell, if_pos htrue, ho]
        rfl
      rw [List.filter_cons_of_pos (by simp [htrue]), List.filterMap_cons_some hk]
      exact .cons ⟨o, ho, rfl⟩ ih
    . have hk : s.farewell x k = none := by
        rw [State.farewell, if_neg htrue]
      rw [List.filter_cons_of_neg (by simp [htrue]), List.filterMap_cons_none hk]
      exact ih

theorem Left.gone_player {s s' : State Id Agent} (hinv : Inv kind s) {obj : Obj Id Agent}
    (hwf : obj.WF kind) (hleft : Left s obj s') (c : Id)
    : s'.getView .player c obj.tempid = none := by
  rw [hleft.get]
  split
  . rfl
  . split
    . rfl
    . next hvisited =>
      cases hget : s.getView .player c obj.tempid with
      | none => rfl
      | some v =>
        exfalso
        apply hvisited
        have hmirror := (hinv.mirror c obj.tempid v hget).2.2
        rw [← hwf.type] at hmirror
        rw [hmirror]
        exact ⟨rfl, rfl, rfl⟩

theorem Left.get_monster {s s' : State Id Agent} (hinv : Inv kind s) {obj : Obj Id Agent}
    (hwf : obj.WF kind) (hleft : Left s obj s') (m : Id)
    : s'.getView .monster m obj.tempid = s.getView .monster m obj.tempid := by
  rw [hleft.get]
  split
  . next hself =>
    cases hget : s.getView .monster m obj.tempid with
    | none => rfl
    | some v =>
      have hplayer := hinv.watcher m obj.tempid v hget
      rw [← hwf.type, ← hself.1] at hplayer
      simp at hplayer
  . rw [if_neg (by simp)]

theorem leave_clears_iff {s : State Id Agent} (hinv : Inv kind s) (order : PairsOrder Id)
    {obj : Obj Id Agent} (hwf : obj.WF kind)
    : (∃ s', leave order obj s = .ok () s' ∧ Clears s obj s')
        ↔
      ∀ m, s.getView .monster m obj.tempid = none := by
  obtain ⟨s', hleave, hinv', hleft⟩ := leave_spec hinv order hwf
  constructor
  . rintro ⟨s'', hleave', hclears⟩ m
    rw [hleave, EStateM.Result.ok.injEq] at hleave'
    rw [← hleft.get_monster hinv hwf, hleave'.2]
    exact hclears.gone .monster m
  . intro hunseen
    refine ⟨s', hleave, ?_, ?_, ?_⟩
    . intro type c
      cases type with
      | player => exact hleft.gone_player hinv hwf c
      | monster =>
        rw [hleft.get_monster hinv hwf]
        exact hunseen c
    . intro type c d hc hd
      rw [hleft.get, if_neg (by simp [hc]), if_neg (by simp [hd])]
    . obtain ⟨ks, hnodup, -, hks, hsent⟩ := hleft.sent
      have hlive : ∀ k, s.getView .player k obj.tempid = some true → (s.OBJ k).isSome = true := by
        intro k hget
        rw [← hinv.player_view k (hinv.player_of_getView hget)]
        exact State.hasView_of_getView hget
      refine ⟨ks.filter (s.getView .player · obj.tempid = some true), [], _, hnodup.filter _, ?_,
        State.forall₂_farewell (fun k _ => hlive k), List.nodup_nil, ?_, ?_⟩
      . intro k
        rw [List.mem_filter, decide_eq_true_iff, and_iff_right_iff_imp]
        intro hget
        have hmirror := (hinv.mirror k obj.tempid true hget).2.2
        rw [← hwf.type] at hmirror
        rw [hks, hmirror]
        rfl
      . intro k
        simp [hunseen k]
      . rw [hsent, if_pos rfl, List.append_nil]

theorem leave_clears_iff_unseen (kind : Id → CharType) (actions : List (Action Id Agent))
    (hwf : ∀ action ∈ actions, action.WF kind) (order : PairsOrder Id) (obj : Obj Id Agent)
    (hobj : obj.WF kind)
    : (∃ s', leave order obj (after actions) = .ok () s' ∧ Clears (after actions) obj s')
        ↔
      ∀ m, (after actions).getView .monster m obj.tempid = none :=
  leave_clears_iff (after_inv hwf) order hobj

theorem leave_clears_iff_unseen_meets
    : (∀ action ∈ meets, action.WF sampleKind)
        ∧ ((∃ s', leave (.inserted Nat) (sampleObj 2 0) (after meets) = .ok () s'
            ∧ Clears (after meets) (sampleObj 2 0) s')
          ↔
        ∀ m, (after meets).getView .monster m 2 = none) :=
  ⟨meets_wf, leave_clears_iff_unseen sampleKind meets meets_wf (.inserted Nat) (sampleObj 2 0)
    ⟨rfl, rfl⟩⟩

theorem meets_not_clears
    : ((after meets).OBJ 1).isSome = true
        ∧ ¬∃ s', leave (.inserted Nat) (sampleObj 1 0) (after meets) = .ok () s'
          ∧ Clears (after meets) (sampleObj 1 0) s' := by
  refine ⟨by decide +kernel, ?_⟩
  rw [leave_clears_iff (after_inv meets_wf) (.inserted Nat) ⟨rfl, rfl⟩]
  intro h
  have hseen : (after meets).getView .monster 2 1 = some true := by decide +kernel
  have := h 2
  simp only [sampleObj] at this
  rw [hseen] at this
  simp at this

end Aoi
