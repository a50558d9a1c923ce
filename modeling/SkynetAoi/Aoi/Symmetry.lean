import SkynetAoi.Aoi.Lemmas.Handle

/-!
This module contains the runs of the map service and when the views of two objects say the same about
each other. A player that has left and comes back while a monster still has it in its view is the
only way to break this.
-/

namespace Aoi

variable {Id Agent : Type} [DecidableEq Id] {kind : Id → CharType}

/--
A player that is there has every monster in its view that has the player in its own.
-/
def Seen (s : State Id Agent) : Prop :=
  ∀ (m p : Id) (v : Bool), (s.OBJ p).isSome = true → s.getView .monster m p = some v →
    s.getView .player p m = some v

theorem Seen.playerMoved {s s' : State Id Agent} (h : Seen s) (hinv : Inv kind s) {p : Id}
    {myobj : Obj Id Agent} (hp : kind p = .player) (hmoved : PlayerMoved kind s p myobj s')
    : Seen s' := by
  intro m q v hq hget
  rw [hmoved.obj] at hq
  rw [hmoved.get] at hget ⊢
  have hpm : kind m = .monster → m ≠ p := by
    rintro hm rfl
    rw [hp] at hm
    simp at hm
  split at hget
  . next hcond =>
    exact absurd hcond.2.1 (hpm hcond.1.symm)
  . split at hget
    . next hcond =>
      rw [if_pos]
      . exact hget
      . rw [hcond.2.1, hp]
        exact ⟨rfl, rfl, hcond.2.2⟩
    . next hother =>
      have hm := hinv.monster_of_getView hget
      have hseen := h m q v hq hget
      rw [if_neg, if_neg]
      . exact hseen
      . rintro ⟨-, heq, -⟩
        exact hpm hm heq
      . rintro ⟨-, rfl, hknown⟩
        apply hother
        rw [hm]
        exact ⟨rfl, rfl, hknown⟩

theorem Seen.monsterMoved {s s' : State Id Agent} (h : Seen s) {m : Id} {myobj : Obj Id Agent}
    {done : List Id} (hmoved : MonsterMoved s m myobj done s') : Seen s' := by
  intro m' p v hp hget
  rw [hmoved.obj] at hp
  rw [hmoved.get] at hget ⊢
  simp only [reduceCtorEq, false_and, ↓reduceIte] at hget ⊢
  split at hget
  . next hcond =>
    obtain ⟨-, rfl, hmem⟩ := hcond
    by_cases hsame : s.getView .monster m' p = s.zone .monster myobj.pos p
    . rw [if_neg (by simp [hsame])]
      apply h m' p v hp
      rw [hsame, hget]
    . rw [if_pos (by simp [hmem, hsame])]
      exact hget
  . next hcond =>
    rw [if_neg]
    . exact h m' p v hp hget
    . rintro ⟨-, rfl, hmem, -⟩
      apply hcond
      simp [hmem]

theorem Seen.store {s : State Id Agent} (h : Seen s) {obj : Obj Id Agent}
    (hold : (s.OBJ obj.tempid).isSome = true) : Seen (s.store obj) := by
  intro m p v hp hget
  apply h m p v _ hget
  rw [State.store_obj] at hp
  split at hp
  . next heq =>
    rw [heq]
    exact hold
  . exact hp

theorem Seen.left {s s' : State Id Agent} (h : Seen s) (hinv : Inv kind s) {obj : Obj Id Agent}
    (hwf : obj.WF kind) (hleft : Left s obj s') : Seen s' := by
  intro m p v hp hget
  rw [hleft.OBJ] at hp
  rw [hleft.get] at hget ⊢
  split at hp
  . simp at hp
  . next hne =>
    split at hget
    . simp at hget
    . next hself =>
      simp only [reduceCtorEq, false_and, ↓reduceIte] at hget
      rw [if_neg (by simp [hne]), if_neg]
      . exact h m p v hp hget
      . rintro ⟨-, rfl, -⟩
        apply hself
        rw [hwf.type, hinv.monster_of_getView hget]
        exact ⟨rfl, rfl⟩

theorem Seen.sighted {s s' : State Id Agent} (h : Seen s) (hinv : Inv kind s) {w m : Id}
    {ow om : Obj Id Agent} (hw : kind w = .player) (hs : Sighted kind s w m ow om s') : Seen s' := by
  intro a p v hp hget
  rw [hs.OBJ] at hp
  rw [hs.get] at hget ⊢
  split at hget
  . next hpair =>
    rcases hpair with ⟨hkind, ⟨rfl, rfl⟩ | ⟨rfl, rfl⟩⟩
    . rw [hw] at hkind
      simp at hkind
    . rw [if_pos]
      . exact hget
      . rw [hw]
        exact ⟨rfl, Or.inl ⟨rfl, rfl⟩⟩
  . next hpair =>
    have hseen := h a p v hp hget
    have ha := hinv.monster_of_getView hget
    rw [if_neg]
    . exact hseen
    . rintro ⟨-, ⟨rfl, rfl⟩ | ⟨rfl, rfl⟩⟩
      . apply hpair
        rw [ha]
        exact ⟨rfl, Or.inr ⟨rfl, rfl⟩⟩
      . rw [hw] at ha
        simp at ha

/--
A player that comes to the map is in the view of no monster.
-/
def ComesUnseen (s : State Id Agent) (action : Action Id Agent) : Prop :=
  match action with
  | .enter _ obj =>
    obj.type = .player → s.OBJ obj.tempid = none → ∀ m, s.getView .monster m obj.tempid = none
  | _ => True

theorem Seen.handle {s : State Id Agent} (h : Seen s) (hinv : Inv kind s) {action : Action Id Agent}
    (hwf : action.WF kind) (hunseen : ComesUnseen s action) : Seen (outcome (handle action s)) := by
  have hresult := (handle_spec hinv hwf).2
  generalize Aoi.handle action s = result at hresult
  cases hresult with
  | enter order obj _ hresult =>
    cases hresult with
    | fresh s' hnew hobj hget htexts hneed hsent =>
      intro m p v hp hv
      simp only [outcome] at hp hv ⊢
      rw [hget] at hv ⊢
      rw [hobj, State.store_obj] at hp
      split at hp
      . next heq =>
        have hp := hinv.watcher m p v hv
        rw [heq] at hp hv
        rw [hunseen (by rw [hwf.type, hp]) hnew] at hv
        simp at hv
      . exact h m p v hp hv
    | player s1 hold htype hmoved =>
      apply Seen.playerMoved (h.store hold) (hinv.store hwf hold) _ hmoved
      rw [← hwf.type, htype]
    | unseen hold htype hview => exact h.store hold
    | monster s1 done hold htype hdone hlive hmoved htells =>
      have hseen : Seen s1 := (h.store hold).monsterMoved hmoved
      exact hseen
    | raised s1 done hold htype hlost hdone hmoved hsent =>
      exact (h.store hold).monsterMoved hmoved
  | leave order obj s' hleft => exact h.left hinv hwf hleft
  | aoicallback w m s' hresult =>
    cases hresult with
    | ignored _ => exact h
    | sighted _ ow om how hom hs => exact h.sighted hinv hwf.1 hs
  | messageUpdate =>
    unfold messageUpdate outcome
    dsimp only
    split
    . exact h
    . exact h

def State.view (s : State Id Agent) (a k : Id) : Option Bool :=
  match s.OBJ a with
  | some o => s.getView o.type a k
  | none => none

def Symmetric (s : State Id Agent) : Prop :=
  ∀ (a b : Id), (s.OBJ a).isSome = true → (s.OBJ b).isSome = true → s.view a b = s.view b a

theorem Inv.view_eq {s : State Id Agent} (h : Inv kind s) {a : Id} (ha : (s.OBJ a).isSome = true)
    (k : Id) : s.view a k = s.getView (kind a) a k := by
  obtain ⟨o, ho⟩ := Option.isSome_iff_exists.mp ha
  unfold State.view
  rw [ho]
  dsimp only
  rw [(h.obj a o ho).2.1]

theorem symmetric_iff_seen {s : State Id Agent} (hinv : Inv kind s) : Symmetric s ↔ Seen s := by
  constructor
  . intro h m p v hp hget
    have hm := hinv.monster_of_getView hget
    have hk := hinv.watcher m p v hget
    have hlive := hinv.live m (State.hasView_of_getView hget)
    have := h p m hp hlive
    rw [hinv.view_eq hp, hinv.view_eq hlive, hm, hk, hget] at this
    exact this
  . intro h
    have hdir : ∀ a b v, (s.OBJ a).isSome = true → (s.OBJ b).isSome = true →
        s.view a b = some v → s.view b a = some v := by
      intro a b v ha hb hview
      rw [hinv.view_eq ha] at hview
      rw [hinv.view_eq hb]
      cases hkind : kind a with
      | player =>
        rw [hkind] at hview
        exact (hinv.mirror a b v hview).2.2
      | monster =>
        rw [hkind] at hview
        rw [hinv.watcher a b v hview]
        exact h a b v hb hview
    intro a b ha hb
    cases hab : s.view a b with
    | some v => rw [hdir a b v ha hb hab]
    | none =>
      cases hba : s.view b a with
      | none => rfl
      | some v =>
        rw [hdir b a v hb ha hba] at hab
        simp at hab

theorem seen_init : Seen (.init : State Id Agent) := by
  intro m p v hp
  simp [State.init] at hp

theorem comesUnseen_of_seen {s : State Id Agent} (hinv : Inv kind s) {action : Action Id Agent}
    (hwf : action.WF kind) (hseen : Seen (outcome (handle action s))) : ComesUnseen s action := by
  cases action with
  | enter order obj =>
    intro htype hnew m
    have hobj : obj.WF kind := hwf
    have hresult := (enter_spec hinv order hobj).2
    unfold handle at hseen
    dsimp only at hseen
    generalize enter order obj s = result at hresult hseen
    have hempty : ∀ k, s.getView .player obj.tempid k = none := by
      apply State.getView_eq_none
      rw [hinv.player_view _ (by rw [← hobj.type, htype]), hnew]
      rfl
    cases hresult with
    | fresh s' _ hstore hget _ _ _ =>
      cases hm : s.getView .monster m obj.tempid with
      | none => rfl
      | some v =>
        have := hseen m obj.tempid v (by simp [outcome, hstore, State.store_obj])
          (by
            simp only [outcome]
            rw [hget, hm])
        simp only [outcome] at this
        rw [hget, hempty] at this
        simp at this
    | player s1 hold _ _ =>
      rw [hnew] at hold
      simp at hold
    | unseen hold _ _ =>
      rw [hnew] at hold
      simp at hold
    | monster s1 done hold _ _ _ _ _ =>
      rw [hnew] at hold
      simp at hold
    | raised s1 done hold _ _ _ _ _ =>
      rw [hnew] at hold
      simp at hold
  | leave order obj => trivial
  | aoicallback w m => trivial
  | messageUpdate => trivial

theorem symmetric_iff_comesUnseen (kind : Id → CharType) (actions : List (Action Id Agent))
    (hwf : ∀ action ∈ actions, action.WF kind)
    : (∀ past, past <+: actions → Symmetric (after past))
        ↔
      Throughout (fun past action => ComesUnseen (after past) action) actions := by
  have hinv : ∀ past, past <+: actions → Inv kind (after past) :=
    fun past hpre => after_inv fun a ha => hwf a (hpre.subset ha)
  have hseen : (∀ past, past <+: actions → Symmetric (after past))
      ↔ ∀ past, past <+: actions → Seen (after past) := by
    apply forall₂_congr
    intro past hpre
    exact symmetric_iff_seen (hinv past hpre)
  rw [hseen]
  unfold after at hinv ⊢
  apply Throughout.foldl_iff seen_init _ hinv hwf
  intro s action hinv h hwf
  constructor
  . exact comesUnseen_of_seen hinv hwf
  . exact h.handle hinv hwf

def sampleKind (id : Nat) : CharType :=
  if id = 2 then .monster else .player

def sampleObj (id : Nat) (x : ℚ) : Obj Nat Nat where
  tempid := id
  agent := id
  type := sampleKind id
  mode := modeOf (sampleKind id)
  pos := ⟨x, 0, 0⟩

def sampleEnter (id : Nat) (x : ℚ) : Action Nat Nat :=
  .enter (PairsOrder.inserted Nat) (sampleObj id x)

def sampleLeave (id : Nat) (x : ℚ) : Action Nat Nat :=
  .leave (PairsOrder.inserted Nat) (sampleObj id x)

def comesBack : List (Action Nat Nat) :=
  [sampleEnter 1 0, sampleEnter 2 0, .aoicallback 1 2, sampleLeave 1 0, sampleEnter 1 0]

theorem sampleEnter_wf (id : Nat) (x : ℚ) : (sampleEnter id x).WF sampleKind :=
  ⟨rfl, rfl⟩

theorem sampleLeave_wf (id : Nat) (x : ℚ) : (sampleLeave id x).WF sampleKind :=
  ⟨rfl, rfl⟩

theorem comesBack_wf : ∀ action ∈ comesBack, action.WF sampleKind := by
  intro action h
  simp only [comesBack, List.mem_cons, List.not_mem_nil, or_false] at h
  rcases h with rfl | rfl | rfl | rfl | rfl
  . apply sampleEnter_wf
  . apply sampleEnter_wf
  . exact ⟨rfl, by decide⟩
  . apply sampleLeave_wf
  . apply sampleEnter_wf

def meets : List (Action Nat Nat) :=
  [sampleEnter 1 0, sampleEnter 2 0, .aoicallback 1 2]

theorem meets_wf : ∀ action ∈ meets, action.WF sampleKind := by
  intro action h
  apply comesBack_wf
  simp only [meets, comesBack, List.mem_cons, List.not_mem_nil, or_false] at h ⊢
  tauto

theorem symmetric_iff_comesUnseen_comesBack
    : (∀ action ∈ comesBack, action.WF sampleKind)
        ∧ ((∀ past, past <+: comesBack → Symmetric (after past))
          ↔
        Throughout (fun past action => ComesUnseen (after past) action) comesBack) :=
  ⟨comesBack_wf, symmetric_iff_comesUnseen sampleKind comesBack comesBack_wf⟩

theorem comesBack_not_symmetric
    : ¬∀ (actions : List (Action Nat Nat)), (∀ action ∈ actions, action.WF sampleKind) →
        ∀ past, past <+: actions → Symmetric (after past) := by
  intro h
  have hsym := h comesBack comesBack_wf comesBack (List.prefix_refl comesBack)
  have hobj : ((after comesBack).OBJ 1).isSome = true ∧ ((after comesBack).OBJ 2).isSome = true := by
    decide +kernel
  have hviews : (after comesBack).view 1 2 = none ∧ (after comesBack).view 2 1 = some true := by
    decide +kernel
  have := hsym 1 2 hobj.1 hobj.2
  rw [hviews.1, hviews.2] at this
  simp at this

end Aoi
