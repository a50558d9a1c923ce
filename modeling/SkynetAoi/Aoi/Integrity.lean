import SkynetAoi.Aoi.Symmetry

/-!
This module contains when everyone in a view is on the map, which is what keeps the handlers from
raising. A player that leaves while it has a monster in its view is the only way to break this, as
`leave` then looks for the player in the view of a player.
-/

namespace Aoi

variable {Id Agent : Type} [DecidableEq Id] {kind : Id → CharType}

def Integrity (s : State Id Agent) : Prop :=
  ∀ (a k : Id) (type : CharType), (s.OBJ a).isSome = true → (s.getView type a k).isSome = true →
    (s.OBJ k).isSome = true

def raises (result : Result Id Agent Unit) : Bool :=
  match result with
  | .ok _ _ => false
  | .error _ _ => true

def NoResidue (s : State Id Agent) : Prop :=
  ∀ (m p : Id) (v : Bool), s.getView .monster m p = some v → (s.OBJ p).isSome = true

theorem integrity_of_noResidue {s : State Id Agent} (hinv : Inv kind s) (h : NoResidue s)
    : Integrity s := by
  intro a k type _ hk
  obtain ⟨v, hv⟩ := Option.isSome_iff_exists.mp hk
  cases type with
  | player => exact (hinv.mirror a k v hv).2.1
  | monster => exact h a k v hv

/--
No monster is in the view of a player that leaves.
-/
def CleanLeave (s : State Id Agent) (action : Action Id Agent) : Prop :=
  match action with
  | .leave _ obj =>
    obj.type = .player → ∀ m o, s.OBJ m = some o → o.type = .monster →
      s.getView .player obj.tempid m = none
  | _ => True

namespace NoResidue

variable {s s' : State Id Agent}

theorem comesUnseen (h : NoResidue s) (action : Action Id Agent) : ComesUnseen s action := by
  cases action with
  | enter order obj =>
    intro _ hnew m
    cases hm : s.getView .monster m obj.tempid with
    | none => rfl
    | some v =>
      have := h m obj.tempid v hm
      rw [hnew] at this
      simp at this
  | leave order obj => trivial
  | aoicallback w m => trivial
  | messageUpdate => trivial

theorem not_raised (h : NoResidue s) {m : Id}
    : ¬∃ k, (s.getView .monster m k).isSome = true ∧ s.OBJ k = none := by
  rintro ⟨k, hk, hnone⟩
  obtain ⟨v, hv⟩ := Option.isSome_iff_exists.mp hk
  have := h m k v hv
  rw [hnone] at this
  simp at this

theorem store (h : NoResidue s) (obj : Obj Id Agent) : NoResidue (s.store obj) := by
  intro m p v hget
  rw [State.store_obj]
  split
  . rfl
  . exact h m p v hget

theorem playerMoved (h : NoResidue s) {p : Id} {myobj : Obj Id Agent} (hp : kind p = .player)
    (hlive : (s.OBJ p).isSome = true) (hmoved : PlayerMoved kind s p myobj s') : NoResidue s' := by
  intro m q v hget
  rw [hmoved.obj]
  rw [hmoved.get] at hget
  split at hget
  . next hcond =>
    rw [hcond.2.1, hp] at hcond
    simp at hcond
  . split at hget
    . next hcond =>
      rw [hcond.2.1]
      exact hlive
    . exact h m q v hget

theorem monsterMoved (h : NoResidue s) {m : Id} {myobj : Obj Id Agent} {done : List Id}
    (hdone : ∀ k ∈ done, (s.OBJ k).isSome = true) (hmoved : MonsterMoved s m myobj done s')
    : NoResidue s' := by
  intro m' p v hget
  rw [hmoved.obj]
  rw [hmoved.get] at hget
  simp only [reduceCtorEq, false_and, ↓reduceIte] at hget
  split at hget
  . next hcond => exact hdone p hcond.2.2
  . exact h m' p v hget

theorem left (h : NoResidue s) (hseen : Seen s) (hinv : Inv kind s) {order : PairsOrder Id}
    {obj : Obj Id Agent} (hwf : obj.WF kind) (hclean : CleanLeave s (.leave order obj))
    (hleft : Left s obj s') : NoResidue s' := by
  intro m p v hget
  rw [hleft.get] at hget
  split at hget
  . simp at hget
  . simp only [reduceCtorEq, false_and, ↓reduceIte] at hget
    have hlive := h m p v hget
    rw [hleft.OBJ, if_neg]
    . exact hlive
    . rintro rfl
      have htype : obj.type = .player := by
        rw [hwf.type]
        exact hinv.watcher m obj.tempid v hget
      have hm := hinv.monster_of_getView hget
      obtain ⟨o, ho⟩ := Option.isSome_iff_exists.mp (hinv.live m (State.hasView_of_getView hget))
      have hnone := hclean htype m o ho (by rw [(hinv.obj m o ho).2.1, hm])
      rw [hseen m obj.tempid v hlive hget] at hnone
      simp at hnone

theorem sighted (h : NoResidue s) {w m : Id} {ow om : Obj Id Agent} (how : s.OBJ w = some ow)
    (hom : s.OBJ m = some om) (hs : Sighted kind s w m ow om s') : NoResidue s' := by
  intro a p v hget
  rw [hs.OBJ]
  rw [hs.get] at hget
  split at hget
  . next hpair =>
    rcases hpair.2 with ⟨-, rfl⟩ | ⟨-, rfl⟩
    . rw [hom]
      rfl
    . rw [how]
      rfl
  . exact h a p v hget

theorem handle (h : NoResidue s) (hseen : Seen s) (hinv : Inv kind s) {action : Action Id Agent}
    (hwf : action.WF kind) (hclean : CleanLeave s action)
    : raises (handle action s) = false ∧ NoResidue (outcome (handle action s)) := by
  have hresult := (handle_spec hinv hwf).2
  generalize Aoi.handle action s = result at hresult
  cases hresult with
  | enter order obj _ hresult =>
    have h0 := h.store obj
    cases hresult with
    | fresh s' hnew hobj hget htexts hneed hsent =>
      refine ⟨rfl, ?_⟩
      intro m p v hv
      simp only [outcome] at hv ⊢
      rw [hget] at hv
      rw [hobj]
      exact h0 m p v hv
    | player s1 hold htype hmoved =>
      have : NoResidue s1 := by
        apply h0.playerMoved _ _ hmoved
        . rw [← hwf.type, htype]
        . rw [State.store_obj]
          simp
      exact ⟨rfl, this⟩
    | unseen hold htype hview => exact ⟨rfl, h0⟩
    | monster s1 done hold htype hdone hlive hmoved htells =>
      have : NoResidue s1 := h0.monsterMoved hlive hmoved
      exact ⟨rfl, this⟩
    | raised s1 done hold htype hlost hdone hmoved hsent => exact absurd hlost h.not_raised
  | leave order obj s' hleft => exact ⟨rfl, h.left hseen hinv hwf hclean hleft⟩
  | aoicallback w m s' hresult =>
    cases hresult with
    | ignored _ => exact ⟨rfl, h⟩
    | sighted _ ow om how hom hs => exact ⟨rfl, h.sighted how hom hs⟩
  | messageUpdate =>
    refine ⟨rfl, ?_⟩
    unfold messageUpdate outcome
    dsimp only
    split
    . exact h
    . exact h

end NoResidue

theorem after_noResidue {actions : List (Action Id Agent)}
    (hwf : ∀ action ∈ actions, action.WF kind)
    (hclean : Throughout (fun past action => CleanLeave (after past) action) actions)
    : Inv kind (after actions) ∧ Seen (after actions) ∧ NoResidue (after actions) := by
  have hinit : Seen (.init : State Id Agent) ∧ NoResidue (.init : State Id Agent) := by
    refine ⟨seen_init, ?_⟩
    intro m p v hget
    simp [State.init, State.getView, State.views] at hget
  apply after_invariant (P := fun s => Seen s ∧ NoResidue s) hinit _ hwf hclean
  rintro s action hinv ⟨hseen, h⟩ hwf hclean
  exact ⟨hseen.handle hinv hwf (h.comesUnseen action), (h.handle hseen hinv hwf hclean).2⟩

theorem cleanLeave_of_integrity {s : State Id Agent} (hinv : Inv kind s) {order : PairsOrder Id}
    {obj : Obj Id Agent} (hwf : obj.WF kind)
    (h : Integrity (outcome (handle (.leave order obj) s))) : CleanLeave s (.leave order obj) := by
  intro htype m o ho hmonster
  have hm : kind m = .monster := by rw [← (hinv.obj m o ho).2.1, hmonster]
  have hmne : m ≠ obj.tempid := by
    rintro rfl
    rw [← hwf.type, htype] at hm
    simp at hm
  obtain ⟨s', hleave, -, hleft⟩ := leave_spec hinv order hwf
  unfold handle at h
  dsimp only at h
  rw [hleave] at h
  cases hget : s.getView .player obj.tempid m with
  | none => rfl
  | some v =>
    have hmirror := (hinv.mirror obj.tempid m v hget).2.2
    rw [hm] at hmirror
    have hlive := h m obj.tempid .monster
      (by
        simp only [outcome]
        rw [hleft.OBJ, if_neg hmne, ho]
        rfl)
      (by
        simp only [outcome]
        rw [hleft.get, htype]
        simp [hmirror])
    simp only [outcome] at hlive
    rw [hleft.OBJ] at hlive
    simp at hlive

theorem integrity_iff_cleanLeave (kind : Id → CharType) (actions : List (Action Id Agent))
    (hwf : ∀ action ∈ actions, action.WF kind)
    : ((∀ past, past <+: actions → Integrity (after past))
        ∧ Throughout (fun past action => raises (handle action (after past)) = false) actions)
        ↔
      Throughout (fun past action => CleanLeave (after past) action) actions := by
  constructor
  . rintro ⟨h, -⟩ past action rest heq
    have hpre : past ++ [action] <+: actions := ⟨rest, by simp [heq]⟩
    have hpast : ∀ a ∈ past ++ [action], a.WF kind := fun a ha => hwf a (hpre.subset ha)
    have hinv : Inv kind (after past) := after_inv (fun a ha => hpast a (by simp [ha]))
    have := h _ hpre
    rw [after_append] at this
    cases action with
    | enter order obj => trivial
    | leave order obj => exact cleanLeave_of_integrity hinv (hpast (.leave order obj) (by simp)) this
    | aoicallback w m => trivial
    | messageUpdate => trivial
  . intro h
    constructor
    . rintro past ⟨rest, rfl⟩
      rw [Throughout.append_iff] at h
      obtain ⟨hinv, -, hresidue⟩ := after_noResidue (fun a ha => hwf a (by simp [ha])) h.1
      exact integrity_of_noResidue hinv hresidue
    . rintro past action rest rfl
      rw [Throughout.append_iff, Throughout.cons_iff] at h
      obtain ⟨hinv, hseen, hresidue⟩ := after_noResidue (fun a ha => hwf a (by simp [ha])) h.1
      rw [List.append_nil] at h
      exact (hresidue.handle hseen hinv (hwf action (by simp)) h.2.1).1

theorem integrity_iff_cleanLeave_comesBack
    : (∀ action ∈ comesBack, action.WF sampleKind)
        ∧ (((∀ past, past <+: comesBack → Integrity (after past))
            ∧ Throughout (fun past action => raises (handle action (after past)) = false) comesBack)
          ↔
        Throughout (fun past action => CleanLeave (after past) action) comesBack) :=
  ⟨comesBack_wf, integrity_iff_cleanLeave sampleKind comesBack comesBack_wf⟩

def walksOn : List (Action Nat Nat) :=
  [sampleEnter 1 0, sampleEnter 2 0, .aoicallback 1 2, sampleLeave 1 0]

theorem walksOn_wf : ∀ action ∈ walksOn, action.WF sampleKind := by
  intro action h
  apply comesBack_wf
  have : walksOn <+: comesBack := ⟨[sampleEnter 1 0], rfl⟩
  exact this.subset h

theorem walksOn_not_integrity
    : ¬∀ (actions : List (Action Nat Nat)), (∀ action ∈ actions, action.WF sampleKind) →
        (∀ past, past <+: actions → Integrity (after past))
          ∧ Throughout (fun past action => raises (handle action (after past)) = false) actions := by
  intro h
  have hint := (h walksOn walksOn_wf).1 walksOn (List.prefix_refl walksOn)
  have hresidue : ((after walksOn).OBJ 2).isSome = true
      ∧ ((after walksOn).getView .monster 2 1).isSome = true
      ∧ ((after walksOn).OBJ 1).isSome = false := by
    decide +kernel
  have := hint 2 1 .monster hresidue.1 hresidue.2.1
  rw [hresidue.2.2] at this
  simp at this

end Aoi
