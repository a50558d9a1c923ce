import SkynetAoi.Aoi.Integrity

/-!
This module contains when the texts that were sent to the `caoi` service agree with the objects of the
map service. `enter` stores the object before it walks over the view and sends the text only
afterwards, so a walk that raises leaves the `caoi` service behind.
-/

namespace Aoi

variable {Id Agent : Type}

def updatePending (texts : List (Text Id)) : Bool :=
  texts.foldl
    (fun _ text =>
      match text with
      | .update _ _ _ => true
      | .message => false)
    false

theorem updatePending_append (texts : List (Text Id)) (text : Text Id)
    : updatePending (texts ++ [text])
        =
      match text with
      | .update _ _ _ => true
      | .message => false := by
  unfold updatePending
  rw [List.foldl_append]
  rfl

variable [DecidableEq Id] {kind : Id → CharType}

def lastUpdate (texts : List (Text Id)) (id : Id) : Option (List Char × Point) :=
  texts.foldl
    (fun last text =>
      match text with
      | .update k mode pos => if k = id then some (mode, pos) else last
      | .message => last)
    none

theorem lastUpdate_append_update (texts : List (Text Id)) (k : Id) (mode : List Char) (pos : Point)
    (id : Id)
    : lastUpdate (texts ++ [.update k mode pos]) id
        =
      if k = id then some (mode, pos) else lastUpdate texts id := by
  unfold lastUpdate
  rw [List.foldl_append]
  rfl

theorem lastUpdate_append_message (texts : List (Text Id)) (id : Id)
    : lastUpdate (texts ++ [.message]) id = lastUpdate texts id := by
  unfold lastUpdate
  rw [List.foldl_append]
  rfl

structure Synced (s : State Id Agent) : Prop where
  present : ∀ (id : Id) (o : Obj Id Agent), s.OBJ id = some o →
    lastUpdate s.texts id = some (o.mode, scaled o.pos)
  absent : ∀ (id : Id), s.OBJ id = none →
    lastUpdate s.texts id = none ∨ ∃ pos, lastUpdate s.texts id = some (['d'], pos)
  armed : updatePending s.texts = true → s.needUpdate = true

/--
A monster that moves while a player in its view has left stays in the cell that it is in.
-/
def SameCell (s : State Id Agent) (action : Action Id Agent) : Prop :=
  match action with
  | .enter _ obj =>
    obj.type = .monster →
      (∃ k, (s.getView .monster obj.tempid k).isSome = true ∧ s.OBJ k = none) →
      ∀ old, s.OBJ obj.tempid = some old → scaled obj.pos = scaled old.pos
  | _ => True

namespace Synced

variable {s s' : State Id Agent}

theorem init : Synced (.init : State Id Agent) := by
  constructor
  . intro id o h
    simp [State.init] at h
  . intro id _
    left
    rfl
  . intro h
    simp [State.init, updatePending] at h

theorem update (h : Synced s) {k : Id} {mode : List Char} {pos : Point} {o : Option (Obj Id Agent)}
    (hobj : ∀ a, s'.OBJ a = if a = k then o else s.OBJ a)
    (htexts : s'.texts = s.texts ++ [.update k mode pos]) (hneed : s'.needUpdate = true)
    (hpresent : ∀ o', o = some o' → mode = o'.mode ∧ pos = scaled o'.pos)
    (habsent : o = none → mode = ['d']) : Synced s' := by
  constructor
  . intro id o' ho'
    rw [hobj] at ho'
    rw [htexts, lastUpdate_append_update]
    split at ho'
    . next heq =>
      obtain ⟨hmode, hpos⟩ := hpresent o' ho'
      rw [if_pos heq.symm, hmode, hpos]
    . next hne =>
      rw [if_neg (Ne.symm hne)]
      exact h.present id o' ho'
  . intro id ho'
    rw [hobj] at ho'
    rw [htexts, lastUpdate_append_update]
    split at ho'
    . next heq =>
      rw [if_pos heq.symm, habsent ho']
      exact Or.inr ⟨pos, rfl⟩
    . next hne =>
      rw [if_neg (Ne.symm hne)]
      exact h.absent id ho'
  . intro _
    exact hneed

theorem enter (h : Synced s) {obj : Obj Id Agent} (hobj : s'.OBJ = (s.store obj).OBJ)
    (htexts : s'.texts = s.texts ++ [.update obj.tempid obj.mode (scaled obj.pos)])
    (hneed : s'.needUpdate = true) : Synced s' := by
  apply h.update (o := some obj) _ htexts hneed
  . intro o ho
    rw [Option.some.injEq] at ho
    rw [ho]
    exact ⟨rfl, rfl⟩
  . intro ho
    simp at ho
  . intro a
    rw [hobj]
    exact s.store_obj obj a

theorem announce (h : Synced s) {obj : Obj Id Agent} (hobj : s'.OBJ = (s.store obj).OBJ)
    (htexts : s'.texts = s.texts) : Synced (s'.announce obj) := by
  have hobj' : (s'.announce obj).OBJ = (s.store obj).OBJ := hobj
  apply h.enter hobj' _ rfl
  unfold State.announce
  dsimp only
  rw [htexts]

theorem messageUpdate (h : Synced s) : Synced (messageUpdate s) := by
  unfold Aoi.messageUpdate
  split
  . constructor
    . intro id o ho
      simp only [State.sendText]
      rw [lastUpdate_append_message]
      exact h.present id o ho
    . intro id ho
      simp only [State.sendText]
      rw [lastUpdate_append_message]
      exact h.absent id ho
    . intro hpending
      simp only [State.sendText] at hpending
      rw [updatePending_append] at hpending
      simp at hpending
  . exact h

theorem congr (h : Synced s) (hobj : s'.OBJ = s.OBJ) (htexts : s'.texts = s.texts)
    (hneed : s'.needUpdate = s.needUpdate) : Synced s' := by
  constructor
  . rw [hobj, htexts]
    exact h.present
  . rw [hobj, htexts]
    exact h.absent
  . rw [htexts, hneed]
    exact h.armed

/--
A walk that raises has stored the object without a text.
-/
theorem raised_iff (h : Synced s) (hinv : Inv kind s) {obj : Obj Id Agent} (hwf : obj.WF kind)
    {done : List Id} {old : Obj Id Agent} (hold : s.OBJ obj.tempid = some old)
    (hmoved : MonsterMoved (s.store obj) obj.tempid obj done s')
    : Synced s' ↔ scaled obj.pos = scaled old.pos := by
  have hlast := h.present obj.tempid old hold
  have hmode : obj.mode = old.mode := by
    rw [hwf.mode, hwf.type, (hinv.obj _ old hold).2.2]
  have hobj : ∀ a, s'.OBJ a = if a = obj.tempid then some obj else s.OBJ a := by
    intro a
    rw [hmoved.obj]
    exact s.store_obj obj a
  have htexts : s'.texts = s.texts := hmoved.texts
  constructor
  . intro h'
    have := h'.present obj.tempid obj (by rw [hobj, if_pos rfl])
    rw [htexts, hlast, Option.some.injEq, Prod.mk.injEq] at this
    exact this.2.symm
  . intro hcell
    constructor
    . intro id o ho
      rw [hobj] at ho
      rw [htexts]
      split at ho
      . next heq =>
        rw [Option.some.injEq] at ho
        rw [heq, hlast, ← ho, hmode, hcell]
      . exact h.present id o ho
    . intro id ho
      rw [hobj] at ho
      rw [htexts]
      split at ho
      . simp at ho
      . exact h.absent id ho
    . rw [htexts, hmoved.needUpdate]
      exact h.armed

theorem handle_ok (h : Synced s) (hinv : Inv kind s) {action : Action Id Agent}
    (hwf : action.WF kind) (hraises : raises (handle action s) = false)
    : Synced (outcome (handle action s)) ∧ SameCell s action := by
  have hresult := (handle_spec hinv hwf).2
  generalize handle action s = result at hresult hraises
  cases hresult with
  | enter order obj _ hresult =>
    cases hresult with
    | fresh s' hnew hobj hget htexts hneed hsent =>
      refine ⟨h.enter hobj htexts hneed, ?_⟩
      intro _ _ old hold
      rw [hnew] at hold
      simp at hold
    | player s1 hold htype hmoved =>
      refine ⟨h.announce hmoved.obj hmoved.texts, ?_⟩
      intro hmonster
      rw [htype] at hmonster
      simp at hmonster
    | unseen hold htype hview =>
      refine ⟨h.announce rfl rfl, ?_⟩
      rintro _ ⟨k, hk, -⟩
      rw [State.getView_eq_none hview k] at hk
      simp at hk
    | monster s1 done hold htype hdone hlive hmoved htells =>
      refine ⟨h.announce hmoved.obj hmoved.texts, ?_⟩
      rintro _ ⟨k, hk, hnone⟩
      have := hlive k ((hdone k).mpr hk)
      rw [State.store_obj] at this
      split at this
      . next heq =>
        rw [← heq, hnone] at hold
        simp at hold
      . rw [hnone] at this
        simp at this
    | raised s1 done hold htype hlost hdone hmoved hsent => simp [raises] at hraises
  | leave order obj s' hleft =>
    refine ⟨?_, trivial⟩
    apply h.update (o := none) hleft.OBJ hleft.texts hleft.needUpdate
    . intro o ho
      simp at ho
    . intro _
      rfl
  | aoicallback w m s' hresult =>
    refine ⟨?_, trivial⟩
    cases hresult with
    | ignored _ => exact h
    | sighted _ ow om how hom hs => exact h.congr hs.OBJ hs.texts hs.needUpdate
  | messageUpdate => exact ⟨h.messageUpdate, trivial⟩

theorem handle_iff (h : Synced s) (hinv : Inv kind s) {action : Action Id Agent}
    (hwf : action.WF kind) : Synced (outcome (handle action s)) ↔ SameCell s action := by
  cases hraises : raises (handle action s) with
  | false =>
    obtain ⟨hsynced, hcell⟩ := h.handle_ok hinv hwf hraises
    exact iff_of_true hsynced hcell
  | true =>
    have hresult := (handle_spec hinv hwf).2
    generalize handle action s = result at hresult hraises
    cases hresult with
    | enter order obj _ hresult =>
      cases hresult with
      | raised s1 done hold htype hlost hdone hmoved hsent =>
        obtain ⟨old, hold⟩ := Option.isSome_iff_exists.mp hold
        simp only [outcome]
        rw [h.raised_iff hinv hwf hold hmoved]
        constructor
        . intro hcell _ _ old' hold'
          rw [hold, Option.some.injEq] at hold'
          rw [← hold']
          exact hcell
        . intro hcell
          exact hcell htype hlost old hold
      | _ => simp [raises] at hraises
    | _ => simp [raises] at hraises

end Synced

theorem synced_iff_sameCell (kind : Id → CharType) (actions : List (Action Id Agent))
    (hwf : ∀ action ∈ actions, action.WF kind)
    : (∀ past, past <+: actions → Synced (after past))
        ↔
      Throughout (fun past action => SameCell (after past) action) actions := by
  unfold after
  apply Throughout.foldl_iff Synced.init _ (fun past hpre => after_inv fun a ha => hwf a (hpre.subset ha))
    hwf
  intro s action hinv hsynced hwf
  exact hsynced.handle_iff hinv hwf

def leftBehind : List (Action Nat Nat) :=
  walksOn ++ [sampleEnter 2 500]

theorem leftBehind_wf : ∀ action ∈ leftBehind, action.WF sampleKind := by
  intro action h
  simp only [leftBehind, List.mem_append, List.mem_singleton] at h
  rcases h with h | rfl
  . exact walksOn_wf action h
  . apply sampleEnter_wf

theorem synced_iff_sameCell_leftBehind
    : (∀ action ∈ leftBehind, action.WF sampleKind)
        ∧ ((∀ past, past <+: leftBehind → Synced (after past))
          ↔
        Throughout (fun past action => SameCell (after past) action) leftBehind) :=
  ⟨leftBehind_wf, synced_iff_sameCell sampleKind leftBehind leftBehind_wf⟩

theorem leftBehind_not_synced
    : ¬∀ (actions : List (Action Nat Nat)), (∀ action ∈ actions, action.WF sampleKind) →
        ∀ past, past <+: actions → Synced (after past) := by
  intro h
  have hsynced := h leftBehind leftBehind_wf leftBehind (List.prefix_refl leftBehind)
  have hobj : (after leftBehind).OBJ 2 = some (sampleObj 2 500) := by
    decide +kernel
  have hlast : lastUpdate (after leftBehind).texts 2
      ≠ some ((sampleObj 2 500).mode, scaled (sampleObj 2 500).pos) := by
    decide +kernel
  exact hlast (hsynced.present 2 _ hobj)

end Aoi
