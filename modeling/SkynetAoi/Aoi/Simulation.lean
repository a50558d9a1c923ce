import SkynetAoi.Aoi.Exact
import SkynetAoi.Aoi.Service

/-!
This module contains that the two models of the map service agree in all of its handlers: where all
the positions are points every run of requests leaves the same tables and has sent the same.
-/

namespace Aoi.Raw

open Lua (Value Arith)

variable {Id Agent : Type}

structure SameMonsterLists (lists : MonsterLists Id Agent ℚ) (lists' : Aoi.MonsterLists Id Agent)
    : Prop where
  leave : lists.leavelist = lists'.leavelist
  enter : SameObjs lists.enterlist lists'.enterlist
  move : lists.movelist = lists'.movelist

section

variable [DecidableEq Id] {s : State Id Agent ℚ} {t : Aoi.State Id Agent}

namespace Same

theorem eraseView (h : Same s t) (type : CharType) (a k : Id)
    : Option.Rel Same (s.eraseView type a k) (t.setView type a k none) := by
  unfold State.eraseView Aoi.State.setView
  rw [h.views]
  cases t.views type a with
  | none => exact .none
  | some view => exact .some (h.setTable type a _)

theorem eraseBoth {α β : Type} {R : α → β → Prop} {lists : α} {lists' : β}
    (hlists : R lists lists') (h : Same s t) (ta tb : CharType) (a k : Id)
    : SameResult R (eraseBoth ta tb a k lists s) (Aoi.setBoth ta tb a k none lists' t) := by
  unfold Raw.eraseBoth Aoi.setBoth
  have herase := h.eraseView ta a k
  generalize s.eraseView ta a k = r at herase
  generalize t.setView ta a k none = r' at herase
  cases herase with
  | none => exact h
  | @some s₁ t₁ h₁ =>
    dsimp only
    have herase := h₁.eraseView tb k a
    generalize s₁.eraseView tb k a = r at herase
    generalize t₁.setView tb k a none = r' at herase
    cases herase with
    | none => exact h₁
    | some h₂ => exact ⟨hlists, h₂⟩

theorem remove (h : Same s t) (tempid : Id)
    : Same (s.remove tempid) { t with OBJ := Function.update t.OBJ tempid none } := by
  refine ⟨?_, h.playerview, h.monsterview, h.needUpdate, h.texts, h.sent⟩
  intro k
  unfold State.remove
  dsimp only
  by_cases hk : k = tempid
  . rw [hk, Function.update_self, Function.update_self]
    exact .none
  . rw [Function.update_of_ne hk, Function.update_of_ne hk]
    exact h.obj k

end Same

variable {tonumber : List Char → Option ℚ}

variable (tonumber) in
theorem updateviewmonster.visit_same (m : Id) (mypos : Point) (k : Id)
    {lists : MonsterLists Id Agent ℚ} {lists' : Aoi.MonsterLists Id Agent}
    (hlists : SameMonsterLists lists lists') (h : Same s t)
    : SameResult SameMonsterLists (visit (.exact tonumber) m (ofPoint mypos) k lists s)
        (Aoi.updateviewmonster.visit m mypos k lists' t) := by
  unfold visit Aoi.updateviewmonster.visit
  rw [h.getView]
  cases t.getView .monster m k with
  | none => exact ⟨hlists, h⟩
  | some v =>
    dsimp only
    have hobj := h.obj k
    generalize s.OBJ k = r at hobj
    generalize t.OBJ k = r' at hobj
    cases hobj with
    | none => exact h
    | @some other other' hother =>
      dsimp only
      rw [hother.pos, dist2_ofPoint, aoiRadis2_exact, leaveAoiRadis2_exact, hother.tempid,
        hother.agent]
      have hleave : SameMonsterLists
          { lists with leavelist := lists.leavelist ++ [⟨other'.tempid, other'.agent⟩] }
          { lists' with leavelist := lists'.leavelist ++ [⟨other'.tempid, other'.agent⟩] } :=
        ⟨by rw [hlists.leave], hlists.enter, hlists.move⟩
      simp only [Arith.exact, decide_eq_true_eq, Bool.and_eq_true]
      by_cases hnear : Point.dist2 mypos other'.pos ≤ Aoi.aoiRadis2
      . rw [if_pos hnear, if_pos hnear]
        cases v with
        | false =>
          have henter : SameMonsterLists
              { lists with enterlist := lists.enterlist ++ [other] }
              { lists' with enterlist := lists'.enterlist ++ [other'] } :=
            ⟨hlists.leave, List.rel_append hlists.enter (.cons hother .nil), hlists.move⟩
          exact h.setBoth henter .monster .player m k true
        | true => exact ⟨⟨hlists.leave, hlists.enter, by rw [hlists.move]⟩, h⟩
      . rw [if_neg hnear, if_neg hnear]
        by_cases hbetween : Aoi.aoiRadis2 < Point.dist2 mypos other'.pos
            ∧ Point.dist2 mypos other'.pos ≤ Aoi.leaveAoiRadis2
        . rw [if_pos hbetween, if_pos hbetween]
          cases v with
          | false => exact ⟨hlists, h⟩
          | true => exact h.setBoth hleave .monster .player m k false
        . rw [if_neg hbetween, if_neg hbetween]
          cases v with
          | false => exact h.eraseBoth hlists .monster .player m k
          | true => exact h.eraseBoth hleave .monster .player m k

omit [DecidableEq Id] in
theorem updateviewmonster.messages_same {myobj : Obj Id Agent ℚ} {myobj' : Aoi.Obj Id Agent}
    (hobj : SameObj myobj myobj') {lists : MonsterLists Id Agent ℚ}
    {lists' : Aoi.MonsterLists Id Agent} (hlists : SameMonsterLists lists lists')
    : SameSent (messages myobj lists)
        (lists'.leavelist.map (fun v =>
            (Dest.agent v.agent, Aoi.Msg.delaoiobj myobj'.tempid .updateviewmonster))
          ++ lists'.enterlist.map (fun v =>
            (Dest.agent v.agent, Aoi.Msg.addaoiobj myobj' .updateviewmonster))
          ++ lists'.movelist.map (fun v => (Dest.agent v, Aoi.Msg.updateaoiobj myobj'))
          ++ [(Dest.agent myobj'.agent,
            Aoi.Msg.updateaoilistMonster myobj'.tempid lists'.enterlist lists'.leavelist)]) := by
  unfold messages
  rw [hlists.leave, hlists.move, hobj.agent, hobj.tempid]
  apply List.rel_append
  . apply List.rel_append
    . apply List.rel_append
      . rw [List.forall₂_map_left_iff, List.forall₂_map_right_iff, List.forall₂_same]
        exact fun v _ => ⟨rfl, .delaoiobj _ _⟩
      . rw [List.forall₂_map_left_iff, List.forall₂_map_right_iff]
        apply hlists.enter.imp
        intro o o' ho
        refine ⟨?_, .addaoiobj hobj _⟩
        rw [ho.agent]
    . rw [List.forall₂_map_left_iff, List.forall₂_map_right_iff, List.forall₂_same]
      exact fun v _ => ⟨rfl, .updateaoiobj hobj⟩
  . exact .cons ⟨rfl, .updateaoilistMonster _ hlists.enter _⟩ .nil

variable (tonumber) in
theorem updateviewmonster_same (order : PairsOrder Id) (h : Same s t) (m : Id)
    : SameResult (fun _ _ => True) (updateviewmonster (.exact tonumber) order m s)
        (Aoi.updateviewmonster order m t) := by
  unfold updateviewmonster Aoi.updateviewmonster
  rw [h.monsterview]
  cases t.monsterview m with
  | none => exact ⟨trivial, h⟩
  | some view =>
    dsimp only
    have hobj := h.obj m
    generalize s.OBJ m = r at hobj
    generalize t.OBJ m = r' at hobj
    cases hobj with
    | none => exact h
    | @some myobj myobj' hmy =>
      dsimp only
      rw [hmy.pos]
      have hempty : @SameMonsterLists Id Agent ⟨[], [], []⟩ ⟨[], [], []⟩ := ⟨rfl, .nil, rfl⟩
      have hwalk := forPairs_same
        (fun k hlists h => updateviewmonster.visit_same tonumber m myobj'.pos k hlists h)
        (order.arrange view.keys) hempty h
      generalize forPairs (updateviewmonster.visit (.exact tonumber) m (ofPoint myobj'.pos))
        (order.arrange view.keys) ⟨[], [], []⟩ s = r at hwalk
      generalize Aoi.forPairs (Aoi.updateviewmonster.visit m myobj'.pos) (order.arrange view.keys)
        ⟨[], [], []⟩ t = r' at hwalk
      rcases hwalk.cases with
        ⟨lists, lists', s₁, t₁, rfl, rfl, hlists, h₁⟩ | ⟨e, e', s₁, t₁, rfl, rfl, h₁⟩
      . obtain ⟨s', hsend, hs'⟩ := sendAll_same (updateviewmonster.messages_same hmy hlists) h₁
        dsimp only
        rw [hsend]
        refine ⟨trivial, ?_⟩
        convert hs' using 1
        unfold Aoi.State.sendAll Aoi.State.send
        simp
      . exact h₁

variable (tonumber) in
theorem enterMonster_same (order : PairsOrder Id) (h : Same s t) {req : Monster Id Agent ℚ}
    {pos : Point} (hpos : req.pos = ofPoint pos)
    : SameResult (fun _ _ => True) (enterMonster (.exact tonumber) order req s)
        (Aoi.enter order ⟨req.tempid, req.agent, .monster, req.mode, pos⟩ t) := by
  have hobj : SameObj (req.obj s.refs) ⟨req.tempid, req.agent, .monster, req.mode, pos⟩ :=
    ⟨rfl, rfl, rfl, rfl, hpos⟩
  have hstore := h.newTable.store hobj s.refs_lt_newTable
  have hview := updateviewmonster_same tonumber order hstore req.tempid
  unfold enterMonster Aoi.enter
  rw [hpos, if_pos (asserted_ofPoint pos)]
  dsimp only
  rw [if_pos (by simp)]
  generalize updateviewmonster (.exact tonumber) order req.tempid _ = r at hview ⊢
  generalize Aoi.updateviewmonster order req.tempid _ = r' at hview ⊢
  rcases hview.cases with ⟨_, _, s₁, t₁, rfl, rfl, -, h₁⟩ | ⟨e, e', s₁, t₁, rfl, rfl, h₁⟩
  . exact enter.report_same tonumber h₁ req.tempid req.mode pos
  . exact h₁

theorem aoicallback.put_same (h : Same s t) (type : CharType) (a k : Id)
    : Same (put s type a k) (Aoi.aoicallback.put t type a k) := by
  unfold put Aoi.aoicallback.put
  rw [h.views]
  cases t.views type a with
  | none => exact h.setTable type a _
  | some view => exact h.setTable type a _

theorem aoicallback_same (h : Same s t) (w m : Id)
    : SameResult (fun _ _ => True) (aoicallback w m s) (Aoi.aoicallback w m t) := by
  unfold aoicallback Aoi.aoicallback
  have hw := h.obj w
  have hm := h.obj m
  generalize s.OBJ w = rw at hw
  generalize t.OBJ w = rw' at hw
  generalize s.OBJ m = rm at hm
  generalize t.OBJ m = rm' at hm
  cases hw with
  | none => exact ⟨trivial, h⟩
  | @some ow ow' how =>
    cases hm with
    | none => exact ⟨trivial, h⟩
    | @some om om' hom =>
      dsimp only
      rw [how.type, how.tempid, hom.type, hom.tempid]
      have hput := aoicallback.put_same (aoicallback.put_same h ow'.type ow'.tempid om'.tempid)
        om'.type om'.tempid ow'.tempid
      have hmsgs : SameSent (aoicallback.messages ow om)
          ((if ow'.type = .player then
              [(Dest.agent ow'.agent, Aoi.Msg.addaoiobj om' (.aoicallbackPlayer om'.tempid))]
            else
              [])
          ++ (if om'.type ≠ .player then
              [(Dest.agent om'.agent, Aoi.Msg.addaoiobjMonster om'.tempid ow' .aoicallback)]
            else
              [])) := by
        unfold aoicallback.messages
        rw [how.type, hom.type, how.agent, hom.agent, hom.tempid]
        apply List.rel_append
        . split
          . exact .cons ⟨rfl, .addaoiobj hom _⟩ .nil
          . exact .nil
        . split
          . exact .cons ⟨rfl, .addaoiobjMonster _ how _⟩ .nil
          . exact .nil
      obtain ⟨s', hsend, hs'⟩ := sendAll_same hmsgs hput
      rw [hsend]
      refine ⟨trivial, ?_⟩
      convert hs' using 1
      unfold Aoi.State.sendAll Aoi.State.send
      split
      . split
        . simp
        . simp
      . split
        . simp
        . simp

theorem leave.visit_same (tempid k : Id) {monsterlist monsterlist' : List Id}
    (hlist : monsterlist = monsterlist') (h : Same s t)
    : SameResult Eq (visit tempid k monsterlist s) (Aoi.leave.visit tempid k monsterlist' t) := by
  subst hlist
  unfold visit Aoi.leave.visit
  rw [h.playerview, h.monsterview, h.getView]
  cases t.playerview k with
  | some view =>
    unfold tell
    dsimp only
    rw [h.getView]
    by_cases hknown : t.getView .player k tempid = some true
    . rw [if_pos hknown, if_pos hknown]
      have hobj := h.obj k
      generalize s.OBJ k = r at hobj
      generalize t.OBJ k = r' at hobj
      cases hobj with
      | none => exact h
      | @some other other' hother =>
        obtain ⟨s₁, hsend, h₁⟩ := send_same h (.agent other'.agent) (.delaoiobj tempid .leave)
        dsimp only
        rw [hother.agent, hsend]
        dsimp only
        have herase := h₁.eraseView .player k tempid
        generalize s₁.eraseView .player k tempid = r at herase
        generalize (t.send _ _).setView .player k tempid none = r' at herase
        cases herase with
        | none => exact h₁
        | some h₂ => exact ⟨rfl, h₂⟩
    . rw [if_neg hknown, if_neg hknown]
      dsimp only
      have herase := h.eraseView .player k tempid
      generalize s.eraseView .player k tempid = r at herase
      generalize t.setView .player k tempid none = r' at herase
      cases herase with
      | none => exact h
      | some h₂ => exact ⟨rfl, h₂⟩
  | none =>
    dsimp only
    cases t.monsterview k with
    | none => exact ⟨rfl, h⟩
    | some view =>
      dsimp only
      have herase := h.eraseView .monster k tempid
      generalize s.eraseView .monster k tempid = r at herase
      generalize t.setView .monster k tempid none = r' at herase
      cases herase with
      | none => exact h
      | some h₂ => exact ⟨rfl, h₂⟩

theorem leave_same (order : PairsOrder Id) (h : Same s t) {req : Request Id Agent ℚ}
    {obj : Aoi.Obj Id Agent} (htempid : req.tempid = obj.tempid) (hpos : req.pos = ofPoint obj.pos)
    : SameResult (fun _ _ => True) (leave order obj.type req s) (Aoi.leave order obj t) := by
  have hx : req.pos.index ['x'] = some (.number obj.pos.x) := by
    rw [hpos]
    rfl
  have hy : req.pos.index ['y'] = some (.number obj.pos.y) := by
    rw [hpos]
    rfl
  have hz : req.pos.index ['z'] = some (.number obj.pos.z) := by
    rw [hpos]
    rfl
  have hwritten : ((Value.number obj.pos.x).concatenates && (Value.number obj.pos.y).concatenates
      && (Value.number obj.pos.z).concatenates) = true := by
    rfl
  have h₁ := (h.sendText (.update obj.tempid ['d'] obj.pos)).remove obj.tempid
  have hviews := congrFun (h₁.views obj.type) obj.tempid
  unfold ofText at h₁ hviews
  dsimp only at h₁ hviews
  unfold leave leave.depart Aoi.leave
  rw [hx, hy, hz, htempid]
  dsimp only
  rw [if_pos hwritten, hviews]
  generalize Aoi.State.views _ obj.type obj.tempid = r
  cases r with
  | none => exact ⟨trivial, h₁.obj, h₁.playerview, h₁.monsterview, rfl, h₁.texts, h₁.sent⟩
  | some view =>
    dsimp only
    have hwalk := forPairs_same (fun k hlist h => leave.visit_same obj.tempid k hlist h)
      (order.arrange view.keys) (Eq.refl ([] : List Id)) h₁
    generalize forPairs (leave.visit obj.tempid) (order.arrange view.keys) [] _ = r at hwalk ⊢
    generalize Aoi.forPairs (Aoi.leave.visit obj.tempid) (order.arrange view.keys) [] _ = r'
      at hwalk ⊢
    rcases hwalk.cases with
      ⟨monsterlist, _, s₂, t₂, rfl, rfl, rfl, h₂⟩ | ⟨e, e', s₂, t₂, rfl, rfl, h₂⟩
    . dsimp only
      by_cases hempty : (!monsterlist.isEmpty) = true
      . obtain ⟨s₃, hsend, h₃⟩ := send_same h₂ .mapagent
          (.updateaoiinfoLeave obj.tempid monsterlist)
        have hclosed := h₃.setTable obj.type obj.tempid none
        rw [if_pos hempty, if_pos hempty, hsend]
        exact ⟨trivial, hclosed.obj, hclosed.playerview, hclosed.monsterview, rfl, hclosed.texts,
          hclosed.sent⟩
      . have hclosed := h₂.setTable obj.type obj.tempid none
        rw [if_neg hempty, if_neg hempty]
        exact ⟨trivial, hclosed.obj, hclosed.playerview, hclosed.monsterview, rfl, hclosed.texts,
          hclosed.sent⟩
    . exact h₂

omit [DecidableEq Id] in
theorem messageUpdate_same (h : Same s t) : Same (messageUpdate s) (Aoi.messageUpdate t) := by
  unfold messageUpdate Aoi.messageUpdate
  rw [h.needUpdate]
  split
  . have htext := h.sendText .message
    exact ⟨htext.obj, htext.playerview, htext.monsterview, rfl, htext.texts, htext.sent⟩
  . exact h

/--
The requests of the two models whose positions are the same points.
-/
inductive SameAction : Action Id Agent ℚ → Aoi.Action Id Agent → Prop where
  | enter (order : PairsOrder Id) {req : Request Id Agent ℚ} {pos : Point}
    (hpos : req.pos = ofPoint pos)
    : SameAction (.enter order req) (.enter order ⟨req.tempid, req.agent, .player, ['w', 'm'], pos⟩)
  | leave (order : PairsOrder Id) {req : Request Id Agent ℚ} {obj : Aoi.Obj Id Agent}
    (htype : obj.type = .player) (htempid : req.tempid = obj.tempid)
    (hpos : req.pos = ofPoint obj.pos)
    : SameAction (.leave order req) (.leave order obj)
  | enterMonster (order : PairsOrder Id) {req : Monster Id Agent ℚ} {pos : Point}
    (hpos : req.pos = ofPoint pos)
    : SameAction (.enterMonster order req)
        (.enter order ⟨req.tempid, req.agent, .monster, req.mode, pos⟩)
  | leaveMonster (order : PairsOrder Id) {req : Monster Id Agent ℚ} {obj : Aoi.Obj Id Agent}
    (htype : obj.type = .monster) (htempid : req.tempid = obj.tempid)
    (hpos : req.pos = ofPoint obj.pos)
    : SameAction (.leaveMonster order req) (.leave order obj)
  | aoicallback (w m : Id) : SameAction (.aoicallback w m) (.aoicallback w m)
  | messageUpdate : SameAction .messageUpdate .messageUpdate

theorem handle_same (h : Same s t) {action : Action Id Agent ℚ} {action' : Aoi.Action Id Agent}
    (haction : SameAction action action')
    : SameResult (fun _ _ => True) (handle (.exact tonumber) action s) (Aoi.handle action' t) := by
  cases haction with
  | enter order hpos => exact enter_same tonumber order h hpos
  | leave order htype htempid hpos =>
    have hleave := leave_same order h htempid hpos
    rw [htype] at hleave
    exact hleave
  | enterMonster order hpos => exact enterMonster_same tonumber order h hpos
  | @leaveMonster order req obj htype htempid hpos =>
    have hleave : SameResult _ (leave order obj.type req.toRequest s) _ :=
      leave_same order h htempid hpos
    rw [htype] at hleave
    exact hleave
  | aoicallback w m => exact aoicallback_same h w m
  | messageUpdate => exact ⟨trivial, messageUpdate_same h⟩

omit [DecidableEq Id] in
theorem SameResult.outcome {result : Result Id Agent ℚ Unit} {result' : Aoi.Result Id Agent Unit}
    {R : Unit → Unit → Prop} (h : SameResult R result result')
    : Same (outcome result) (Aoi.outcome result') := by
  rcases h.cases with ⟨_, _, s, t, rfl, rfl, -, hst⟩ | ⟨e, e', s, t, rfl, rfl, hst⟩
  . exact hst
  . exact hst

omit [DecidableEq Id] in
theorem Same.init : Same (.init : State Id Agent ℚ) .init :=
  ⟨fun _ => .none, rfl, rfl, rfl, rfl, .nil⟩

theorem foldl_same {actions : List (Action Id Agent ℚ)} {actions' : List (Aoi.Action Id Agent)}
    (hactions : List.Forall₂ SameAction actions actions') (h : Same s t)
    : Same (actions.foldl (fun s action => outcome (handle (.exact tonumber) action s)) s)
        (actions'.foldl (fun t action => Aoi.outcome (Aoi.handle action t)) t) := by
  induction hactions generalizing s t with
  | nil => exact h
  | cons haction _ ih => exact ih (handle_same h haction).outcome

theorem after_same {actions : List (Action Id Agent ℚ)} {actions' : List (Aoi.Action Id Agent)}
    (hactions : List.Forall₂ SameAction actions actions')
    : Same (actions.foldl (fun s action => outcome (handle (.exact tonumber) action s)) .init)
        (Aoi.after actions') :=
  foldl_same hactions .init

end

end Aoi.Raw
