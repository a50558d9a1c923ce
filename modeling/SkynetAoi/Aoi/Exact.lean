import SkynetAoi.Aoi.Raw

/-!
This module contains that the two models of `CMD.enter` agree: where all the positions are points a
request of `mainscene.move` does the same to the tables of both and sends the same.
-/

namespace Aoi.Raw

open Lua (Value Arith)

variable {Id Agent : Type}

def ofPoint (p : Point) : Value ℚ :=
  .table (.cons (.string ['x']) (.number p.x) (.cons (.string ['y']) (.number p.y)
    (.cons (.string ['z']) (.number p.z) .nil)))

def ofText (text : Aoi.Text Id) : Text Id ℚ :=
  match text with
  | .update id mode pos => .update id mode (.number pos.x) (.number pos.y) (.number pos.z)
  | .message => .message

structure SameObj (o : Obj Id Agent ℚ) (o' : Aoi.Obj Id Agent) : Prop where
  tempid : o.tempid = o'.tempid
  agent : o.agent = o'.agent
  type : o.type = o'.type
  mode : o.mode = o'.mode
  pos : o.pos = ofPoint o'.pos

theorem SameObj.depth {o : Obj Id Agent ℚ} {o' : Aoi.Obj Id Agent} (h : SameObj o o')
    : o.depth = 3 := by
  unfold Obj.depth
  rw [h.pos]
  rfl

abbrev SameObjs (os : List (Obj Id Agent ℚ)) (os' : List (Aoi.Obj Id Agent)) : Prop :=
  List.Forall₂ SameObj os os'

inductive SameMsg : Msg Id Agent ℚ → Aoi.Msg Id Agent → Prop where
  | addaoiobj {o : Obj Id Agent ℚ} {o' : Aoi.Obj Id Agent} (h : SameObj o o') (reason : Reason Id)
    : SameMsg (.addaoiobj o reason) (.addaoiobj o' reason)
  | addaoiobjMonster (tempid : Id) {o : Obj Id Agent ℚ} {o' : Aoi.Obj Id Agent} (h : SameObj o o')
    (reason : Reason Id)
    : SameMsg (.addaoiobjMonster tempid o reason) (.addaoiobjMonster tempid o' reason)
  | delaoiobj (tempid : Id) (reason : Reason Id)
    : SameMsg (.delaoiobj tempid reason) (.delaoiobj tempid reason)
  | updateaoiobj {o : Obj Id Agent ℚ} {o' : Aoi.Obj Id Agent} (h : SameObj o o')
    : SameMsg (.updateaoiobj o) (.updateaoiobj o')
  | updateaoiinfo {o : Obj Id Agent ℚ} {o' : Aoi.Obj Id Agent} (h : SameObj o o')
    {os : List (Obj Id Agent ℚ)} {os' : List (Aoi.Obj Id Agent)} (henter : SameObjs os os')
    (leavelist movelist : List (Brief Id Agent))
    : SameMsg (.updateaoiinfo o os leavelist movelist) (.updateaoiinfo o' os' leavelist movelist)
  | updateaoilist {os : Lists (Obj Id Agent ℚ)} {os' : Lists (Aoi.Obj Id Agent)}
    (hplayer : SameObjs os.playerlist os'.playerlist)
    (hmonster : SameObjs os.monsterlist os'.monsterlist) (leavelist : Lists (Brief Id Agent))
    : SameMsg (.updateaoilist os leavelist) (.updateaoilist os' leavelist)
  | updateaoilistMonster (tempid : Id) {os : List (Obj Id Agent ℚ)} {os' : List (Aoi.Obj Id Agent)}
    (henter : SameObjs os os') (leavelist : List (Brief Id Agent))
    : SameMsg (.updateaoilistMonster tempid os leavelist)
        (.updateaoilistMonster tempid os' leavelist)
  | updateaoiinfoLeave (tempid : Id) (leavelist : List Id)
    : SameMsg (.updateaoiinfoLeave tempid leavelist) (.updateaoiinfoLeave tempid leavelist)

abbrev SameSent (msgs : List (Dest Agent × Msg Id Agent ℚ))
    (msgs' : List (Dest Agent × Aoi.Msg Id Agent)) : Prop :=
  List.Forall₂ (fun msg msg' => msg.1 = msg'.1 ∧ SameMsg msg.2 msg'.2) msgs msgs'

structure Same (s : State Id Agent ℚ) (t : Aoi.State Id Agent) : Prop where
  obj : ∀ k, Option.Rel SameObj (s.OBJ k) (t.OBJ k)
  playerview : s.playerview = t.playerview
  monsterview : s.monsterview = t.monsterview
  needUpdate : s.needUpdate = t.needUpdate
  texts : s.texts = t.texts.map ofText
  sent : SameSent s.sent t.sent

def SameResult {α β : Type} (R : α → β → Prop) (result : Result Id Agent ℚ α)
    (result' : Aoi.Result Id Agent β) : Prop :=
  match result, result' with
  | .ok a s, .ok b t => R a b ∧ Same s t
  | .error _ s, .error _ t => Same s t
  | _, _ => False

theorem SameResult.cases {α β : Type} {R : α → β → Prop} {result : Result Id Agent ℚ α}
    {result' : Aoi.Result Id Agent β} (h : SameResult R result result')
    : (∃ a b s t, result = .ok a s ∧ result' = .ok b t ∧ R a b ∧ Same s t)
        ∨ ∃ e e' s t, result = .error e s ∧ result' = .error e' t ∧ Same s t := by
  cases result with
  | ok a s =>
    cases result' with
    | ok b t => exact .inl ⟨a, b, s, t, rfl, rfl, h⟩
    | error e' t => exact h.elim
  | error e s =>
    cases result' with
    | ok b t => exact h.elim
    | error e' t => exact .inr ⟨e, e', s, t, rfl, rfl, h⟩

structure SameLists (lists : PlayerLists Id Agent ℚ) (lists' : Aoi.PlayerLists Id Agent)
    : Prop where
  leave : lists.leavelist = lists'.leavelist
  player : SameObjs lists.enterlist.playerlist lists'.enterlist.playerlist
  monster : SameObjs lists.enterlist.monsterlist lists'.enterlist.monsterlist
  move : lists.movelist = lists'.movelist

theorem SameMsg.packs {msg : Msg Id Agent ℚ} {msg' : Aoi.Msg Id Agent} (h : SameMsg msg msg')
    : msg.packs = true := by
  have hall : ∀ {n : Nat}, n ≤ 2 → ∀ {os : List (Obj Id Agent ℚ)} {os' : List (Aoi.Obj Id Agent)},
      SameObjs os os' → (os.all fun o => n + o.depth ≤ maxDepth) = true := by
    intro n hn os os' hos
    induction hos with
    | nil => rfl
    | cons h _ ih =>
      rw [List.all_cons, ih, h.depth, Bool.and_true, decide_eq_true_eq]
      unfold maxDepth
      omega
  cases h with
  | addaoiobj h reason =>
    rw [Msg.packs, h.depth]
    rfl
  | addaoiobjMonster tempid h reason =>
    rw [Msg.packs, h.depth]
    rfl
  | delaoiobj tempid reason => rfl
  | updateaoiobj h =>
    rw [Msg.packs, h.depth]
    rfl
  | updateaoiinfo h henter leavelist movelist =>
    rw [Msg.packs, h.depth, hall le_rfl henter]
    rfl
  | updateaoilist hplayer hmonster leavelist =>
    rw [Msg.packs, hall le_rfl hplayer, hall le_rfl hmonster]
    rfl
  | updateaoilistMonster tempid henter leavelist =>
    rw [Msg.packs, hall one_le_two henter]
  | updateaoiinfoLeave tempid leavelist => rfl

theorem send_same {s : State Id Agent ℚ} {t : Aoi.State Id Agent} (h : Same s t) (dest : Dest Agent)
    {msg : Msg Id Agent ℚ} {msg' : Aoi.Msg Id Agent} (hmsg : SameMsg msg msg')
    : ∃ s', send dest msg s = .ok () s' ∧ Same s' (t.send dest msg') := by
  refine ⟨{ s with sent := s.sent ++ [(dest, msg)] }, ?_, ?_⟩
  . rw [send, if_pos hmsg.packs]
  . exact ⟨h.obj, h.playerview, h.monsterview, h.needUpdate, h.texts,
      List.rel_append h.sent (.cons ⟨rfl, hmsg⟩ .nil)⟩

theorem sendAll_same {msgs : List (Dest Agent × Msg Id Agent ℚ)}
    {msgs' : List (Dest Agent × Aoi.Msg Id Agent)} (hmsgs : SameSent msgs msgs')
    {s : State Id Agent ℚ} {t : Aoi.State Id Agent} (h : Same s t)
    : ∃ s', sendAll msgs s = .ok () s' ∧ Same s' (t.sendAll msgs') := by
  induction hmsgs generalizing s t with
  | nil =>
    refine ⟨s, rfl, ?_⟩
    unfold Aoi.State.sendAll
    rw [List.append_nil]
    exact h
  | @cons msg msg' msgs msgs' hmsg _ ih =>
    obtain ⟨dest, msg⟩ := msg
    obtain ⟨dest', msg'⟩ := msg'
    obtain ⟨rfl, hsame⟩ := hmsg
    obtain ⟨s₁, hfirst, h₁⟩ := send_same h dest hsame
    obtain ⟨s', hsend, hs'⟩ := ih h₁
    refine ⟨s', ?_, ?_⟩
    . rw [sendAll, hfirst]
      exact hsend
    . unfold Aoi.State.sendAll Aoi.State.send at hs'
      unfold Aoi.State.sendAll
      simpa using hs'

variable {tonumber : List Char → Option ℚ}

theorem dist2_ofPoint (p q : Point)
    : dist2 (.exact tonumber) (ofPoint p) (ofPoint q) = some (Point.dist2 p q) := by
  rfl

variable (tonumber) in
theorem scaled_ofPoint (p : Point)
    : scaled (.exact tonumber) (ofPoint p) ['x'] = some (Aoi.scaled p).x
        ∧ scaled (.exact tonumber) (ofPoint p) ['y'] = some (Aoi.scaled p).y
        ∧ scaled (.exact tonumber) (ofPoint p) ['z'] = some (Aoi.scaled p).z := by
  refine ⟨?_, ?_, ?_⟩
  . rfl
  . rfl
  . rfl

theorem aoiRadis2_exact : aoiRadis2 (.exact tonumber) = Aoi.aoiRadis2 := by
  unfold aoiRadis2 Aoi.aoiRadis2 aoiRadis Arith.exact
  norm_num

theorem leaveAoiRadis2_exact : leaveAoiRadis2 (.exact tonumber) = Aoi.leaveAoiRadis2 := by
  unfold leaveAoiRadis2 Aoi.leaveAoiRadis2 Aoi.aoiRadis2 aoiRadis Arith.exact
  norm_num

namespace Same

variable {s : State Id Agent ℚ} {t : Aoi.State Id Agent}

theorem sendText (h : Same s t) (text : Aoi.Text Id)
    : Same (s.sendText (ofText text)) (t.sendText text) := by
  refine ⟨h.obj, h.playerview, h.monsterview, h.needUpdate, ?_, h.sent⟩
  dsimp only [State.sendText, Aoi.State.sendText]
  rw [h.texts, List.map_append, List.map_singleton]

theorem views (h : Same s t) (type : CharType) : s.views type = t.views type := by
  cases type with
  | player => exact h.playerview
  | monster => exact h.monsterview

variable [DecidableEq Id]

theorem getView (h : Same s t) (type : CharType) (a k : Id)
    : s.getView type a k = t.getView type a k := by
  have hviews := congrFun (h.views type) a
  unfold State.getView Aoi.State.getView
  cases hview : t.views type a with
  | none => simp only [hviews, hview]
  | some view => simp only [hviews, hview]

theorem setTable (h : Same s t) (type : CharType) (a : Id) (view : Option (View Id))
    : Same (s.setTable type a view) (t.setTable type a view) := by
  cases type with
  | player =>
    refine ⟨h.obj, ?_, h.monsterview, h.needUpdate, h.texts, h.sent⟩
    unfold State.setTable Aoi.State.setTable
    dsimp only
    rw [h.playerview]
  | monster =>
    refine ⟨h.obj, h.playerview, ?_, h.needUpdate, h.texts, h.sent⟩
    unfold State.setTable Aoi.State.setTable
    dsimp only
    rw [h.monsterview]

theorem setView (h : Same s t) (type : CharType) (a k : Id) (v : Bool)
    : Option.Rel Same (s.setView type a k v) (t.setView type a k (some v)) := by
  unfold State.setView Aoi.State.setView
  rw [h.views]
  cases t.views type a with
  | none => exact .none
  | some view => exact .some (h.setTable type a _)

theorem setBoth {α β : Type} {R : α → β → Prop} {lists : α} {lists' : β} (hlists : R lists lists')
    (h : Same s t) (ta tb : CharType) (a k : Id) (v : Bool)
    : SameResult R (setBoth ta tb a k v lists s) (Aoi.setBoth ta tb a k (some v) lists' t) := by
  unfold Raw.setBoth Aoi.setBoth
  have hset := h.setView ta a k v
  generalize s.setView ta a k v = r at hset
  generalize t.setView ta a k (some v) = r' at hset
  cases hset with
  | none => exact h
  | @some s₁ t₁ h₁ =>
    dsimp only
    have hset := h₁.setView tb k a v
    generalize s₁.setView tb k a v = r at hset
    generalize t₁.setView tb k a (some v) = r' at hset
    cases hset with
    | none => exact h₁
    | some h₂ => exact ⟨hlists, h₂⟩

theorem openView (h : Same s t) (a : Id) : Same (enter.openView s a) (Aoi.enter.openView t a) := by
  unfold enter.openView Aoi.enter.openView
  rw [h.playerview]
  cases t.playerview a with
  | none => exact h.setTable .player a _
  | some view => exact h

end Same

namespace SameLists

variable {lists : PlayerLists Id Agent ℚ} {lists' : Aoi.PlayerLists Id Agent}
  {o : Obj Id Agent ℚ} {o' : Aoi.Obj Id Agent}

theorem insertEnter (h : SameLists lists lists') (hobj : SameObj o o')
    : SameLists { lists with enterlist := inserttotablebytype lists.enterlist o o.type }
        { lists' with enterlist := inserttotablebytype lists'.enterlist o' o'.type } := by
  rw [hobj.type]
  cases o'.type with
  | player => exact ⟨h.leave, List.rel_append h.player (.cons hobj .nil), h.monster, h.move⟩
  | monster => exact ⟨h.leave, h.player, List.rel_append h.monster (.cons hobj .nil), h.move⟩

theorem insertLeave (h : SameLists lists lists') (brief : Brief Id Agent) (type : CharType)
    : SameLists { lists with leavelist := inserttotablebytype lists.leavelist brief type }
        { lists' with leavelist := inserttotablebytype lists'.leavelist brief type } := by
  refine ⟨?_, h.player, h.monster, h.move⟩
  dsimp only
  rw [h.leave]

theorem insertMove (h : SameLists lists lists') (brief : Brief Id Agent) (type : CharType)
    : SameLists { lists with movelist := inserttotablebytype lists.movelist brief type }
        { lists' with movelist := inserttotablebytype lists'.movelist brief type } := by
  refine ⟨h.leave, h.player, h.monster, ?_⟩
  dsimp only
  rw [h.move]

end SameLists

section

variable [DecidableEq Id] {s : State Id Agent ℚ} {t : Aoi.State Id Agent}

omit [DecidableEq Id] in
theorem forPairs_same {α β : Type} {R : α → β → Prop}
    {visit : Id → α → State Id Agent ℚ → Result Id Agent ℚ α}
    {visit' : Id → β → Aoi.State Id Agent → Aoi.Result Id Agent β}
    (hvisit : ∀ {s : State Id Agent ℚ} {t : Aoi.State Id Agent} {lists : α} {lists' : β} (k : Id),
      R lists lists' → Same s t → SameResult R (visit k lists s) (visit' k lists' t))
    (ks : List Id) {lists : α} {lists' : β} (hlists : R lists lists') (h : Same s t)
    : SameResult R (forPairs visit ks lists s) (Aoi.forPairs visit' ks lists' t) := by
  induction ks generalizing s t lists lists' with
  | nil => exact ⟨hlists, h⟩
  | cons k ks ih =>
    have hk := hvisit k hlists h
    rw [forPairs, Aoi.forPairs]
    generalize visit k lists s = r at hk
    generalize visit' k lists' t = r' at hk
    rcases hk.cases with
      ⟨lists₁, lists₁', s₁, t₁, rfl, rfl, hlists₁, h₁⟩ | ⟨e, e', s₁, t₁, rfl, rfl, h₁⟩
    . exact ih hlists₁ h₁
    . exact h₁

variable (tonumber) in
theorem updateviewplayer.visit_same (p : Id) (mypos : Point) (k : Id)
    {lists : PlayerLists Id Agent ℚ} {lists' : Aoi.PlayerLists Id Agent}
    (hlists : SameLists lists lists') (h : Same s t)
    : SameResult SameLists (visit (.exact tonumber) p (ofPoint mypos) k lists s)
        (Aoi.updateviewplayer.visit p mypos k lists' t) := by
  unfold visit Aoi.updateviewplayer.visit
  rw [h.getView]
  cases t.getView .player p k with
  | none => exact ⟨hlists, h⟩
  | some v =>
    dsimp only
    have hobj := h.obj k
    generalize s.OBJ k = r at hobj
    generalize t.OBJ k = r' at hobj
    cases hobj with
    | none => exact h
    | @some other other' hother =>
      dsimp only
      rw [hother.pos, dist2_ofPoint, aoiRadis2_exact, leaveAoiRadis2_exact, hother.tempid,
        hother.agent, hother.type]
      have henter := hlists.insertEnter hother
      rw [hother.type] at henter
      simp only [Arith.exact, decide_eq_true_eq, Bool.and_eq_true]
      by_cases hnear : Point.dist2 mypos other'.pos ≤ Aoi.aoiRadis2
      . rw [if_pos hnear, if_pos hnear]
        cases v with
        | false => exact h.setBoth henter .player other'.type p k true
        | true => exact ⟨hlists.insertMove _ _, h⟩
      . rw [if_neg hnear, if_neg hnear]
        by_cases hbetween : Aoi.aoiRadis2 < Point.dist2 mypos other'.pos
            ∧ Point.dist2 mypos other'.pos ≤ Aoi.leaveAoiRadis2
        . rw [if_pos hbetween, if_pos hbetween]
          cases v with
          | false => exact ⟨hlists, h⟩
          | true => exact h.setBoth (hlists.insertLeave _ _) .player other'.type p k false
        . rw [if_neg hbetween, if_neg hbetween]
          cases v with
          | false => exact h.setBoth hlists .player other'.type p k false
          | true => exact h.setBoth (hlists.insertLeave _ _) .player other'.type p k false

omit [DecidableEq Id] in
theorem updateviewplayer.messages_same (p : Id) {myobj : Obj Id Agent ℚ} {myobj' : Aoi.Obj Id Agent}
    (hobj : SameObj myobj myobj') {lists : PlayerLists Id Agent ℚ}
    {lists' : Aoi.PlayerLists Id Agent} (hlists : SameLists lists lists')
    : SameSent (messages p myobj lists)
        (lists'.leavelist.playerlist.map (fun v =>
            (Dest.agent v.agent, Aoi.Msg.delaoiobj p .updateviewplayer))
          ++ lists'.enterlist.playerlist.map (fun v =>
            (Dest.agent v.agent, Aoi.Msg.addaoiobj myobj' .updateviewplayer))
          ++ lists'.movelist.playerlist.map (fun v =>
            (Dest.agent v.agent, Aoi.Msg.updateaoiobj myobj'))
          ++ (if !lists'.leavelist.monsterlist.isEmpty || !lists'.enterlist.monsterlist.isEmpty
                || !lists'.movelist.monsterlist.isEmpty then
              [(Dest.mapagent, Aoi.Msg.updateaoiinfo myobj' lists'.enterlist.monsterlist
                lists'.leavelist.monsterlist lists'.movelist.monsterlist)]
            else
              [])
          ++ [(Dest.agent myobj'.agent,
            Aoi.Msg.updateaoilist lists'.enterlist lists'.leavelist)]) := by
  have hempty : ∀ {os : List (Obj Id Agent ℚ)} {os' : List (Aoi.Obj Id Agent)}, SameObjs os os' →
      os.isEmpty = os'.isEmpty := by
    intro os os' hos
    cases hos with
    | nil => rfl
    | cons => rfl
  unfold messages
  rw [hlists.leave, hlists.move, hempty hlists.monster, hobj.agent]
  apply List.rel_append
  . apply List.rel_append
    . apply List.rel_append
      . apply List.rel_append
        . rw [List.forall₂_map_left_iff, List.forall₂_map_right_iff, List.forall₂_same]
          exact fun v _ => ⟨rfl, .delaoiobj _ _⟩
        . rw [List.forall₂_map_left_iff, List.forall₂_map_right_iff]
          apply hlists.player.imp
          intro o o' ho
          refine ⟨?_, .addaoiobj hobj _⟩
          rw [ho.agent]
      . rw [List.forall₂_map_left_iff, List.forall₂_map_right_iff, List.forall₂_same]
        exact fun v _ => ⟨rfl, .updateaoiobj hobj⟩
    . split
      . exact .cons ⟨rfl, .updateaoiinfo hobj hlists.monster _ _⟩ .nil
      . exact .nil
  . exact .cons ⟨rfl, .updateaoilist hlists.player hlists.monster _⟩ .nil

variable (tonumber) in
theorem updateviewplayer_same (order : PairsOrder Id) (h : Same s t) (p : Id)
    : SameResult (fun _ _ => True) (updateviewplayer (.exact tonumber) order p s)
        (Aoi.updateviewplayer order p t) := by
  unfold updateviewplayer Aoi.updateviewplayer
  rw [h.playerview]
  cases t.playerview p with
  | none => exact ⟨trivial, h⟩
  | some view =>
    dsimp only
    have hobj := h.obj p
    generalize s.OBJ p = r at hobj
    generalize t.OBJ p = r' at hobj
    cases hobj with
    | none => exact h
    | @some myobj myobj' hmy =>
      dsimp only
      rw [hmy.pos]
      have hempty : @SameLists Id Agent ⟨⟨[], []⟩, ⟨[], []⟩, ⟨[], []⟩⟩
          ⟨⟨[], []⟩, ⟨[], []⟩, ⟨[], []⟩⟩ :=
        ⟨rfl, .nil, .nil, rfl⟩
      have hwalk := forPairs_same
        (fun k hlists h => updateviewplayer.visit_same tonumber p myobj'.pos k hlists h)
        (order.arrange view.keys) hempty h
      generalize forPairs (updateviewplayer.visit (.exact tonumber) p (ofPoint myobj'.pos))
        (order.arrange view.keys) ⟨⟨[], []⟩, ⟨[], []⟩, ⟨[], []⟩⟩ s = r at hwalk
      generalize Aoi.forPairs (Aoi.updateviewplayer.visit p myobj'.pos)
        (order.arrange view.keys) ⟨⟨[], []⟩, ⟨[], []⟩, ⟨[], []⟩⟩ t = r' at hwalk
      rcases hwalk.cases with
        ⟨lists, lists', s₁, t₁, rfl, rfl, hlists, h₁⟩ | ⟨e, e', s₁, t₁, rfl, rfl, h₁⟩
      . obtain ⟨s', hsend, hs'⟩ := sendAll_same
          (updateviewplayer.messages_same p hmy hlists) h₁
        dsimp only
        rw [hsend]
        refine ⟨trivial, ?_⟩
        convert hs' using 1
        unfold Aoi.State.sendAll Aoi.State.send
        split
        . simp
        . simp
      . exact h₁

omit [DecidableEq Id] in
theorem Same.newTable (h : Same s t) : Same s.newTable t :=
  ⟨h.obj, h.playerview, h.monsterview, h.needUpdate, h.texts, h.sent⟩

theorem Same.store (h : Same s t) {o : Obj Id Agent ℚ} {o' : Aoi.Obj Id Agent} (hobj : SameObj o o')
    (hlt : o.ref < s.refs)
    : Same (s.store o hlt) { t with OBJ := Function.update t.OBJ o'.tempid (some o') } := by
  refine ⟨?_, h.playerview, h.monsterview, h.needUpdate, h.texts, h.sent⟩
  intro k
  unfold State.store
  dsimp only
  rw [hobj.tempid]
  by_cases hk : k = o'.tempid
  . rw [hk, Function.update_self, Function.update_self]
    exact .some hobj
  . rw [Function.update_of_ne hk, Function.update_of_ne hk]
    exact h.obj k

variable (tonumber) in
theorem enter.report_same (h : Same s t) (tempid : Id) (mode : List Char) (pos : Point)
    : SameResult (fun _ _ => True) (report (.exact tonumber) tempid mode (ofPoint pos) s)
        (.ok () { (Aoi.enter.openView t tempid).sendText (.update tempid mode (Aoi.scaled pos)) with
          needUpdate := true }) := by
  obtain ⟨hx, hy, hz⟩ := scaled_ofPoint tonumber pos
  have htext := (h.openView tempid).sendText (.update tempid mode (Aoi.scaled pos))
  unfold report
  rw [hx, hy, hz]
  exact ⟨trivial, htext.obj, htext.playerview, htext.monsterview, rfl, htext.texts, htext.sent⟩

theorem asserted_ofPoint (pos : Point) : asserted (ofPoint pos) = true := by
  rfl

variable (tonumber) in
theorem enter_same (order : PairsOrder Id) (h : Same s t) {req : Request Id Agent ℚ} {pos : Point}
    (hpos : req.pos = ofPoint pos)
    : SameResult (fun _ _ => True) (enter (.exact tonumber) order req s)
        (Aoi.enter order ⟨req.tempid, req.agent, .player, ['w', 'm'], pos⟩ t) := by
  have hobj : SameObj (req.obj s.refs) ⟨req.tempid, req.agent, .player, ['w', 'm'], pos⟩ :=
    ⟨rfl, rfl, rfl, rfl, hpos⟩
  have hreceived : Same (s.received req) _ := h.newTable.store hobj (Nat.lt_succ_self s.refs)
  have hview := updateviewplayer_same tonumber order hreceived req.tempid
  unfold enter Aoi.enter
  rw [hpos, if_pos (asserted_ofPoint pos)]
  dsimp only
  rw [if_neg (by simp)]
  generalize updateviewplayer (.exact tonumber) order req.tempid (s.received req) = r at hview ⊢
  generalize Aoi.updateviewplayer order req.tempid _ = r' at hview ⊢
  rcases hview.cases with ⟨_, _, s₁, t₁, rfl, rfl, -, h₁⟩ | ⟨e, e', s₁, t₁, rfl, rfl, h₁⟩
  . exact enter.report_same tonumber h₁ req.tempid ['w', 'm'] pos
  . exact h₁

end

end Aoi.Raw
