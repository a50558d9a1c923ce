import SkynetAoi.Aoi.Failing
import SkynetAoi.Aoi.Service

/-!
This module contains what the map service makes of the requests about one player: which of them write
its entry of `OBJ`, and which of them get as far as the text for the `caoi` service. Nobody looks at
the agent that a `leave` comes from.
-/

namespace Aoi.Raw

open Lua (Value Arith)

variable {Id Agent Num : Type}

def writable (pos : Value Num) : Bool :=
  match pos.index ['x'], pos.index ['y'], pos.index ['z'] with
  | some x, some y, some z => x.concatenates && y.concatenates && z.concatenates
  | _, _, _ => false

structure Alike (s s' : State Id Agent Num) : Prop where
  obj : s'.OBJ = s.OBJ
  texts : s'.texts = s.texts

theorem Alike.refl (s : State Id Agent Num) : Alike s s := ⟨rfl, rfl⟩

theorem Alike.trans {s₁ s₂ s₃ : State Id Agent Num} (h : Alike s₁ s₂) (h' : Alike s₂ s₃)
    : Alike s₁ s₃ where
  obj := by rw [h'.obj, h.obj]
  texts := by rw [h'.texts, h.texts]

theorem Keeps.alike {s s' : State Id Agent Num} (h : Keeps s s') : Alike s s' := ⟨h.obj, h.texts⟩

variable [DecidableEq Id]

def lastMode (texts : List (Text Id Num)) (id : Id) : Option (List Char) :=
  texts.foldl
    (fun last text =>
      match text with
      | .update k mode _ _ _ => if k = id then some mode else last
      | .message => last)
    none

@[simp]
theorem lastMode_append_update (texts : List (Text Id Num)) (k : Id) (mode : List Char)
    (x y z : Value Num) (id : Id)
    : lastMode (texts ++ [.update k mode x y z]) id
        =
      if k = id then some mode else lastMode texts id := by
  unfold lastMode
  rw [List.foldl_append]
  rfl

@[simp]
theorem lastMode_append_message (texts : List (Text Id Num)) (id : Id)
    : lastMode (texts ++ [.message]) id = lastMode texts id := by
  unfold lastMode
  rw [List.foldl_append]
  rfl

structure Untouched (u : Id) (s s' : State Id Agent Num) : Prop where
  obj : s'.OBJ u = s.OBJ u
  mode : lastMode s'.texts u = lastMode s.texts u

theorem Alike.untouched {s s' : State Id Agent Num} (h : Alike s s') (u : Id)
    : Untouched u s s' := by
  refine ⟨?_, ?_⟩
  . rw [h.obj]
  . rw [h.texts]

theorem Untouched.trans {u : Id} {s₁ s₂ s₃ : State Id Agent Num} (h : Untouched u s₁ s₂)
    (h' : Untouched u s₂ s₃) : Untouched u s₁ s₃ where
  obj := by rw [h'.obj, h.obj]
  mode := by rw [h'.mode, h.mode]

section

variable {α : Type}

omit [DecidableEq Id] in
theorem forPairs_alike {visit : Id → α → State Id Agent Num → Result Id Agent Num α}
    (hvisit : ∀ k lists s, Alike s (outcome (visit k lists s))) (ks : List Id) (lists : α)
    (s : State Id Agent Num) : Alike s (outcome (forPairs visit ks lists s)) := by
  induction ks generalizing lists s with
  | nil => exact .refl s
  | cons k ks ih =>
    have hfirst := hvisit k lists s
    unfold forPairs
    cases hresult : visit k lists s with
    | error e s' =>
      rw [hresult] at hfirst
      exact hfirst
    | ok lists' s' =>
      rw [hresult] at hfirst
      exact hfirst.trans (ih lists' s')

theorem setTable_alike (s : State Id Agent Num) (type : CharType) (a : Id)
    (view : Option (View Id)) : Alike s (s.setTable type a view) := by
  cases type with
  | player => exact ⟨rfl, rfl⟩
  | monster => exact ⟨rfl, rfl⟩

theorem eraseView_alike {s s' : State Id Agent Num} {type : CharType} {a k : Id}
    (h : s.eraseView type a k = some s') : Alike s s' := by
  unfold State.eraseView at h
  split at h
  . simp at h
  . rw [Option.some.injEq] at h
    rw [← h]
    exact setTable_alike ..

theorem setBoth_alike (ta tb : CharType) (a k : Id) (v : Bool) (lists : α)
    (s : State Id Agent Num) : Alike s (outcome (setBoth ta tb a k v lists s)) := by
  unfold setBoth
  cases h₁ : s.setView ta a k v with
  | none => exact .refl s
  | some s₁ =>
    have h := (State.setView_spec h₁).1.alike
    dsimp only
    cases h₂ : s₁.setView tb k a v with
    | none => exact h
    | some s₂ => exact h.trans (State.setView_spec h₂).1.alike

theorem eraseBoth_alike (ta tb : CharType) (a k : Id) (lists : α) (s : State Id Agent Num)
    : Alike s (outcome (eraseBoth ta tb a k lists s)) := by
  unfold eraseBoth
  cases h₁ : s.eraseView ta a k with
  | none => exact .refl s
  | some s₁ =>
    dsimp only
    cases h₂ : s₁.eraseView tb k a with
    | none => exact eraseView_alike h₁
    | some s₂ => exact (eraseView_alike h₁).trans (eraseView_alike h₂)

omit [DecidableEq Id] in
theorem send_alike (dest : Dest Agent) (msg : Msg Id Agent Num) (s : State Id Agent Num)
    : Alike s (outcome (send dest msg s)) := by
  unfold send
  split
  . exact ⟨rfl, rfl⟩
  . exact .refl s

omit [DecidableEq Id] in
theorem sendAll_alike (msgs : List (Dest Agent × Msg Id Agent Num)) (s : State Id Agent Num)
    : Alike s (outcome (sendAll msgs s)) :=
  (sendAll_cases msgs s).1.alike

end

section

variable (arith : Arith Num)

theorem updateviewmonster.visit_alike (a : Id) (mypos : Value Num) (k : Id)
    (lists : MonsterLists Id Agent Num) (s : State Id Agent Num)
    : Alike s (outcome (visit arith a mypos k lists s)) := by
  unfold visit
  split
  . exact .refl s
  . split
    . exact .refl s
    . dsimp only
      split
      . exact .refl s
      . split
        . split
          . exact setBoth_alike ..
          . exact .refl s
        . split
          . split
            . exact setBoth_alike ..
            . exact .refl s
          . exact eraseBoth_alike ..

theorem updateviewmonster_alike (order : PairsOrder Id) (a : Id) (s : State Id Agent Num)
    : Alike s (outcome (updateviewmonster arith order a s)) := by
  unfold updateviewmonster
  split
  . exact .refl s
  . next view _ =>
    split
    . exact .refl s
    . next myobj _ =>
      have hwalk := forPairs_alike (updateviewmonster.visit_alike arith a myobj.pos)
        (order.arrange view.keys) ⟨[], [], []⟩ s
      split
      . next e s' heq =>
        rw [heq] at hwalk
        exact hwalk
      . next lists s' heq =>
        rw [heq] at hwalk
        exact hwalk.trans (sendAll_alike ..)

theorem enter.report_untouched {tempid u : Id} (hu : tempid ≠ u) (mode : List Char)
    (pos : Value Num) (s : State Id Agent Num)
    : Untouched u s (outcome (report arith tempid mode pos s)) := by
  obtain ⟨hobj, ⟨-, -, htexts⟩ | ⟨-, -, x, y, z, htexts⟩⟩ := report_cases arith tempid mode pos s
  . exact ⟨by rw [hobj], by rw [htexts]⟩
  . exact ⟨by rw [hobj], by rw [htexts, lastMode_append_update, if_neg hu]⟩

theorem enterMonster_untouched (order : PairsOrder Id) {req : Monster Id Agent Num} {u : Id}
    (hu : req.tempid ≠ u) (s : State Id Agent Num)
    : Untouched u s (outcome (enterMonster arith order req s)) := by
  unfold enterMonster
  split
  . have hstore : Untouched u s
        (s.newTable.store (req.obj s.refs) s.refs_lt_newTable) :=
      ⟨Function.update_of_ne (Ne.symm hu) .., rfl⟩
    have hviews := updateviewmonster_alike arith order req.tempid
      (s.newTable.store (req.obj s.refs) s.refs_lt_newTable)
    dsimp only
    split
    . next e s' heq =>
      rw [heq] at hviews
      exact hstore.trans (hviews.untouched u)
    . next s' heq =>
      rw [heq] at hviews
      exact (hstore.trans (hviews.untouched u)).trans (enter.report_untouched arith hu ..)
  . exact ⟨rfl, rfl⟩

/--
The request gets as far as its text.
-/
def Request.Reports (req : Request Id Agent Num) (s : State Id Agent Num) : Prop :=
  asserted req.pos = true ∧ Survives arith (s.received req) (req.obj s.refs) ∧ Numeric arith req.pos

theorem enter_obj (order : PairsOrder Id) (req : Request Id Agent Num) (s : State Id Agent Num)
    : (outcome (enter arith order req s)).OBJ
        =
      if asserted req.pos then (s.received req).OBJ else s.OBJ := by
  split
  . next hassert => exact (enter_asserted arith order hassert).1
  . next hassert =>
    unfold enter
    rw [if_neg hassert]
    rfl

theorem enter_mode (order : PairsOrder Id) (req : Request Id Agent Num) (s : State Id Agent Num)
    : req.Reports arith s
          ∧ lastMode (outcome (enter arith order req s)).texts req.tempid = some ['w', 'm']
        ∨ ¬req.Reports arith s ∧ (outcome (enter arith order req s)).texts = s.texts := by
  unfold Request.Reports
  by_cases hassert : asserted req.pos = true
  . obtain ⟨-, hiff, herror, hok⟩ := enter_asserted arith order (s := s) hassert
    rw [← hiff]
    cases hraises : raises (enter arith order req s) with
    | true => exact .inr ⟨by simp, herror hraises⟩
    | false =>
      obtain ⟨x, y, z, htexts⟩ := hok hraises
      exact .inl ⟨⟨hassert, rfl⟩, by rw [htexts, lastMode_append_update, if_pos rfl]⟩
  . refine .inr ⟨by simp [hassert], ?_⟩
    unfold enter
    rw [if_neg hassert]
    rfl

theorem enter_untouched (order : PairsOrder Id) {req : Request Id Agent Num} {u : Id}
    (hu : req.tempid ≠ u) (s : State Id Agent Num)
    : Untouched u s (outcome (enter arith order req s)) := by
  by_cases hassert : asserted req.pos = true
  . obtain ⟨hobj, -, herror, hok⟩ := enter_asserted arith order (s := s) hassert
    constructor
    . rw [hobj]
      exact Function.update_of_ne (Ne.symm hu) ..
    . cases hraises : raises (enter arith order req s) with
      | true => rw [herror hraises]
      | false =>
        obtain ⟨x, y, z, htexts⟩ := hok hraises
        rw [htexts, lastMode_append_update, if_neg hu]
  . unfold enter
    rw [if_neg hassert]
    exact ⟨rfl, rfl⟩

end

theorem leave.tell_alike (tempid k : Id) (s : State Id Agent Num)
    : Alike s (outcome (tell tempid k s)) := by
  unfold tell
  split
  . split
    . exact .refl s
    . exact send_alike ..
  . exact .refl s

theorem leave.visit_alike (tempid k : Id) (monsterlist : List Id) (s : State Id Agent Num)
    : Alike s (outcome (visit tempid k monsterlist s)) := by
  unfold visit
  split
  . have htell := tell_alike tempid k s
    split
    . next e s₁ heq =>
      rw [heq] at htell
      exact htell
    . next s₁ heq =>
      rw [heq] at htell
      split
      . exact htell
      . next s₂ herase => exact htell.trans (eraseView_alike herase)
  . split
    . dsimp only
      split
      . exact .refl s
      . next s₁ herase => exact eraseView_alike herase
    . exact .refl s

theorem leave.depart_alike (order : PairsOrder Id) (type : CharType) (tempid : Id)
    (s : State Id Agent Num) : Alike s (outcome (depart order type tempid s)) := by
  unfold depart
  split
  . exact ⟨rfl, rfl⟩
  . next view _ =>
    have hwalk := forPairs_alike (visit_alike tempid) (order.arrange view.keys) [] s
    split
    . next e s₁ heq =>
      rw [heq] at hwalk
      exact hwalk
    . next monsterlist s₁ heq =>
      rw [heq] at hwalk
      have htold : Alike s₁ (outcome
          (if !monsterlist.isEmpty then
            send .mapagent (.updateaoiinfoLeave tempid monsterlist) s₁
          else
            .ok () s₁)) := by
        split
        . exact send_alike ..
        . exact .refl s₁
      dsimp only
      split
      . next e s₂ heq =>
        rw [heq] at htold
        exact hwalk.trans htold
      . next s₂ heq =>
        rw [heq] at htold
        have htable := setTable_alike s₂ type tempid none
        exact (hwalk.trans htold).trans ⟨htable.obj, htable.texts⟩

theorem leave_cases (order : PairsOrder Id) (type : CharType) (req : Request Id Agent Num)
    (s : State Id Agent Num)
    : writable req.pos = true
          ∧ (∃ x y z, Alike ((s.sendText (.update req.tempid ['d'] x y z)).remove req.tempid)
            (outcome (leave order type req s)))
        ∨ writable req.pos = false ∧ outcome (leave order type req s) = s := by
  unfold leave writable
  cases req.pos.index ['x'] with
  | none => exact .inr ⟨rfl, rfl⟩
  | some x =>
    cases req.pos.index ['y'] with
    | none => exact .inr ⟨rfl, rfl⟩
    | some y =>
      cases req.pos.index ['z'] with
      | none => exact .inr ⟨rfl, rfl⟩
      | some z =>
        dsimp only
        cases x.concatenates && y.concatenates && z.concatenates with
        | true => exact .inl ⟨rfl, x, y, z, leave.depart_alike ..⟩
        | false => exact .inr ⟨rfl, rfl⟩

theorem leave_writable (order : PairsOrder Id) (type : CharType) {req : Request Id Agent Num}
    (hwritable : writable req.pos = true) (s : State Id Agent Num)
    : (outcome (leave order type req s)).OBJ req.tempid = none
        ∧ lastMode (outcome (leave order type req s)).texts req.tempid = some ['d'] := by
  rcases leave_cases order type req s with ⟨-, x, y, z, halike⟩ | ⟨hnot, -⟩
  . constructor
    . rw [halike.obj]
      exact Function.update_self ..
    . rw [halike.texts]
      exact (lastMode_append_update ..).trans (if_pos rfl)
  . rw [hwritable] at hnot
    simp at hnot

theorem leave_untouched (order : PairsOrder Id) (type : CharType) {req : Request Id Agent Num}
    {u : Id} (hu : req.tempid ≠ u) (s : State Id Agent Num)
    : Untouched u s (outcome (leave order type req s)) := by
  rcases leave_cases order type req s with ⟨-, x, y, z, halike⟩ | ⟨-, hsame⟩
  . constructor
    . rw [halike.obj]
      exact Function.update_of_ne (Ne.symm hu) ..
    . rw [halike.texts]
      exact (lastMode_append_update ..).trans (if_neg hu)
  . rw [hsame]
    exact ⟨rfl, rfl⟩

theorem aoicallback_alike (w m : Id) (s : State Id Agent Num)
    : Alike s (outcome (aoicallback w m s)) := by
  have hput : ∀ (s : State Id Agent Num) (type : CharType) (a k : Id),
      Alike s (aoicallback.put s type a k) := by
    intro s type a k
    unfold aoicallback.put
    split
    . exact setTable_alike ..
    . exact setTable_alike ..
  unfold aoicallback
  split
  . exact ((hput ..).trans (hput ..)).trans (sendAll_alike ..)
  . exact .refl s

def Action.about (u : Id) (action : Action Id Agent Num) : Prop :=
  match action with
  | .enter _ req => req.tempid = u
  | .leave _ req => req.tempid = u
  | .enterMonster _ req => req.tempid = u
  | .leaveMonster _ req => req.tempid = u
  | _ => False

theorem handle_untouched (arith : Arith Num) {action : Action Id Agent Num} {u : Id}
    (hu : ¬action.about u) (s : State Id Agent Num)
    : Untouched u s (outcome (handle arith action s)) := by
  cases action with
  | enter order req => exact enter_untouched arith order hu s
  | leave order req => exact leave_untouched order .player hu s
  | enterMonster order req => exact enterMonster_untouched arith order hu s
  | leaveMonster order req => exact leave_untouched order .monster hu s
  | aoicallback w m => exact (aoicallback_alike w m s).untouched u
  | messageUpdate =>
    unfold handle messageUpdate
    dsimp only [outcome]
    split
    . exact ⟨rfl, lastMode_append_message ..⟩
    . exact ⟨rfl, rfl⟩

end Aoi.Raw
