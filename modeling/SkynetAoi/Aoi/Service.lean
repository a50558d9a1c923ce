import SkynetAoi.Aoi.Raw

/-!
This module contains the rest of the map service `aoi.lua` over whatever positions it is sent: the
other handlers, and what a request that raises leaves of them.
-/

namespace Aoi.Raw

open Lua (Value Arith)

variable {Id Agent Num : Type}

namespace State

variable [DecidableEq Id]

-- `view[a][k] = nil`
def eraseView (s : State Id Agent Num) (type : CharType) (a k : Id)
    : Option (State Id Agent Num) :=
  match s.views type a with
  | none => none
  | some view => some (s.setTable type a (some (view.erase k)))

omit [DecidableEq Id] in
theorem refs_lt_newTable (s : State Id Agent Num) : s.refs < s.newTable.refs :=
  Nat.lt_succ_self s.refs

theorem remove_ref_lt (s : State Id Agent Num) (tempid : Id) (k : Id) (o : Obj Id Agent Num)
    (hk : Function.update s.OBJ tempid none k = some o) : o.ref < s.refs := by
  by_cases heq : k = tempid
  . rw [heq, Function.update_self] at hk
    simp at hk
  . rw [Function.update_of_ne heq] at hk
    exact s.ref_lt k o hk

def remove (s : State Id Agent Num) (tempid : Id) : State Id Agent Num :=
  { s with
    OBJ := Function.update s.OBJ tempid none
    ref_lt := s.remove_ref_lt tempid
  }

end State

variable [DecidableEq Id]

def eraseBoth {α : Type} (ta tb : CharType) (a k : Id) (lists : α) (s : State Id Agent Num)
    : Result Id Agent Num α :=
  match s.eraseView ta a k with
  | none => .error .index s
  | some s =>
    match s.eraseView tb k a with
    | none => .error .index s
    | some s => .ok lists s

section

variable (arith : Arith Num)

structure MonsterLists (Id Agent Num : Type) where
  leavelist : List (Brief Id Agent)
  enterlist : List (Obj Id Agent Num)
  movelist : List Agent

def updateviewmonster.visit (monstertempid : Id) (mypos : Value Num) (k : Id)
    (lists : MonsterLists Id Agent Num) (s : State Id Agent Num)
    : Result Id Agent Num (MonsterLists Id Agent Num) :=
  match s.getView .monster monstertempid k with
  | none => .ok lists s
  | some v =>
    match s.OBJ k with
    | none => .error .index s
    | some other =>
      let otherobj := { tempid := other.tempid, agent := other.agent }
      match dist2 arith mypos other.pos with
      | none => .error .arithmetic s
      | some distance =>
        if arith.le distance (aoiRadis2 arith) then
          if !v then
            setBoth .monster .player monstertempid k true
              { lists with enterlist := lists.enterlist ++ [other] } s
          else
            .ok { lists with movelist := lists.movelist ++ [other.agent] } s
        else if arith.lt (aoiRadis2 arith) distance && arith.le distance (leaveAoiRadis2 arith) then
          if v then
            setBoth .monster .player monstertempid k false
              { lists with leavelist := lists.leavelist ++ [otherobj] } s
          else
            .ok lists s
        else
          let lists :=
            if v then { lists with leavelist := lists.leavelist ++ [otherobj] } else lists
          eraseBoth .monster .player monstertempid k lists s

def updateviewmonster.messages (myobj : Obj Id Agent Num) (lists : MonsterLists Id Agent Num)
    : List (Dest Agent × Msg Id Agent Num) :=
  lists.leavelist.map (fun v =>
      (Dest.agent v.agent, Msg.delaoiobj myobj.tempid .updateviewmonster))
    ++ lists.enterlist.map (fun v =>
      (Dest.agent v.agent, Msg.addaoiobj myobj .updateviewmonster))
    ++ lists.movelist.map (fun v => (Dest.agent v, Msg.updateaoiobj myobj))
    ++ [(Dest.agent myobj.agent,
      Msg.updateaoilistMonster myobj.tempid lists.enterlist lists.leavelist)]

def updateviewmonster (order : PairsOrder Id) (monstertempid : Id) (s : State Id Agent Num)
    : Result Id Agent Num Unit :=
  match s.monsterview monstertempid with
  | none => .ok () s
  | some view =>
    match s.OBJ monstertempid with
    | none => .error .index s
    | some myobj =>
      match forPairs (updateviewmonster.visit arith monstertempid myobj.pos)
        (order.arrange view.keys) ⟨[], [], []⟩ s with
      | .error e s => .error e s
      | .ok lists s => sendAll (updateviewmonster.messages myobj lists) s

structure Monster (Id Agent Num : Type) extends Request Id Agent Num where
  mode : List Char

def Monster.obj (req : Monster Id Agent Num) (ref : Nat) : Obj Id Agent Num where
  ref := ref
  tempid := req.tempid
  agent := req.agent
  type := .monster
  mode := req.mode
  pos := req.pos

def enterMonster (order : PairsOrder Id) (req : Monster Id Agent Num) (s : State Id Agent Num)
    : Result Id Agent Num Unit :=
  if asserted req.pos then
    let s := s.newTable.store (req.obj s.refs) s.refs_lt_newTable
    match updateviewmonster arith order req.tempid s with
    | .error e s => .error e s
    | .ok () s => enter.report arith req.tempid req.mode req.pos s
  else
    .error .assert s.newTable

end

def aoicallback.put (s : State Id Agent Num) (type : CharType) (a k : Id)
    : State Id Agent Num :=
  match s.views type a with
  | none => s.setTable type a (some ((∅ : View Id).insert k true))
  | some view => s.setTable type a (some (view.insert k true))

def aoicallback.messages (ow om : Obj Id Agent Num) : List (Dest Agent × Msg Id Agent Num) :=
  (if ow.type = .player then
      [(Dest.agent ow.agent, Msg.addaoiobj om (.aoicallbackPlayer om.tempid))]
    else
      [])
    ++ (if om.type ≠ .player then
      [(Dest.agent om.agent, Msg.addaoiobjMonster om.tempid ow .aoicallback)]
    else
      [])

def aoicallback (w m : Id) (s : State Id Agent Num) : Result Id Agent Num Unit :=
  match s.OBJ w, s.OBJ m with
  | some ow, some om =>
    let s := aoicallback.put s ow.type ow.tempid om.tempid
    let s := aoicallback.put s om.type om.tempid ow.tempid
    sendAll (aoicallback.messages ow om) s
  | _, _ => .ok () s

def leave.tell (tempid : Id) (k : Id) (s : State Id Agent Num) : Result Id Agent Num Unit :=
  if s.getView .player k tempid = some true then
    match s.OBJ k with
    | none => .error .index s
    | some other => send (.agent other.agent) (.delaoiobj tempid .leave) s
  else
    .ok () s

def leave.visit (tempid : Id) (k : Id) (monsterlist : List Id) (s : State Id Agent Num)
    : Result Id Agent Num (List Id) :=
  match s.playerview k with
  | some _ =>
    match leave.tell tempid k s with
    | .error e s => .error e s
    | .ok () s =>
      match s.eraseView .player k tempid with
      | none => .error .index s
      | some s => .ok monsterlist s
  | none =>
    match s.monsterview k with
    | some _ =>
      let monsterlist :=
        if s.getView .monster k tempid = some true then monsterlist ++ [k] else monsterlist
      match s.eraseView .monster k tempid with
      | none => .error .index s
      | some s => .ok monsterlist s
    | none => .ok monsterlist s

def leave.depart (order : PairsOrder Id) (type : CharType) (tempid : Id) (s : State Id Agent Num)
    : Result Id Agent Num Unit :=
  match s.views type tempid with
  | none => .ok () { s with needUpdate := true }
  | some view =>
    match forPairs (leave.visit tempid) (order.arrange view.keys) [] s with
    | .error e s => .error e s
    | .ok monsterlist s =>
      let told : Result Id Agent Num Unit :=
        if !monsterlist.isEmpty then
          send .mapagent (.updateaoiinfoLeave tempid monsterlist) s
        else
          .ok () s
      match told with
      | .error e s => .error e s
      | .ok () s => .ok () { s.setTable type tempid none with needUpdate := true }

-- The text comes first, it raises unless the coordinates can be written.
def leave (order : PairsOrder Id) (type : CharType) (req : Request Id Agent Num)
    (s : State Id Agent Num) : Result Id Agent Num Unit :=
  match req.pos.index ['x'], req.pos.index ['y'], req.pos.index ['z'] with
  | some x, some y, some z =>
    if x.concatenates && y.concatenates && z.concatenates then
      let s := s.sendText (.update req.tempid ['d'] x y z)
      leave.depart order type req.tempid (s.remove req.tempid)
    else
      .error .concat s
  | _, _, _ => .error .index s

def messageUpdate (s : State Id Agent Num) : State Id Agent Num :=
  if s.needUpdate then
    { s with needUpdate := false }.sendText .message
  else
    s

inductive Action (Id Agent Num : Type) where
  | enter (order : PairsOrder Id) (req : Request Id Agent Num)
  | leave (order : PairsOrder Id) (req : Request Id Agent Num)
  | enterMonster (order : PairsOrder Id) (req : Monster Id Agent Num)
  | leaveMonster (order : PairsOrder Id) (req : Monster Id Agent Num)
  | aoicallback (w m : Id)
  | messageUpdate

def handle (arith : Arith Num) (action : Action Id Agent Num) (s : State Id Agent Num)
    : Result Id Agent Num Unit :=
  match action with
  | .enter order req => enter arith order req s
  | .leave order req => leave order .player req s
  | .enterMonster order req => enterMonster arith order req s
  | .leaveMonster order req => leave order .monster req.toRequest s
  | .aoicallback w m => aoicallback w m s
  | .messageUpdate => .ok () (messageUpdate s)

end Aoi.Raw
