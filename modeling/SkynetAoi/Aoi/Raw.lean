import SkynetAoi.Aoi.Handlers
import SkynetAoi.Lib.Lua

/-!
This module contains `CMD.enter` of the map service `aoi.lua` for the requests of `mainscene.move`,
where the position is whatever the client has sent. An object is a table, the requests come in
tables of their own and `ref` tells them apart. The views are those of `State`.
-/

namespace Aoi.Raw

open Lua (Value Arith)

-- What `lua-seri.c` packs before it raises.
def maxDepth : Nat := 32

structure Obj (Id Agent Num : Type) where
  ref : Nat
  tempid : Id
  agent : Agent
  type : CharType
  mode : List Char
  pos : Value Num

def Obj.depth {Id Agent Num : Type} (obj : Obj Id Agent Num) : Nat :=
  2 + obj.pos.depth

inductive Msg (Id Agent Num : Type) where
  | addaoiobj (obj : Obj Id Agent Num) (reason : Reason Id)
  | addaoiobjMonster (tempid : Id) (obj : Obj Id Agent Num) (reason : Reason Id)
  | delaoiobj (tempid : Id) (reason : Reason Id)
  | updateaoiobj (obj : Obj Id Agent Num)
  | updateaoilist (enterlist : Lists (Obj Id Agent Num)) (leavelist : Lists (Brief Id Agent))
  | updateaoilistMonster (tempid : Id) (enterlist : List (Obj Id Agent Num))
    (leavelist : List (Brief Id Agent))
  | updateaoiinfo (obj : Obj Id Agent Num) (enterlist : List (Obj Id Agent Num))
    (leavelist movelist : List (Brief Id Agent))
  | updateaoiinfoLeave (tempid : Id) (leavelist : List Id)

def Msg.packs {Id Agent Num : Type} (msg : Msg Id Agent Num) : Bool :=
  match msg with
  | .addaoiobj obj _ => obj.depth ≤ maxDepth
  | .addaoiobjMonster _ obj _ => obj.depth ≤ maxDepth
  | .delaoiobj _ _ => true
  | .updateaoiobj obj => obj.depth ≤ maxDepth
  | .updateaoilist enterlist _ =>
    enterlist.playerlist.all (fun other => 2 + other.depth ≤ maxDepth)
      && enterlist.monsterlist.all fun other => 2 + other.depth ≤ maxDepth
  | .updateaoilistMonster _ enterlist _ => enterlist.all fun other => 1 + other.depth ≤ maxDepth
  | .updateaoiinfo obj enterlist _ _ =>
    1 + obj.depth ≤ maxDepth && enterlist.all fun other => 2 + other.depth ≤ maxDepth
  | .updateaoiinfoLeave _ _ => true

-- What `..` makes of the coordinates is left open.
inductive Text (Id Num : Type) where
  | update (id : Id) (mode : List Char) (x y z : Value Num)
  | message

structure State (Id Agent Num : Type) where
  OBJ : Id → Option (Obj Id Agent Num)
  playerview : Id → Option (View Id)
  monsterview : Id → Option (View Id)
  needUpdate : Bool
  texts : List (Text Id Num)
  sent : List (Dest Agent × Msg Id Agent Num)
  refs : Nat
  ref_lt : ∀ k obj, OBJ k = some obj → obj.ref < refs

inductive Raise (Id : Type) where
  | assert
  | watch (k : Id)
  | index
  | arithmetic
  | concat
  | pack
  deriving DecidableEq, Repr

abbrev Result (Id Agent Num α : Type) := EStateM.Result (Raise Id) (State Id Agent Num) α

variable {Id Agent Num : Type}

def outcome {α : Type} (result : Result Id Agent Num α) : State Id Agent Num :=
  match result with
  | .ok _ s => s
  | .error _ s => s

namespace State

def init : State Id Agent Num where
  OBJ := fun _ => none
  playerview := fun _ => none
  monsterview := fun _ => none
  needUpdate := false
  texts := []
  sent := []
  refs := 0
  ref_lt := by simp

def views (s : State Id Agent Num) (type : CharType) : Id → Option (View Id) :=
  match type with
  | .player => s.playerview
  | .monster => s.monsterview

def getView [DecidableEq Id] (s : State Id Agent Num) (type : CharType) (a k : Id) : Option Bool :=
  match s.views type a with
  | none => none
  | some view => view.lookup k

def sendText (s : State Id Agent Num) (text : Text Id Num) : State Id Agent Num :=
  { s with texts := s.texts ++ [text] }

variable [DecidableEq Id]

def setTable (s : State Id Agent Num) (type : CharType) (a : Id) (view : Option (View Id))
    : State Id Agent Num :=
  match type with
  | .player => { s with playerview := Function.update s.playerview a view }
  | .monster => { s with monsterview := Function.update s.monsterview a view }

-- `view[a][k] = v`, which raises without a table for `a`.
def setView (s : State Id Agent Num) (type : CharType) (a k : Id) (v : Bool)
    : Option (State Id Agent Num) :=
  match s.views type a with
  | none => none
  | some view => some (s.setTable type a (some (view.insert k v)))

def newTable (s : State Id Agent Num) : State Id Agent Num :=
  { s with
    refs := s.refs + 1
    ref_lt := fun k obj h => Nat.lt_succ_of_lt (s.ref_lt k obj h)
  }

theorem store_ref_lt (s : State Id Agent Num) (obj : Obj Id Agent Num) (h : obj.ref < s.refs)
    (k : Id) (o : Obj Id Agent Num) (hk : Function.update s.OBJ obj.tempid (some obj) k = some o)
    : o.ref < s.refs := by
  by_cases heq : k = obj.tempid
  . rw [heq, Function.update_self, Option.some.injEq] at hk
    rw [← hk]
    exact h
  . rw [Function.update_of_ne heq] at hk
    exact s.ref_lt k o hk

def store (s : State Id Agent Num) (obj : Obj Id Agent Num) (h : obj.ref < s.refs)
    : State Id Agent Num :=
  { s with
    OBJ := Function.update s.OBJ obj.tempid (some obj)
    ref_lt := s.store_ref_lt obj h
  }

end State

def send (dest : Dest Agent) (msg : Msg Id Agent Num) (s : State Id Agent Num)
    : Result Id Agent Num Unit :=
  if msg.packs then
    .ok () { s with sent := s.sent ++ [(dest, msg)] }
  else
    .error .pack s

def sendAll (msgs : List (Dest Agent × Msg Id Agent Num)) (s : State Id Agent Num)
    : Result Id Agent Num Unit :=
  match msgs with
  | [] => .ok () s
  | (dest, msg) :: msgs =>
    match send dest msg s with
    | .error e s => .error e s
    | .ok () s => sendAll msgs s

def dist2 (arith : Arith Num) (p q : Value Num) : Option Num := do
  let dx ← difference p q ['x']
  let dy ← difference p q ['y']
  let dz ← difference p q ['z']
  return arith.add (arith.add (arith.mul dx dx) (arith.mul dy dy)) (arith.mul dz dz)
where
  difference (p q : Value Num) (name : List Char) : Option Num := do
    let a ← (← p.index name).operand arith
    let b ← (← q.index name).operand arith
    return arith.sub a b

section

variable (arith : Arith Num)

def aoiRadis2 : Num := arith.ofNat (800 * 800)

def leaveAoiRadis2 : Num := arith.ofNat (800 * 800 * 4)

structure PlayerLists (Id Agent Num : Type) where
  leavelist : Lists (Brief Id Agent)
  enterlist : Lists (Obj Id Agent Num)
  movelist : Lists (Brief Id Agent)

variable [DecidableEq Id]

def forPairs {α : Type} (visit : Id → α → State Id Agent Num → Result Id Agent Num α) (ks : List Id)
    (lists : α) (s : State Id Agent Num) : Result Id Agent Num α :=
  match ks with
  | [] => .ok lists s
  | k :: ks =>
    match visit k lists s with
    | .error e s => .error e s
    | .ok lists s => forPairs visit ks lists s

def setBoth {α : Type} (ta tb : CharType) (a k : Id) (v : Bool) (lists : α)
    (s : State Id Agent Num) : Result Id Agent Num α :=
  match s.setView ta a k v with
  | none => .error .index s
  | some s =>
    match s.setView tb k a v with
    | none => .error .index s
    | some s => .ok lists s

def updateviewplayer.visit (viewertempid : Id) (mypos : Value Num) (k : Id)
    (lists : PlayerLists Id Agent Num) (s : State Id Agent Num)
    : Result Id Agent Num (PlayerLists Id Agent Num) :=
  match s.getView .player viewertempid k with
  | none => .ok lists s
  | some v =>
    match s.OBJ k with
    | none => .error (.watch k) s
    | some other =>
      let otherobj := { tempid := other.tempid, agent := other.agent }
      match dist2 arith mypos other.pos with
      | none => .error .arithmetic s
      | some distance =>
        if arith.le distance (aoiRadis2 arith) then
          if !v then
            let lists :=
              { lists with enterlist := inserttotablebytype lists.enterlist other other.type }
            setBoth .player other.type viewertempid k true lists s
          else
            .ok { lists with movelist := inserttotablebytype lists.movelist otherobj other.type } s
        else if arith.lt (aoiRadis2 arith) distance && arith.le distance (leaveAoiRadis2 arith) then
          if v then
            let lists :=
              { lists with leavelist := inserttotablebytype lists.leavelist otherobj other.type }
            setBoth .player other.type viewertempid k false lists s
          else
            .ok lists s
        else
          let lists :=
            if v then
              { lists with leavelist := inserttotablebytype lists.leavelist otherobj other.type }
            else
              lists
          setBoth .player other.type viewertempid k false lists s

def updateviewplayer.messages (viewertempid : Id) (myobj : Obj Id Agent Num)
    (lists : PlayerLists Id Agent Num) : List (Dest Agent × Msg Id Agent Num) :=
  lists.leavelist.playerlist.map (fun v =>
      (Dest.agent v.agent, Msg.delaoiobj viewertempid .updateviewplayer))
    ++ lists.enterlist.playerlist.map (fun v =>
      (Dest.agent v.agent, Msg.addaoiobj myobj .updateviewplayer))
    ++ lists.movelist.playerlist.map (fun v => (Dest.agent v.agent, Msg.updateaoiobj myobj))
    ++ (if !lists.leavelist.monsterlist.isEmpty || !lists.enterlist.monsterlist.isEmpty
          || !lists.movelist.monsterlist.isEmpty then
        [(Dest.mapagent, Msg.updateaoiinfo myobj lists.enterlist.monsterlist
          lists.leavelist.monsterlist lists.movelist.monsterlist)]
      else
        [])
    ++ [(Dest.agent myobj.agent, Msg.updateaoilist lists.enterlist lists.leavelist)]

def updateviewplayer (order : PairsOrder Id) (viewertempid : Id) (s : State Id Agent Num)
    : Result Id Agent Num Unit :=
  match s.playerview viewertempid with
  | none => .ok () s
  | some view =>
    match s.OBJ viewertempid with
    | none => .error .index s
    | some myobj =>
      match forPairs (updateviewplayer.visit arith viewertempid myobj.pos) (order.arrange view.keys)
        ⟨⟨[], []⟩, ⟨[], []⟩, ⟨[], []⟩⟩ s with
      | .error e s => .error e s
      | .ok lists s => sendAll (updateviewplayer.messages viewertempid myobj lists) s

/--
A request of `mainscene.move`. The position has been packed for it as the field of a field.
-/
structure Request (Id Agent Num : Type) where
  tempid : Id
  agent : Agent
  pos : Value Num
  depth_le : 2 + pos.depth ≤ maxDepth

def Request.obj (req : Request Id Agent Num) (ref : Nat) : Obj Id Agent Num where
  ref := ref
  tempid := req.tempid
  agent := req.agent
  type := .player
  mode := ['w', 'm']
  pos := req.pos

def State.received (s : State Id Agent Num) (req : Request Id Agent Num) : State Id Agent Num :=
  s.newTable.store (req.obj s.refs) (Nat.lt_succ_self s.refs)

-- `assert(obj.movement.pos.x)` and so on, on no table at all the indexing raises.
def asserted (pos : Value Num) : Bool :=
  match pos.index ['x'], pos.index ['y'], pos.index ['z'] with
  | some x, some y, some z => x.truthy && y.truthy && z.truthy
  | _, _, _ => false

-- `math.floor(pos.x / 10)`
def scaled (pos : Value Num) (name : List Char) : Option Num := do
  let a ← (← pos.index name).operand arith
  return arith.floor (arith.div a (arith.ofNat 10))

def enter.openView (s : State Id Agent Num) (a : Id) : State Id Agent Num :=
  match s.playerview a with
  | some _ => s
  | none => s.setTable .player a (some ∅)

def enter.report (tempid : Id) (mode : List Char) (pos : Value Num) (s : State Id Agent Num)
    : Result Id Agent Num Unit :=
  let s := enter.openView s tempid
  match scaled arith pos ['x'], scaled arith pos ['y'], scaled arith pos ['z'] with
  | some x, some y, some z =>
    let s := s.sendText (.update tempid mode (.number x) (.number y) (.number z))
    .ok () { s with needUpdate := true }
  | _, _, _ => .error .arithmetic s

def enter (order : PairsOrder Id) (req : Request Id Agent Num) (s : State Id Agent Num)
    : Result Id Agent Num Unit :=
  if asserted req.pos then
    let s := s.received req
    match updateviewplayer arith order req.tempid s with
    | .error e s => .error e s
    | .ok () s => enter.report arith req.tempid ['w', 'm'] req.pos s
  else
    .error .assert s.newTable

end

end Aoi.Raw
