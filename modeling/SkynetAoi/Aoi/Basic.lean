import Mathlib.Data.List.AList
import SkynetAoi.Lib.Pairs
import SkynetAoi.Lib.Point

/-!
This module contains the data model of the map service `aoi.lua`: the objects it is told about, its
tables, the texts it sends to the `caoi` service and the notifications it sends to the agents. Ids
and agents are any types. The table of one view is an `AList`, the order in which `pairs` walks it
is a parameter of every walk. A handler that raises leaves the state as it was at that point.
-/

namespace Aoi

def aoiRadis : ℚ := 800

def aoiRadis2 : ℚ := aoiRadis * aoiRadis

def leaveAoiRadis2 : ℚ := aoiRadis2 * 4

inductive CharType where
  | player
  | monster
  deriving DecidableEq, Repr

structure Obj (Id Agent : Type) where
  tempid : Id
  agent : Agent
  type : CharType
  mode : List Char
  pos : Point
  deriving DecidableEq, Repr

structure Brief (Id Agent : Type) where
  tempid : Id
  agent : Agent
  deriving DecidableEq, Repr

structure Lists (α : Type) where
  playerlist : List α
  monsterlist : List α
  deriving DecidableEq, Repr

inductive Reason (Id : Type) where
  | updateviewmonster
  | updateviewplayer
  | aoicallbackPlayer (tempid : Id)
  | aoicallback
  | leave
  deriving DecidableEq, Repr

/--
The notifications. A monster shares its agent with others, what goes there starts with the id of the
monster.
-/
inductive Msg (Id Agent : Type) where
  | addaoiobj (obj : Obj Id Agent) (reason : Reason Id)
  | addaoiobjMonster (tempid : Id) (obj : Obj Id Agent) (reason : Reason Id)
  | delaoiobj (tempid : Id) (reason : Reason Id)
  | updateaoiobj (obj : Obj Id Agent)
  | updateaoilist (enterlist : Lists (Obj Id Agent)) (leavelist : Lists (Brief Id Agent))
  | updateaoilistMonster (tempid : Id) (enterlist : List (Obj Id Agent))
    (leavelist : List (Brief Id Agent))
  | updateaoiinfo (obj : Obj Id Agent) (enterlist : List (Obj Id Agent))
    (leavelist movelist : List (Brief Id Agent))
  | updateaoiinfoLeave (tempid : Id) (leavelist : List Id)
  deriving DecidableEq, Repr

inductive Dest (Agent : Type) where
  | agent (agent : Agent)
  | mapagent
  deriving DecidableEq, Repr

inductive Text (Id : Type) where
  | update (id : Id) (mode : List Char) (pos : Point)
  | message
  deriving DecidableEq, Repr

abbrev View (Id : Type) := AList fun (_ : Id) => Bool

structure State (Id Agent : Type) where
  OBJ : Id → Option (Obj Id Agent)
  playerview : Id → Option (View Id)
  monsterview : Id → Option (View Id)
  needUpdate : Bool
  texts : List (Text Id)
  sent : List (Dest Agent × Msg Id Agent)

inductive Raise (Id : Type) where
  | watch (k : Id)
  | index
  deriving DecidableEq, Repr

abbrev Result (Id Agent α : Type) := EStateM.Result (Raise Id) (State Id Agent) α

namespace State

variable {Id Agent : Type}

def init : State Id Agent where
  OBJ := fun _ => none
  playerview := fun _ => none
  monsterview := fun _ => none
  needUpdate := false
  texts := []
  sent := []

def send (s : State Id Agent) (dest : Dest Agent) (msg : Msg Id Agent) : State Id Agent :=
  { s with sent := s.sent ++ [(dest, msg)] }

def sendAll (s : State Id Agent) (msgs : List (Dest Agent × Msg Id Agent)) : State Id Agent :=
  { s with sent := s.sent ++ msgs }

def sendText (s : State Id Agent) (text : Text Id) : State Id Agent :=
  { s with texts := s.texts ++ [text] }

variable [DecidableEq Id]

def views (s : State Id Agent) (type : CharType) : Id → Option (View Id) :=
  match type with
  | .player => s.playerview
  | .monster => s.monsterview

def setTable (s : State Id Agent) (type : CharType) (a : Id) (view : Option (View Id))
    : State Id Agent :=
  match type with
  | .player => { s with playerview := Function.update s.playerview a view }
  | .monster => { s with monsterview := Function.update s.monsterview a view }

-- `view[a][k] = v`, which raises without a table for `a`.
def setView (s : State Id Agent) (type : CharType) (a k : Id) (v : Option Bool)
    : Option (State Id Agent) :=
  match s.views type a with
  | none => none
  | some view =>
    match v with
    | some flag => some (s.setTable type a (some (view.insert k flag)))
    | none => some (s.setTable type a (some (view.erase k)))

def getView (s : State Id Agent) (type : CharType) (a k : Id) : Option Bool :=
  match s.views type a with
  | none => none
  | some view => view.lookup k

end State

end Aoi
