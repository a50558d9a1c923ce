import Mathlib.Logic.Function.Basic
import SkynetAoi.Lib.Bytes

/-!
This module contains the part of `redisd.lua` that gives the users their ids. A call is suspended at
every command that it sends to redis, and redis executes one command after the other. The keys of the
users, the counter and the hashes of the users are all in one table.
-/

namespace Redisd

inductive Entry where
  | number (n : Nat)
  | hash
  deriving DecidableEq, Repr

structure Pair where
  server : Bytes
  user : Bytes
  deriving DecidableEq, Repr

def Pair.key (pair : Pair) : Bytes :=
  pair.server ++ [':'.toUInt8] ++ pair.user

def userId : Bytes := ['u', 's', 'e', 'r', '_', 'i', 'd'].map Char.toUInt8

def acceptedCode : Bytes := ['1', '2', '3', '4', '5', '6'].map Char.toUInt8

-- The command that a call waits for, a call of `loadid` sends only the first one.
inductive Stage where
  | get
  | incrby
  | set (id : Nat)
  deriving DecidableEq, Repr

structure Call where
  pair : Pair
  checks : Bool
  stage : Stage
  deriving DecidableEq, Repr

-- The last field is kept for the specification only: the ids that were returned, and for whom.
structure State where
  redis : Bytes → Option Entry
  calls : List Call
  returned : List (Pair × Nat)

namespace State

def init (hashes : Bytes → Bool) : State where
  redis := fun k =>
    if k = userId then some (.number 1000000) else if hashes k then some .hash else none
  calls := []
  returned := []

def drop (s : State) (n : Nat) : State :=
  { s with calls := s.calls.eraseIdx n }

def ret (s : State) (n : Nat) (call : Call) (id : Nat) : State :=
  { s.drop n with returned := s.returned ++ [(call.pair, id)] }

def advance (s : State) (n : Nat) (call : Call) (stage : Stage) : State :=
  { s with calls := s.calls.set n { call with stage := stage } }

def put (s : State) (k : Bytes) (id : Nat) : State :=
  { s with redis := Function.update s.redis k (some (.number id)) }

end State

def checkuser (pair : Pair) (code : Bytes) (s : State) : State :=
  if code = acceptedCode then { s with calls := s.calls ++ [⟨pair, true, .get⟩] } else s

def loadid (pair : Pair) (s : State) : State :=
  { s with calls := s.calls ++ [⟨pair, false, .get⟩] }

-- Commands on an entry of the wrong type raise.
def get (n : Nat) (call : Call) (s : State) : State :=
  match s.redis call.pair.key with
  | some (.number id) => s.ret n call id
  | some .hash => s.drop n
  | none => if call.checks then s.advance n call .incrby else s.drop n

def incrby (n : Nat) (call : Call) (s : State) : State :=
  match s.redis userId with
  | some (.number c) => (s.put userId (c + 1)).advance n call (.set (c + 1))
  | some .hash => s.drop n
  | none => (s.put userId 1).advance n call (.set 1)

def exec (n : Nat) (s : State) : State :=
  match s.calls[n]? with
  | none => s
  | some call =>
    match call.stage with
    | .get => get n call s
    | .incrby => incrby n call s
    | .set id => (s.put call.pair.key id).ret n call id

inductive Action where
  | checkuser (pair : Pair) (code : Bytes)
  | loadid (pair : Pair)
  | exec (n : Nat)
  deriving DecidableEq, Repr

def step (s : State) (action : Action) : State :=
  match action with
  | .checkuser pair code => checkuser pair code s
  | .loadid pair => loadid pair s
  | .exec n => exec n s

def after (hashes : Bytes → Bool) (actions : List Action) : State :=
  actions.foldl step (.init hashes)

end Redisd
