import SkynetAoi.Aoi.Service
import SkynetAoi.Watchdog.Basic

/-!
This module contains the agents of `agent.lua` between the watchdog and the map service. Each of the
services handles the messages in its mailbox in their order, and any of them can be the next to do
so. `loadid` is what the `redisd` service answers for a user, the gate hands the packets of a client
to its agent. The positions are whatever the clients send.
-/

namespace Game

open Lua (Value Arith)

inductive Letter (Fd Num : Type) where
  | start (client : Fd) (uid : Bytes)
  | move (pos : Value Num)
  | disconnect

/--
How far `CMD.disconnect` has come: it waits until the watchdog has handled `close`, it has the answer
on the way, or it has called the `leave` of the map service.
-/
inductive Stage where
  | serving
  | closing
  | closed
  | left
  deriving DecidableEq, Repr

structure Agent (Id Fd Num : Type) where
  UID : Option Id
  POS : Value Num
  clientFd : Option Fd
  stage : Stage
  mailbox : List (Letter Fd Num)

/--
The requests to the map service. The `leave` of an agent without a user raises at once.
-/
inductive Request (Id Num : Type) where
  | proper (action : Aoi.Raw.Action Id Nat Num)
  | leaveNobody (agent : Nat)

end Game

-- The last field is kept for the specification only: the requests that were handled.
structure Game (Id Fd Num : Type) where
  watchdog : Watchdog.State Fd
  agents : Nat → Game.Agent Id Fd Num
  mail : List (Game.Request Id Num)
  aoi : Aoi.Raw.State Id Nat Num
  log : List (Game.Request Id Num)

namespace Game

open Lua (Value Arith)

variable {Id Fd Num : Type}

def init : Game Id Fd Num where
  watchdog := .init
  agents := fun _ => ⟨none, .nil, none, .serving, []⟩
  mail := []
  aoi := .init
  log := []

def post (s : Game Id Fd Num) (request : Request Id Num) : Game Id Fd Num :=
  { s with mail := s.mail ++ [request] }

def setAgent (s : Game Id Fd Num) (a : Nat) (agent : Agent Id Fd Num) : Game Id Fd Num :=
  { s with agents := Function.update s.agents a agent }

def deliver (agents : Nat → Agent Id Fd Num) (msg : Watchdog.Msg Fd) : Nat → Agent Id Fd Num :=
  match msg with
  | .start a client uid =>
    let agent := agents a
    Function.update agents a { agent with mailbox := agent.mailbox ++ [.start client uid] }
  | .disconnect a =>
    let agent := agents a
    Function.update agents a { agent with mailbox := agent.mailbox ++ [.disconnect] }
  | _ => agents

-- The position is kept before `skynet.call` packs it, which can raise.
def move (order : PairsOrder Id) (a : Nat) (pos : Value Num) (s : Game Id Fd Num)
    : Game Id Fd Num :=
  let agent := s.agents a
  match agent.UID with
  | some tempid =>
    let s := s.setAgent a { agent with POS := pos }
    if h : 2 + pos.depth ≤ Aoi.Raw.maxDepth then
      s.post (.proper (.enter order { tempid := tempid, agent := a, pos := pos, depth_le := h }))
    else
      s
  | none => s

def dispatch (loadid : Bytes → Id) (order : PairsOrder Id) (a : Nat) (letter : Letter Fd Num)
    (s : Game Id Fd Num) : Game Id Fd Num :=
  let agent := s.agents a
  match letter with
  | .start client uid =>
    s.setAgent a { agent with UID := some (loadid uid), clientFd := some client }
  | .move pos => move order a pos s
  | .disconnect => s.setAgent a { agent with stage := .closing }

def recv (loadid : Bytes → Id) (order : PairsOrder Id) (a : Nat) (s : Game Id Fd Num)
    : Game Id Fd Num :=
  let agent := s.agents a
  match agent.mailbox with
  | [] => s
  | letter :: mailbox =>
    dispatch loadid order a letter (s.setAgent a { agent with mailbox := mailbox })

def leaveRequest (order : PairsOrder Id) (a : Nat) (agent : Agent Id Fd Num)
    : Option (Request Id Num) :=
  if h : 2 + agent.POS.depth ≤ Aoi.Raw.maxDepth then
    match agent.UID with
    | some tempid =>
      some (.proper (.leave order
        { tempid := tempid, agent := a, pos := agent.POS, depth_le := h }))
    | none => some (.leaveNobody a)
  else
    none

def answer (order : PairsOrder Id) (a : Nat) (s : Game Id Fd Num) : Game Id Fd Num :=
  let agent := s.agents a
  if agent.stage = .closed then
    let s := s.setAgent a { agent with stage := .left }
    match leaveRequest order a agent with
    | some request => s.post request
    | none => s
  else
    s

variable [DecidableEq Fd]

-- A packet that the gate redirects, which it does until the watchdog has had the client kicked.
def redirect (s : Game Id Fd Num) (a : Nat) (pos : Value Num) : Game Id Fd Num :=
  let agent := s.agents a
  if agent.UID.isSome ∧ .disconnect a ∉ s.watchdog.sent then
    s.setAgent a { agent with mailbox := agent.mailbox ++ [.move pos] }
  else
    s

def watch (config : Watchdog.Config) (action : Watchdog.Action Fd) (s : Game Id Fd Num) : Game Id Fd Num :=
  let watchdog := Watchdog.step config s.watchdog action
  { s with
    watchdog := watchdog
    agents := (watchdog.sent.drop s.watchdog.sent.length).foldl deliver s.agents
  }

def close (config : Watchdog.Config) (a : Nat) (s : Game Id Fd Num) : Game Id Fd Num :=
  let agent := s.agents a
  match agent.stage, agent.clientFd with
  | .closing, some fd => watch config (.close fd) (s.setAgent a { agent with stage := .closed })
  | _, _ => s

variable [DecidableEq Id]

variable (arith : Arith Num)

def Request.handle (s : Aoi.Raw.State Id Nat Num) (request : Request Id Num)
    : Aoi.Raw.State Id Nat Num :=
  match request with
  | .proper action => Aoi.Raw.outcome (Aoi.Raw.handle arith action s)
  | .leaveNobody _ => s

def handle (s : Game Id Fd Num) : Game Id Fd Num :=
  match s.mail with
  | [] => s
  | request :: mail =>
    { s with
      mail := mail
      aoi := Request.handle arith s.aoi request
      log := s.log ++ [request]
    }

inductive Action (Id Fd Num : Type) where
  | watchdog (action : Watchdog.Action Fd)
  | redirect (a : Nat) (pos : Value Num)
  | recv (order : PairsOrder Id) (a : Nat)
  | close (a : Nat)
  | answer (order : PairsOrder Id) (a : Nat)
  | handle
  | enterMonster (order : PairsOrder Id) (req : Aoi.Raw.Monster Id Nat Num)
  | leaveMonster (order : PairsOrder Id) (req : Aoi.Raw.Monster Id Nat Num)
  | aoicallback (w m : Id)
  | messageUpdate

def step (config : Watchdog.Config) (loadid : Bytes → Id) (s : Game Id Fd Num)
    (action : Action Id Fd Num) : Game Id Fd Num :=
  match action with
  | .watchdog action => watch config action s
  | .redirect a pos => s.redirect a pos
  | .recv order a => recv loadid order a s
  | .close a => close config a s
  | .answer order a => answer order a s
  | .handle => s.handle arith
  | .enterMonster order req => s.post (.proper (.enterMonster order req))
  | .leaveMonster order req => s.post (.proper (.leaveMonster order req))
  | .aoicallback w m => s.post (.proper (.aoicallback w m))
  | .messageUpdate => s.post (.proper .messageUpdate)

def after (config : Watchdog.Config) (loadid : Bytes → Id) (actions : List (Action Id Fd Num))
    : Game Id Fd Num :=
  actions.foldl (step arith config loadid) .init

end Game
