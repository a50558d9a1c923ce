import SkynetAoi.Skynet.Mq
import Mathlib.Logic.Function.Basic

/-!
This module contains `skynet_server.c` with the threads of `skynet_start.c`: how the services come
and go, how messages are pushed to them and how the workers take the queues in turns. A thread is
the stack of the calls it is in, and a step is what it does between two points at which the others
see it. A service, its context and its queue are known by their handle, which is only given to another
service when the queue is gone.
-/

namespace SkynetServer

open SkynetMq

/--
`registered` is whether `skynet_handle_grab` finds the context, `cb` whether it has a callback, `ref` is
its counter.
-/
structure Service where
  registered : Bool
  init : Bool
  cb : Bool
  ref : Nat
  queue : MessageQueue

inductive Frame where
  -- A thread that is no worker: it launches the first services and pushes what it gets from outside.
  | outside
  -- `thread_worker` between two calls of `skynet_context_message_dispatch`.
  | worker (q : Option UInt32)
  | grab (q : UInt32)
  | popNext
  | mqRelease (q : UInt32)
  | drop (q : UInt32)
  | free (q : UInt32)
  | loop (q : UInt32) (i n : Nat)
  | length (q : UInt32) (message : SkynetMessage)
  | trigger (q : UInt32) (i n : Nat) (message : SkynetMessage)
  | dispatch (q : UInt32) (i n : Nat) (message : SkynetMessage)
  | callback (q : UInt32) (i n : Nat)
  | putBack (q : UInt32)
  | pushBack (q nq : UInt32)
  | release (handle : UInt32)
  | markRelease (handle : UInt32)
  | pushGrab (handle : UInt32) (message : SkynetMessage)
  | pushQueue (handle : UInt32) (message : SkynetMessage)
  | retire (handle : UInt32)
  | init (handle : UInt32)
  -- What follows in `skynet_context_new` and in `cmd_launch`.
  | launched (handle : UInt32)
  | setInit (handle : UInt32)
  | globalPush (handle : UInt32)
  | logLaunch (handle : UInt32)
  | readHandle (handle : UInt32)
  | failed (handle : UInt32)

/--
What the code of a service does next, `finish` is its return. Where the server itself writes to the
log, `push` is the message to the logger.
-/
inductive Choice where
  | go
  | push (handle : UInt32) (message : SkynetMessage)
  | retire (handle : UInt32)
  | launch (handle : UInt32)
  | setCallback (cb : Bool)
  | finish (ok : Bool)

/--
`sent`, `handled` and `dropped` are the history of a service since it was launched. A message that was
handled has gone to the callback, or was freed since there was none.
-/
structure Node where
  global : List UInt32
  services : UInt32 → Option Service
  threads : List (List Frame)
  sent : UInt32 → List SkynetMessage
  handled : UInt32 → List (SkynetMessage × Bool)
  dropped : UInt32 → List SkynetMessage

namespace Node

def start (workers others : Nat) : Node where
  global := []
  services := fun _ => none
  threads := List.replicate workers [.worker none] ++ List.replicate others [.outside]
  sent := fun _ => []
  handled := fun _ => []
  dropped := fun _ => []

-- What a pointer to the context leads to, which is freed with the last reference.
def context (node : Node) (handle : UInt32) : Option Service :=
  match node.services handle with
  | none => none
  | some s => if s.ref = 0 then none else some s

def setService (node : Node) (handle : UInt32) (s : Service) : Node :=
  { node with services := Function.update node.services handle (some s) }

def globalmqPop (node : Node) : Option UInt32 × Node :=
  match node.global with
  | [] => (none, node)
  | q :: global => (some q, { node with global := global })

-- `none` is the assertion that the queue is not in the list already.
def globalmqPush (node : Node) (q : UInt32) : Option Node :=
  if node.global.contains q then none else some { node with global := node.global ++ [q] }

def pushIf (node : Node) (flag : Bool) (q : UInt32) : Option Node :=
  if flag then node.globalmqPush q else some node

-- `skynet_handle_grab`, where a context without references would be a dangling pointer.
def handleGrab (node : Node) (handle : UInt32) : Option (Bool × Node) :=
  match node.services handle with
  | none => some (false, node)
  | some s =>
    if s.registered then
      if s.ref = 0 then none else some (true, node.setService handle { s with ref := s.ref + 1 })
    else
      some (false, node)

-- `skynet_handle_register` hands out a handle that no queue has any more.
def launch (node : Node) (handle : UInt32) : Node :=
  let s := { registered := true, init := false, cb := false, ref := 2, queue := skynetMqCreate }
  { node.setService handle s with
    sent := Function.update node.sent handle []
    handled := Function.update node.handled handle []
    dropped := Function.update node.dropped handle []
  }

def errorMessage (source : UInt32) : SkynetMessage where
  source := source
  session := 0
  data := none
  sz := SkynetMessage.ptypeError <<< SkynetMessage.messageTypeShift

def serviceCode (node : Node) (choice : Choice) (self : Frame) : Node × List Frame :=
  match choice with
  | .push handle message => (node, [.pushGrab handle message, self])
  | .retire handle => (node, [.retire handle, self])
  | .launch handle =>
    if handle ≠ 0 ∧ (node.services handle).isNone then
      (node.launch handle, [.init handle, self])
    else
      (node, [self])
  | .go => (node, [self])
  | .setCallback _ => (node, [self])
  | .finish _ => (node, [self])

def ownCode (node : Node) (choice : Choice) (handle : UInt32) (self : Frame)
    : Option (Node × List Frame) :=
  match choice with
  | .setCallback cb =>
    match node.context handle with
    | none => none
    | some s => some (node.setService handle { s with cb := cb }, [self])
  | choice => some (node.serviceCode choice self)

def skynetError (choice : Choice) : List Frame :=
  match choice with
  | .push handle message => [.pushGrab handle message]
  | _ => []

/--
What comes in the place of the frame. `none` is an access to memory that was freed or an assertion
that fails.
-/
def frameStep (weight : Int) (node : Node) (choice : Choice) (frame : Frame)
    : Option (Node × List Frame) :=
  match frame with
  | .outside => some (node.serviceCode choice .outside)
  | .worker (some q) => some (node, [.grab q])
  | .worker none =>
    match node.globalmqPop with
    | (some q, node) => some (node, [.grab q])
    | (none, node) => some (node, [.worker none])
  | .grab q =>
    match node.services q with
    | none => none
    | some _ =>
      match node.handleGrab q with
      | none => none
      | some (true, node) => some (node, [.loop q 0 1])
      | some (false, node) => some (node, [.mqRelease q, .popNext])
  | .popNext =>
    let (q, node) := node.globalmqPop
    some (node, [.worker q])
  | .mqRelease q =>
    match node.services q with
    | none => none
    | some s =>
      if s.queue.release then
        some (node, [.drop q])
      else
        (node.globalmqPush q).map fun node => (node, [])
  | .drop q =>
    match node.services q with
    | none => none
    | some s =>
      match skynetMqPop s.queue with
      | (none, queue) => some (node.setService q { s with queue := queue }, [.free q])
      | (some message, queue) =>
        let node := { node.setService q { s with queue := queue } with
          dropped := Function.update node.dropped q (node.dropped q ++ [message])
        }
        if q = 0 then
          none
        else if message.source = 0 then
          some (node, [.drop q])
        else
          some (node, [.pushGrab message.source (errorMessage q), .drop q])
  | .free q =>
    if (node.services q).isNone ∨ node.global.contains q then
      none
    else
      some ({ node with services := Function.update node.services q none }, [])
  | .loop q i n =>
    if i < n then
      match node.services q with
      | none => none
      | some s =>
        match skynetMqPop s.queue with
        | (none, queue) =>
          some (node.setService q { s with queue := queue }, [.release q, .popNext])
        | (some message, queue) =>
          let node := node.setService q { s with queue := queue }
          if i = 0 ∧ weight ≥ 0 then
            some (node, [.length q message])
          else
            some (node, [.trigger q i n message])
    else
      some (node, [.putBack q])
  | .length q message =>
    match node.services q with
    | none => none
    | some s => some (node, [.trigger q 0 (skynetMqLength s.queue >>> weight.toNat) message])
  | .trigger q i n message =>
    match node.context q with
    | none => none
    | some s =>
      let (overload, queue) := skynetMqOverload s.queue
      let node := node.setService q { s with queue := queue }
      if overload ≠ 0 then
        some (node, skynetError choice ++ [.dispatch q i n message])
      else
        some (node, [.dispatch q i n message])
  | .dispatch q i n message =>
    match node.context q with
    | none => none
    | some s =>
      let node :=
        { node with handled := Function.update node.handled q (node.handled q ++ [(message, s.cb)]) }
      if s.cb then
        if s.init then some (node, [.callback q i n]) else none
      else
        some (node, [.loop q (i + 1) n])
  | .callback q i n =>
    match choice with
    | .finish _ => some (node, [.loop q (i + 1) n])
    | choice => node.ownCode choice q (.callback q i n)
  | .putBack q =>
    match node.context q with
    | none => none
    | some _ =>
      match node.globalmqPop with
      | (some nq, node) => some (node, [.pushBack q nq])
      | (none, node) => some (node, [.release q, .worker (some q)])
  | .pushBack q nq =>
    match node.services q with
    | none => none
    | some _ => (node.globalmqPush q).map fun node => (node, [.release q, .worker (some nq)])
  | .release handle =>
    match node.context handle with
    | none => none
    | some s =>
      some (node.setService handle { s with ref := s.ref - 1 },
        if s.ref = 1 then [.markRelease handle] else [])
  | .markRelease handle =>
    match node.services handle with
    | none => none
    | some s =>
      match skynetMqMarkRelease s.queue with
      | none => none
      | some (flag, queue) =>
        ((node.setService handle { s with queue := queue }).pushIf flag handle).map
          fun node => (node, [])
  | .pushGrab handle message =>
    match node.handleGrab handle with
    | none => none
    | some (true, node) => some (node, [.pushQueue handle message])
    | some (false, node) => some (node, [])
  | .pushQueue handle message =>
    match node.context handle with
    | none => none
    | some s =>
      let (flag, queue) := skynetMqPush s.queue message
      let node := { node.setService handle { s with queue := queue } with
        sent := Function.update node.sent handle (node.sent handle ++ [message])
      }
      (node.pushIf flag handle).map fun node => (node, [.release handle])
  | .retire handle =>
    match node.services handle with
    | none => some (node, [])
    | some s =>
      if s.registered then
        some (node.setService handle { s with registered := false }, [.release handle])
      else
        some (node, [])
  | .init handle =>
    match choice with
    | .finish true => some (node, [.launched handle])
    | .finish false => some (node, [.release handle, .failed handle])
    | choice => node.ownCode choice handle (.init handle)
  | .launched handle =>
    match node.context handle with
    | none => none
    | some s =>
      some (node.setService handle { s with ref := s.ref - 1 },
        if s.ref = 1 then [.markRelease handle, .globalPush handle] else [.setInit handle])
  | .setInit handle =>
    match node.context handle with
    | none => none
    | some s =>
      some (node.setService handle { s with init := true },
        [.globalPush handle, .logLaunch handle, .readHandle handle])
  | .globalPush handle =>
    match node.services handle with
    | none => none
    | some _ => (node.globalmqPush handle).map fun node => (node, [])
  | .logLaunch handle =>
    match node.context handle with
    | none => none
    | some _ => some (node, skynetError choice)
  | .readHandle handle =>
    match node.context handle with
    | none => none
    | some _ => some (node, [])
  | .failed handle =>
    match node.services handle with
    | none => none
    | some s =>
      if s.registered then
        some (node.setService handle { s with registered := false },
          [.release handle, .mqRelease handle])
      else
        some (node, [.mqRelease handle])

def step (weight : Nat → Int) (node : Node) (action : Nat × Choice) : Option Node :=
  match node.threads[action.1]? with
  | some (top :: rest) =>
    match frameStep (weight action.1) node action.2 top with
    | none => none
    | some (node, frames) =>
      some { node with threads := node.threads.set action.1 (frames ++ rest) }
  | _ => some node

end Node

end SkynetServer
