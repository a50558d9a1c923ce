import SkynetAoi.Skynet.Message
import Mathlib.Logic.Function.Basic

/-!
This module contains `skynet_timer.c`, the timing wheel of the server. A linked list is the list of
its nodes. The thread of the timer gives its lock back while it dispatches, so an update is a
sequence of steps between which the services set their timeouts.
-/

namespace SkynetTimer

def timeNearShift : UInt32 := 8

def timeNear : UInt32 := 1 <<< timeNearShift

def timeLevelShift : UInt32 := 6

def timeLevel : UInt32 := 1 <<< timeLevelShift

def timeNearMask : UInt32 := timeNear - 1

def timeLevelMask : UInt32 := timeLevel - 1

structure TimerEvent where
  handle : UInt32
  session : Int32
  deriving DecidableEq

structure TimerNode where
  expire : UInt32
  event : TimerEvent
  deriving DecidableEq

structure Timer where
  near : Nat → List TimerNode
  t : Nat → Nat → List TimerNode
  time : UInt32
  current : UInt64
  currentPoint : UInt64

def Timer.linkNear (T : Timer) (idx : Nat) (node : TimerNode) : Timer :=
  { T with near := Function.update T.near idx (T.near idx ++ [node]) }

def Timer.linkLevel (T : Timer) (level idx : Nat) (node : TimerNode) : Timer :=
  { T with t := Function.update T.t level (Function.update (T.t level) idx (T.t level idx ++ [node])) }

def findLevel (time currentTime mask : UInt32) (i rounds : Nat) : Nat :=
  match rounds with
  | 0 => i
  | rounds + 1 =>
    if time ||| (mask - 1) = currentTime ||| (mask - 1) then
      i
    else
      findLevel time currentTime (mask <<< timeLevelShift) (i + 1) rounds

def addNode (T : Timer) (node : TimerNode) : Timer :=
  let time := node.expire
  let currentTime := T.time
  if time ||| timeNearMask = currentTime ||| timeNearMask then
    T.linkNear (time &&& timeNearMask).toNat node
  else
    let i := findLevel time currentTime (timeNear <<< timeLevelShift) 0 3
    let shift := timeNearShift + UInt32.ofNat i * timeLevelShift
    T.linkLevel i ((time >>> shift) &&& timeLevelMask).toNat node

def timerAdd (T : Timer) (event : TimerEvent) (time : Int32) : Timer :=
  addNode T ⟨time.toUInt32 + T.time, event⟩

def moveList (T : Timer) (level idx : Nat) : Timer :=
  let current := T.t level idx
  let T := { T with t := Function.update T.t level (Function.update (T.t level) idx []) }
  current.foldl addNode T

-- The loop of `timer_shift`. There are `levels` left, on the next one it would leave the array.
def shiftLoop (T : Timer) (ct mask time : UInt32) (i levels : Nat) : Option Timer :=
  match levels with
  | 0 => none
  | levels + 1 =>
    if ct &&& (mask - 1) = 0 then
      let idx := (time &&& timeLevelMask).toNat
      if idx ≠ 0 then
        some (moveList T i idx)
      else
        shiftLoop T ct (mask <<< timeLevelShift) (time >>> timeLevelShift) (i + 1) levels
    else
      some T

def timerShift (T : Timer) : Option Timer :=
  let ct := T.time + 1
  let T := { T with time := ct }
  if ct = 0 then
    some (moveList T 3 0)
  else
    shiftLoop T ct timeNear (ct >>> timeNearShift) 0 4

-- What one round of the loop of `timer_execute` takes before it gives the lock back.
def timerExecute (T : Timer) : Option (List TimerNode × Timer) :=
  let idx := (T.time &&& timeNearMask).toNat
  match T.near idx with
  | [] => none
  | current => some (current, { T with near := Function.update T.near idx [] })

def response (session : Int32) : SkynetMessage where
  source := 0
  session := session
  data := none
  sz := SkynetMessage.ptypeResponse <<< SkynetMessage.messageTypeShift

def timerCreateTimer : Timer where
  near := fun _ => []
  t := fun _ _ => []
  time := 0
  current := 0
  currentPoint := 0

-- The clock of the system is read for `cs`, the one that only goes forward for `point`.
def timerInit (cs : UInt32) (point : UInt64) : Timer :=
  { timerCreateTimer with current := cs.toUInt64, currentPoint := point }

def skynetNow (T : Timer) : UInt64 := T.current

/--
What a service gets of `skynet_timeout`, what it pushes to its own queue at once, and the timer.
`found` is whether the handle is registered.
-/
def skynetTimeout (T : Timer) (found : Bool) (handle : UInt32) (time session : Int32)
    : Int32 × List (UInt32 × SkynetMessage) × Timer :=
  if time ≤ 0 then
    if found then (session, [(handle, response session)], T) else (-1, [], T)
  else
    (session, [], timerAdd T ⟨handle, session⟩ time)

def readClock (T : Timer) (cp : UInt64) : Nat × Timer :=
  if cp < T.currentPoint then
    (0, { T with currentPoint := cp })
  else if cp ≠ T.currentPoint then
    let diff := (cp - T.currentPoint).toUInt32
    (diff.toNat, { T with currentPoint := cp, current := T.current + diff.toUInt64 })
  else
    (0, T)

/--
Where the thread of the timer is. It dispatches a list before or after it has shifted the time.
-/
inductive Phase where
  | idle
  | before (current : List TimerNode)
  | after (current : List TimerNode)

structure Asked where
  due : Nat
  event : TimerEvent
  deriving DecidableEq

structure Fired where
  tick : Nat
  handle : UInt32
  message : SkynetMessage
  deriving DecidableEq

/--
The timer with its thread, which has `left` updates to do. `readings`, `ticks`, `asked` and `fired`
are the history of the run.
-/
structure World where
  T : Timer
  left : Nat
  phase : Phase
  direct : List (UInt32 × SkynetMessage)
  readings : List UInt64
  ticks : Nat
  asked : List Asked
  fired : List Fired

def World.init (cs : UInt32) (point : UInt64) : World where
  T := timerInit cs point
  left := 0
  phase := .idle
  direct := []
  readings := []
  ticks := 0
  asked := []
  fired := []

inductive Action where
  | timeout (found : Bool) (handle : UInt32) (time session : Int32)
  | updatetime (cp : UInt64)
  | thread
  deriving DecidableEq

def World.dispatch (w : World) (node : TimerNode) : World :=
  { w with fired := w.fired ++ [⟨w.ticks, node.event.handle, response node.event.session⟩] }

def World.executeAfter (w : World) : World :=
  match timerExecute w.T with
  | some (current, T) => { w with T := T, phase := .after current }
  | none => { w with phase := .idle, left := w.left - 1 }

def World.executeBefore (w : World) : Option World :=
  match timerExecute w.T with
  | some (current, T) => some { w with T := T, phase := .before current }
  | none =>
    match timerShift w.T with
    | none => none
    | some T => some { w with T := T, ticks := w.ticks + 1 }.executeAfter

def World.thread (w : World) : Option World :=
  match w.phase with
  | .idle => if w.left = 0 then some w else w.executeBefore
  | .before [] => w.executeBefore
  | .before (node :: current) => some { w.dispatch node with phase := .before current }
  | .after [] => some w.executeAfter
  | .after (node :: current) => some { w.dispatch node with phase := .after current }

def World.timeout (w : World) (found : Bool) (handle : UInt32) (time session : Int32) : World :=
  let (_, pushed, T) := skynetTimeout w.T found handle time session
  { w with
    T := T
    direct := w.direct ++ pushed
    asked :=
      if time ≤ 0 then
        w.asked
      else
        w.asked ++ [⟨w.ticks + time.toNatClampNeg, ⟨handle, session⟩⟩]
  }

-- The thread reads the clock when it has nothing left to do. Nothing happens at any other time.
def World.updatetime (w : World) (cp : UInt64) : World :=
  match w.phase, w.left with
  | .idle, 0 =>
    let (left, T) := readClock w.T cp
    { w with T := T, left := left, readings := w.readings ++ [cp] }
  | _, _ => w

def step (w : World) (action : Action) : Option World :=
  match action with
  | .timeout found handle time session => some (w.timeout found handle time session)
  | .updatetime cp => some (w.updatetime cp)
  | .thread => w.thread

end SkynetTimer
