import SkynetAoi.Aoi.Basic
import SkynetAoi.Lib.Python

/-!
This module contains the messages about the view of a player: `agent.lua` packs them for the client,
`on_game_message` of `gamepage.py` applies them to the table of balls. A callback that raises leaves
the page as it was at that point.
-/

namespace Client

open Python

namespace Field

def c : List Char := ['c']
def m : List Char := ['m']
def data : List Char := ['d', 'a', 't', 'a']
def errcode : List Char := ['e', 'r', 'r', 'c', 'o', 'd', 'e']
def obj : List Char := ['o', 'b', 'j']
def reason : List Char := ['r', 'e', 'a', 's', 'o', 'n']
def tempid : List Char := ['t', 'e', 'm', 'p', 'i', 'd']
def agent : List Char := ['a', 'g', 'e', 'n', 't']
def type : List Char := ['t', 'y', 'p', 'e']
def movement : List Char := ['m', 'o', 'v', 'e', 'm', 'e', 'n', 't']
def mode : List Char := ['m', 'o', 'd', 'e']
def pos : List Char := ['p', 'o', 's']
def x : List Char := ['x']
def y : List Char := ['y']
def colors : List Char := ['c', 'o', 'l', 'o', 'r', 's']
def dir : List Char := ['d', 'i', 'r']
def enterlist : List Char := ['e', 'n', 't', 'e', 'r', 'l', 'i', 's', 't']
def leavelist : List Char := ['l', 'e', 'a', 'v', 'e', 'l', 'i', 's', 't']
def playerlist : List Char := ['p', 'l', 'a', 'y', 'e', 'r', 'l', 'i', 's', 't']
def monsterlist : List Char := ['m', 'o', 'n', 's', 't', 'e', 'r', 'l', 'i', 's', 't']

end Field

namespace Word

def user : List Char := ['u', 's', 'e', 'r']
def login : List Char := ['l', 'o', 'g', 'i', 'n']
def aoi : List Char := ['a', 'o', 'i']
def addaoiobj : List Char := ['a', 'd', 'd', 'a', 'o', 'i', 'o', 'b', 'j']
def delaoiobj : List Char := ['d', 'e', 'l', 'a', 'o', 'i', 'o', 'b', 'j']
def updateaoiobj : List Char := ['u', 'p', 'd', 'a', 't', 'e', 'a', 'o', 'i', 'o', 'b', 'j']
def updateaoilist : List Char := ['u', 'p', 'd', 'a', 't', 'e', 'a', 'o', 'i', 'l', 'i', 's', 't']

end Word

-- An object as it is in the map service, where a player has the position that its client has sent.
structure Obj (α : Type) where
  tempid : Int
  agent : Int
  type : Int
  mode : List Char
  pos : α
  colors : Option α
  dir : Option α

abbrev Brief := Aoi.Brief Int Int

inductive Msg (α : Type) where
  | updateaoiobj (obj : Obj α)
  | delaoiobj (tempid : Int) (reason : Option (List Char))
  | addaoiobj (obj : Obj α) (reason : Option (List Char))
  | updateaoilist (enterlist : Aoi.Lists (Obj α)) (leavelist : Aoi.Lists Brief)

section

variable {α : Type} (b : Builder α)

def Obj.value (obj : Obj α) : α :=
  b.dict ([
    (Field.tempid, b.number obj.tempid),
    (Field.agent, b.number obj.agent),
    (Field.type, b.number obj.type),
    (Field.movement, b.dict [(Field.mode, b.str obj.mode), (Field.pos, obj.pos)])
  ] ++ obj.colors.toList.map (fun v => (Field.colors, v))
    ++ obj.dir.toList.map (fun v => (Field.dir, v)))

def briefValue (brief : Brief) : α :=
  b.dict [(Field.tempid, b.number brief.tempid), (Field.agent, b.number brief.agent)]

def listsValue {β : Type} (value : β → α) (lists : Aoi.Lists β) : α :=
  b.dict [
    (Field.playerlist, b.list (lists.playerlist.map value)),
    (Field.monsterlist, b.list (lists.monsterlist.map value))
  ]

def package (m : List Char) (data : List (List Char × α)) : α :=
  b.dict [
    (Field.c, b.str Word.aoi),
    (Field.m, b.str m),
    (Field.data, b.dict ((Field.errcode, b.number 0) :: data))
  ]

def reasonField (reason : Option (List Char)) : List (List Char × α) :=
  reason.toList.map fun s => (Field.reason, b.str s)

-- What the client gets of `send_package`, lists without any entry are not sent.
def sendPackage (msg : Msg α) : Option α :=
  match msg with
  | .updateaoiobj obj => some (package b Word.updateaoiobj [(Field.obj, obj.value b)])
  | .delaoiobj tempid reason =>
    some (package b Word.delaoiobj ((Field.tempid, b.number tempid) :: reasonField b reason))
  | .addaoiobj obj reason =>
    some (package b Word.addaoiobj ((Field.obj, obj.value b) :: reasonField b reason))
  | .updateaoilist enterlist leavelist =>
    if enterlist.playerlist.length > 0 || enterlist.monsterlist.length > 0
        || leavelist.playerlist.length > 0 || leavelist.monsterlist.length > 0 then
      some (package b Word.updateaoilist [
        (Field.enterlist, listsValue b (Obj.value b) enterlist),
        (Field.leavelist, listsValue b (briefValue b) leavelist)
      ])
    else
      none

end

structure Host where
  x : ℚ
  y : ℚ
  radius : ℚ

structure Ball where
  x : Value
  y : Value
  id : Value
  tp : Value
  color : Value
  dir : Value
  showRadius : Int
  positionX : ℚ
  positionY : ℚ

abbrev Balls := Key → Option Ball

structure GamePage where
  balls : Balls
  loginOk : Bool

def maxShowSize : ℚ := 100

-- `int(1000 ** 0.5)`
def enemyRadius : ℚ := 31

-- `int(screen_width / 2)` and `int(screen_height / 2)`
def screenCenter : ℚ × ℚ := (667, 375)

def createEnemy (host : Host) (x y id tp color d : Value) : Except Raise Ball := do
  let color := if color.truthy then color else .list [.number 255, .number 255, .number 255]
  let dx ← x.sub host.x
  let dy ← y.sub host.y
  let large := maxShowSize ≤ host.radius
  let scale := host.radius / maxShowSize
  return {
    x := x
    y := y
    id := id
    tp := tp
    color := color
    dir := d
    showRadius := if large then max 10 (truncate (enemyRadius / scale)) else truncate enemyRadius
    positionX := (if large then (truncate (dx / scale) : ℚ) else dx) + screenCenter.1
    positionY := (if large then (truncate (dy / scale) : ℚ) else dy) + screenCenter.2
  }

-- `shown` is where the colors are looked for.
def newBall (host : Host) (shown : Except Raise Value) (obj tempid movement tp : Value)
    : Except Raise Ball := do
  let c ← (← shown).getOrNone Field.colors
  let d ← obj.getOrNone Field.dir
  let x ← (← movement.index Field.pos).index Field.x
  let y ← (← movement.index Field.pos).index Field.y
  createEnemy host x y tempid tp c d

def addaoiobj (host : Host) (cmd : Value) (balls : Balls) : Except Raise Balls := do
  let obj ← (← cmd.index Field.data).index Field.obj
  let tempid ← obj.index Field.tempid
  let movement ← obj.index Field.movement
  let tp ← obj.index Field.type
  let key ← tempid.key
  if (balls key).isNone then
    let _ ← (← cmd.index Field.data).index Field.reason
    let ball ← newBall host ((cmd.index Field.data).bind (·.index Field.obj)) obj tempid movement tp
    return Function.update balls key (some ball)
  else
    return balls

-- The assignments to the ball are made one after the other.
def updateaoiobj.assign (obj movement : Value) (key : Key) (ball : Ball) (balls : Balls)
    : EStateM.Result Raise Balls Unit :=
  match (movement.index Field.pos).bind fun pos => pos.index Field.x with
  | .error e => .error e balls
  | .ok x =>
    let ball := { ball with x := x }
    let balls := Function.update balls key (some ball)
    match (movement.index Field.pos).bind fun pos => pos.index Field.y with
    | .error e => .error e balls
    | .ok y =>
      let ball := { ball with y := y }
      let balls := Function.update balls key (some ball)
      match obj.contains Field.dir with
      | .error e => .error e balls
      | .ok false => .ok () balls
      | .ok true =>
        match obj.index Field.dir with
        | .error e => .error e balls
        | .ok d => .ok () (Function.update balls key (some { ball with dir := d }))

def updateaoiobj (cmd : Value) (balls : Balls) : EStateM.Result Raise Balls Unit :=
  let read : Except Raise (Value × Value × Key) := do
    let obj ← (← cmd.index Field.data).index Field.obj
    let tempid ← obj.index Field.tempid
    let movement ← obj.index Field.movement
    let _ ← obj.index Field.type
    return (obj, movement, ← tempid.key)
  match read with
  | .error e => .error e balls
  | .ok (obj, movement, key) =>
    match balls key with
    | none => .ok () balls
    | some ball => updateaoiobj.assign obj movement key ball balls

def updateaoilist.enter (host : Host) (cmd obj : Value) (balls : Balls) : Except Raise Balls := do
  let tempid ← obj.index Field.tempid
  let movement ← obj.index Field.movement
  let tp ← obj.index Field.type
  let key ← tempid.key
  if (balls key).isNone then
    let ball ← newBall host ((cmd.index Field.data).bind (·.index Field.obj)) obj tempid movement tp
    return Function.update balls key (some ball)
  else
    return balls

def updateaoilist.leave (obj : Value) (balls : Balls) : Except Raise Balls := do
  let tempid ← obj.index Field.tempid
  let key ← tempid.key
  return Function.update balls key none

def forObjs (visit : Value → Balls → Except Raise Balls) (objs : List Value) (balls : Balls)
    : EStateM.Result Raise Balls Unit :=
  match objs with
  | [] => .ok () balls
  | obj :: objs =>
    match visit obj balls with
    | .error e => .error e balls
    | .ok balls => forObjs visit objs balls

def bothLists (lists : Value) : Except Raise (List Value) := do
  (← lists.index Field.playerlist).concat (← lists.index Field.monsterlist)

def updateaoilist (host : Host) (cmd : Value) (balls : Balls) : EStateM.Result Raise Balls Unit :=
  let read : Except Raise (List Value × Value) := do
    let enterlist ← (← cmd.index Field.data).index Field.enterlist
    let leavelist ← (← cmd.index Field.data).index Field.leavelist
    return (← bothLists enterlist, leavelist)
  match read with
  | .error e => .error e balls
  | .ok (list1, leavelist) =>
    match forObjs (updateaoilist.enter host cmd) list1 balls with
    | .error e balls => .error e balls
    | .ok () balls =>
      match bothLists leavelist with
      | .error e => .error e balls
      | .ok list2 => forObjs updateaoilist.leave list2 balls

def delaoiobj (cmd : Value) (balls : Balls) : Except Raise Balls := do
  let tempid ← (← cmd.index Field.data).index Field.tempid
  let _ ← (← cmd.index Field.data).index Field.reason
  let key ← tempid.key
  return Function.update balls key none

def GamePage.result (page : GamePage) (result : EStateM.Result Raise Balls Unit)
    : EStateM.Result Raise GamePage Unit :=
  match result with
  | .error e balls => .error e { page with balls := balls }
  | .ok () balls => .ok () { page with balls := balls }

def GamePage.read (page : GamePage) (balls : Except Raise Balls)
    : EStateM.Result Raise GamePage Unit :=
  match balls with
  | .error e => .error e page
  | .ok balls => .ok () { page with balls := balls }

def onGameMessage.process (host : Host) (cmd : Value) (page : GamePage)
    : EStateM.Result Raise GamePage Unit :=
  match cmd.index Field.c, cmd.index Field.m with
  | .error e, _ => .error e page
  | _, .error e => .error e page
  | .ok c, .ok m =>
    if c.isStr Word.user && m.isStr Word.login then
      .ok () { page with loginOk := true }
    else if c.isStr Word.aoi then
      if m.isStr Word.addaoiobj then
        page.read (addaoiobj host cmd page.balls)
      else if m.isStr Word.updateaoiobj then
        page.result (updateaoiobj cmd page.balls)
      else if m.isStr Word.updateaoilist then
        page.result (updateaoilist host cmd page.balls)
      else if m.isStr Word.delaoiobj then
        page.read (delaoiobj cmd page.balls)
      else
        .ok () page
    else
      .ok () page

-- `unpackb` is that of the package `msgpack`.
def onGameMessage (unpackb : Packed → Except Raise Value) (host : Host) (message : Packed)
    (page : GamePage) : EStateM.Result Raise GamePage Unit :=
  match unpackb message with
  | .error e => .error e page
  | .ok cmd => onGameMessage.process host cmd page

end Client
