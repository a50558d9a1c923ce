import SkynetAoi.Aoi.Basic

/-!
This module contains the handlers of the map service `aoi.lua`. A loop over `pairs` is a walk
over the keys of the table, one step of the walk is the function `visit` of its handler.
-/

namespace Aoi

variable {Id Agent : Type} [DecidableEq Id]

def forPairs {α : Type} (visit : Id → α → State Id Agent → Result Id Agent α) (ks : List Id)
    (lists : α) (s : State Id Agent) : Result Id Agent α :=
  match ks with
  | [] => .ok lists s
  | k :: ks =>
    match visit k lists s with
    | .error e s => .error e s
    | .ok lists s => forPairs visit ks lists s

def setBoth {α : Type} (ta tb : CharType) (a k : Id) (v : Option Bool) (lists : α)
    (s : State Id Agent) : Result Id Agent α :=
  match s.setView ta a k v with
  | none => .error .index s
  | some s =>
    match s.setView tb k a v with
    | none => .error .index s
    | some s => .ok lists s

structure MonsterLists (Id Agent : Type) where
  leavelist : List (Brief Id Agent)
  enterlist : List (Obj Id Agent)
  movelist : List Agent

def updateviewmonster.visit (monstertempid : Id) (mypos : Point) (k : Id)
    (lists : MonsterLists Id Agent) (s : State Id Agent) : Result Id Agent (MonsterLists Id Agent) :=
  match s.getView .monster monstertempid k with
  | none => .ok lists s
  | some v =>
    match s.OBJ k with
    | none => .error .index s
    | some other =>
      let otherobj := { tempid := other.tempid, agent := other.agent }
      let distance := Point.dist2 mypos other.pos
      if distance ≤ aoiRadis2 then
        if !v then
          setBoth .monster .player monstertempid k (some true)
            { lists with enterlist := lists.enterlist ++ [other] } s
        else
          .ok { lists with movelist := lists.movelist ++ [other.agent] } s
      else if aoiRadis2 < distance ∧ distance ≤ leaveAoiRadis2 then
        if v then
          setBoth .monster .player monstertempid k (some false)
            { lists with leavelist := lists.leavelist ++ [otherobj] } s
        else
          .ok lists s
      else
        let lists :=
          if v then { lists with leavelist := lists.leavelist ++ [otherobj] } else lists
        setBoth .monster .player monstertempid k none lists s

def updateviewmonster (order : PairsOrder Id) (monstertempid : Id) (s : State Id Agent)
    : Result Id Agent Unit :=
  match s.monsterview monstertempid with
  | none => .ok () s
  | some view =>
    match s.OBJ monstertempid with
    | none => .error .index s
    | some myobj =>
      match forPairs (updateviewmonster.visit monstertempid myobj.pos) (order.arrange view.keys)
        ⟨[], [], []⟩ s with
      | .error e s => .error e s
      | .ok lists s =>
        let s := s.sendAll (lists.leavelist.map fun v =>
          (.agent v.agent, .delaoiobj myobj.tempid .updateviewmonster))
        let s := s.sendAll (lists.enterlist.map fun v =>
          (.agent v.agent, .addaoiobj myobj .updateviewmonster))
        let s := s.sendAll (lists.movelist.map fun v => (.agent v, .updateaoiobj myobj))
        let s := s.send (.agent myobj.agent)
          (.updateaoilistMonster myobj.tempid lists.enterlist lists.leavelist)
        .ok () s

structure PlayerLists (Id Agent : Type) where
  leavelist : Lists (Brief Id Agent)
  enterlist : Lists (Obj Id Agent)
  movelist : Lists (Brief Id Agent)

def inserttotablebytype {α : Type} (t : Lists α) (v : α) (type : CharType) : Lists α :=
  if type ≠ .player then
    { t with monsterlist := t.monsterlist ++ [v] }
  else
    { t with playerlist := t.playerlist ++ [v] }

def updateviewplayer.visit (viewertempid : Id) (mypos : Point) (k : Id)
    (lists : PlayerLists Id Agent) (s : State Id Agent) : Result Id Agent (PlayerLists Id Agent) :=
  match s.getView .player viewertempid k with
  | none => .ok lists s
  | some v =>
    match s.OBJ k with
    | none => .error (.watch k) s
    | some other =>
      let otherobj := { tempid := other.tempid, agent := other.agent }
      let distance := Point.dist2 mypos other.pos
      if distance ≤ aoiRadis2 then
        if !v then
          let lists :=
            { lists with enterlist := inserttotablebytype lists.enterlist other other.type }
          setBoth .player other.type viewertempid k (some true) lists s
        else
          .ok { lists with movelist := inserttotablebytype lists.movelist otherobj other.type } s
      else if aoiRadis2 < distance ∧ distance ≤ leaveAoiRadis2 then
        if v then
          let lists :=
            { lists with leavelist := inserttotablebytype lists.leavelist otherobj other.type }
          setBoth .player other.type viewertempid k (some false) lists s
        else
          .ok lists s
      else
        let lists :=
          if v then
            { lists with leavelist := inserttotablebytype lists.leavelist otherobj other.type }
          else
            lists
        setBoth .player other.type viewertempid k (some false) lists s

def updateviewplayer (order : PairsOrder Id) (viewertempid : Id) (s : State Id Agent)
    : Result Id Agent Unit :=
  match s.playerview viewertempid with
  | none => .ok () s
  | some view =>
    match s.OBJ viewertempid with
    | none => .error .index s
    | some myobj =>
      match forPairs (updateviewplayer.visit viewertempid myobj.pos) (order.arrange view.keys)
        ⟨⟨[], []⟩, ⟨[], []⟩, ⟨[], []⟩⟩ s with
      | .error e s => .error e s
      | .ok lists s =>
        let s := s.sendAll (lists.leavelist.playerlist.map fun v =>
          (.agent v.agent, .delaoiobj viewertempid .updateviewplayer))
        let s := s.sendAll (lists.enterlist.playerlist.map fun v =>
          (.agent v.agent, .addaoiobj myobj .updateviewplayer))
        let s := s.sendAll (lists.movelist.playerlist.map fun v =>
          (.agent v.agent, .updateaoiobj myobj))
        let s :=
          if !lists.leavelist.monsterlist.isEmpty || !lists.enterlist.monsterlist.isEmpty
              || !lists.movelist.monsterlist.isEmpty then
            s.send .mapagent (.updateaoiinfo myobj lists.enterlist.monsterlist
              lists.leavelist.monsterlist lists.movelist.monsterlist)
          else
            s
        let s := s.send (.agent myobj.agent) (.updateaoilist lists.enterlist lists.leavelist)
        .ok () s

def aoicallback.put (s : State Id Agent) (type : CharType) (a k : Id) : State Id Agent :=
  match s.views type a with
  | none => s.setTable type a (some ((∅ : View Id).insert k true))
  | some view => s.setTable type a (some (view.insert k true))

def aoicallback (w m : Id) (s : State Id Agent) : Result Id Agent Unit :=
  match s.OBJ w, s.OBJ m with
  | some ow, some om =>
    let s := aoicallback.put s ow.type ow.tempid om.tempid
    let s := aoicallback.put s om.type om.tempid ow.tempid
    let s :=
      if ow.type = .player then
        s.send (.agent ow.agent) (.addaoiobj om (.aoicallbackPlayer om.tempid))
      else
        s
    let s :=
      if om.type ≠ .player then
        s.send (.agent om.agent) (.addaoiobjMonster om.tempid ow .aoicallback)
      else
        s
    .ok () s
  | _, _ => .ok () s

def scaled (pos : Point) : Point where
  x := ⌊pos.x / 10⌋
  y := ⌊pos.y / 10⌋
  z := ⌊pos.z / 10⌋

-- `playerview[a] = playerview[a] or {}`
def enter.openView (s : State Id Agent) (a : Id) : State Id Agent :=
  match s.playerview a with
  | some _ => s
  | none => s.setTable .player a (some ∅)

def enter (order : PairsOrder Id) (obj : Obj Id Agent) (s : State Id Agent) : Result Id Agent Unit :=
  let s := { s with OBJ := Function.update s.OBJ obj.tempid (some obj) }
  let updateview :=
    if obj.type ≠ .player then
      updateviewmonster order obj.tempid s
    else
      updateviewplayer order obj.tempid s
  match updateview with
  | .error e s => .error e s
  | .ok () s =>
    let s := enter.openView s obj.tempid
    let s := s.sendText (.update obj.tempid obj.mode (scaled obj.pos))
    .ok () { s with needUpdate := true }

-- The loops over the view of a player and over the one of a monster only differ in what they log.
def leave.visit (tempid : Id) (k : Id) (monsterlist : List Id) (s : State Id Agent)
    : Result Id Agent (List Id) :=
  match s.playerview k with
  | some _ =>
    if s.getView .player k tempid = some true then
      match s.OBJ k with
      | none => .error .index s
      | some other =>
        let s := s.send (.agent other.agent) (.delaoiobj tempid .leave)
        match s.setView .player k tempid none with
        | none => .error .index s
        | some s => .ok monsterlist s
    else
      match s.setView .player k tempid none with
      | none => .error .index s
      | some s => .ok monsterlist s
  | none =>
    match s.monsterview k with
    | some _ =>
      let monsterlist :=
        if s.getView .monster k tempid = some true then monsterlist ++ [k] else monsterlist
      match s.setView .monster k tempid none with
      | none => .error .index s
      | some s => .ok monsterlist s
    | none => .ok monsterlist s

def leave (order : PairsOrder Id) (obj : Obj Id Agent) (s : State Id Agent) : Result Id Agent Unit :=
  let s := s.sendText (.update obj.tempid ['d'] obj.pos)
  let s := { s with OBJ := Function.update s.OBJ obj.tempid none }
  match s.views obj.type obj.tempid with
  | none => .ok () { s with needUpdate := true }
  | some view =>
    match forPairs (leave.visit obj.tempid) (order.arrange view.keys) [] s with
    | .error e s => .error e s
    | .ok monsterlist s =>
      let s :=
        if !monsterlist.isEmpty then
          s.send .mapagent (.updateaoiinfoLeave obj.tempid monsterlist)
        else
          s
      let s := s.setTable obj.type obj.tempid none
      .ok () { s with needUpdate := true }

def messageUpdate (s : State Id Agent) : State Id Agent :=
  if s.needUpdate then
    { s with needUpdate := false }.sendText .message
  else
    s

inductive Action (Id Agent : Type) where
  | enter (order : PairsOrder Id) (obj : Obj Id Agent)
  | leave (order : PairsOrder Id) (obj : Obj Id Agent)
  | aoicallback (w m : Id)
  | messageUpdate

def handle (action : Action Id Agent) (s : State Id Agent) : Result Id Agent Unit :=
  match action with
  | .enter order obj => enter order obj s
  | .leave order obj => leave order obj s
  | .aoicallback w m => aoicallback w m s
  | .messageUpdate => .ok () (messageUpdate s)

def outcome (result : Result Id Agent Unit) : State Id Agent :=
  match result with
  | .ok _ s => s
  | .error _ s => s

-- A request whose handler raises is finished.
def after (actions : List (Action Id Agent)) : State Id Agent :=
  actions.foldl (fun s action => outcome (handle action s)) .init

end Aoi
