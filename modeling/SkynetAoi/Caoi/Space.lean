import SkynetAoi.Caoi.Map
import SkynetAoi.Lib.Run

/-!
This module contains the operations of the `caoi` service on an `aoi_space`. A computation that uses
a released object, fails an assertion or does not come to an end is `none`. The loops are functions
of their own: `scanMode` reads the roles off a mode string and is `none` if it comes to a `d`,
`flushPair.go` returns the hot pairs it keeps and the pairs it reports. `reviveObject` and
`moveObject` are what `aoi_update` does to an object after the loop over the mode string.
-/

namespace Caoi

def newObject (space : AoiSpace) (id : UInt32) : AoiSpace × Nat :=
  -- The C code leaves `last` and `position` uninitialised, `aoi_update` writes both before they
  -- are read.
  let obj :=
    {
      ref := 1
      id := id
      version := 0
      mode := 0
      last := ⟨0, 0, 0⟩
      position := ⟨0, 0, 0⟩
    }
  let (heap, addr) := space.heap.alloc obj
  ({ space with heap := heap, cookie := space.cookie.alloc sizeofObject }, addr)

def mapQuery (space : AoiSpace) (id : UInt32) : Option (AoiSpace × Nat) :=
  let m := space.object
  match findSlot m id m.size (mainposition m id) with
  | none => none
  | some (some i) =>
    match m.slot[i]? with
    | none => none
    | some s =>
      match s.obj with
      | some obj => some (space, obj)
      | none =>
        let (space, obj) := newObject space id
        some ({ space with object := m.setSlot i { s with obj := some obj } }, obj)
  | some none =>
    let (space, obj) := newObject space id
    match mapInsert insertDepth space.cookie m id obj with
    | none => none
    | some (cookie, m) => some ({ space with cookie := cookie, object := m }, obj)

def grabObject (space : AoiSpace) (addr : Nat) : Option AoiSpace :=
  match space.heap.get addr with
  | none => none
  | some obj =>
    match space.heap.write addr { obj with ref := obj.ref + 1 } with
    | none => none
    | some heap => some { space with heap := heap }

def deleteObject (space : AoiSpace) (addr : Nat) : Option AoiSpace :=
  match space.heap.free addr with
  | none => none
  | some heap => some { space with heap := heap, cookie := space.cookie.free sizeofObject }

def dropObject (space : AoiSpace) (addr : Nat) : Option AoiSpace :=
  match space.heap.get addr with
  | none => none
  | some obj =>
    let obj := { obj with ref := obj.ref - 1 }
    match space.heap.write addr obj with
    | none => none
    | some heap =>
      let space := { space with heap := heap }
      if obj.ref ≤ 0 then
        match mapDrop space.object obj.id with
        | none => none
        | some (m, _) => deleteObject { space with object := m } addr
      else
        some space

def setNew (cookie : AllocCookie) : AllocCookie × ObjectSet :=
  let cookie := cookie.alloc sizeofObjectSet
  (cookie.alloc (preAlloc * sizeofPointer), { cap := preAlloc, slot := [] })

def aoiCreate (cookie : AllocCookie) : AoiSpace :=
  let cookie := cookie.alloc sizeofAoiSpace
  let (cookie, object) := mapNew cookie
  let (cookie, watcherStatic) := setNew cookie
  let (cookie, markerStatic) := setNew cookie
  let (cookie, watcherMove) := setNew cookie
  let (cookie, markerMove) := setNew cookie
  {
    cookie := cookie
    heap := .empty
    object := object
    watcherStatic := watcherStatic
    markerStatic := markerStatic
    watcherMove := watcherMove
    markerMove := markerMove
    hot := []
  }

def caoiCreate : AoiSpace :=
  aoiCreate { count := 0, max := 0, current := 0 }

def deleteAll (space : AoiSpace) (addrs : List Nat) : Option AoiSpace :=
  match addrs with
  | [] => some space
  | addr :: addrs =>
    match deleteObject space addr with
    | none => none
    | some space => deleteAll space addrs

def mapDelete (cookie : AllocCookie) (m : Map) : AllocCookie :=
  let cookie := cookie.free (m.size * sizeofMapSlot)
  cookie.free sizeofMap

def deletePairList (cookie : AllocCookie) (hot : List PairList) : AllocCookie :=
  match hot with
  | [] => cookie
  | _ :: next => deletePairList (cookie.free sizeofPairList) next

def deleteSet (cookie : AllocCookie) (set : ObjectSet) : AllocCookie :=
  let cookie := cookie.free (sizeofPointer * set.cap)
  cookie.free sizeofObjectSet

-- The space is gone, what is left of it is the cookie.
def aoiRelease (space : AoiSpace) : Option AllocCookie :=
  match deleteAll space (mapForeach space.object) with
  | none => none
  | some space =>
    let cookie := mapDelete space.cookie space.object
    let cookie := deletePairList cookie space.hot
    let cookie := deleteSet cookie space.watcherStatic
    let cookie := deleteSet cookie space.markerStatic
    let cookie := deleteSet cookie space.watcherMove
    let cookie := deleteSet cookie space.markerMove
    some (cookie.free sizeofAoiSpace)

def changeMode (mode : Mode) (setWatcher setMarker : Bool) : Mode × Bool :=
  if mode = 0 then
    let mode := if setWatcher then modeWatcher else mode
    let mode := if setMarker then mode ||| modeMarker else mode
    (mode, true)
  else
    let (mode, change) := flag mode false modeWatcher setWatcher
    flag mode change modeMarker setMarker
where
  flag (mode : Mode) (change : Bool) (role : Mode) (set : Bool) : Mode × Bool :=
    if set then
      if mode &&& role = 0 then (mode ||| role, true) else (mode, change)
    else
      if mode &&& role ≠ 0 then (mode &&& ~~~role, true) else (mode, change)

def isNear (p1 p2 : Point) : Bool :=
  Point.dist2 p1 p2 < aoiRadis2 / 4

def dist2 (p1 p2 : Object) : ℚ :=
  Point.dist2 p1.position p2.position

def scanMode (modestring : List Char) (setWatcher setMarker : Bool) : Option (Bool × Bool) :=
  match modestring with
  | [] => some (setWatcher, setMarker)
  | m :: modestring =>
    if m = 'w' then
      scanMode modestring true setMarker
    else if m = 'm' then
      scanMode modestring setWatcher true
    else if m = 'd' then
      none
    else
      scanMode modestring setWatcher setMarker

def reviveObject (obj : Object) : Object :=
  if obj.isDrop then
    { obj with mode := obj.mode &&& ~~~modeDrop, ref := obj.ref + 1 }
  else
    obj

def moveObject (obj : Object) (setWatcher setMarker : Bool) (pos : Point) : Object :=
  let (mode, changed) := changeMode obj.mode setWatcher setMarker
  if changed || !isNear pos obj.last then
    { obj with
      mode := mode ||| modeMove
      position := pos
      last := pos
      version := obj.version + 1
    }
  else
    { obj with mode := mode, position := pos }

def aoiUpdate (space : AoiSpace) (id : UInt32) (modestring : List Char) (pos : Point)
    : Option AoiSpace :=
  match mapQuery space id with
  | none => none
  | some (space, addr) =>
    match space.heap.get addr with
    | none => none
    | some obj =>
      match scanMode modestring false false with
      | none =>
        if obj.isDrop then
          some space
        else
          match space.heap.write addr { obj with mode := modeDrop } with
          | none => none
          | some heap => dropObject { space with heap := heap } addr
      | some (setWatcher, setMarker) =>
        match space.heap.write addr (moveObject (reviveObject obj) setWatcher setMarker pos) with
        | none => none
        | some heap => some { space with heap := heap }

def dropPair (space : AoiSpace) (p : PairList) : Option AoiSpace :=
  match dropObject space p.watcher with
  | none => none
  | some space =>
    match dropObject space p.marker with
    | none => none
    | some space => some { space with cookie := space.cookie.free sizeofPairList }

def flushPair.go (space : AoiSpace) (hot : List PairList)
    : Option (AoiSpace × List PairList × List (UInt32 × UInt32)) :=
  match hot with
  | [] => some (space, [], [])
  | p :: next =>
    match space.heap.get p.watcher, space.heap.get p.marker with
    | some watcher, some marker =>
      if watcher.version ≠ p.watcherVersion
          ∨ marker.version ≠ p.markerVersion
          ∨ watcher.isDrop
          ∨ marker.isDrop then
        match dropPair space p with
        | none => none
        | some space => go space next
      else
        let distance2 := dist2 watcher marker
        if distance2 > leaveAoiRadis then
          match dropPair space p with
          | none => none
          | some space => go space next
        else if distance2 < aoiRadis2 then
          match dropPair space p with
          | none => none
          | some space =>
            match go space next with
            | none => none
            | some (space, kept, cbs) => some (space, kept, (watcher.id, marker.id) :: cbs)
        else
          match go space next with
          | none => none
          | some (space, kept, cbs) => some (space, p :: kept, cbs)
    | _, _ => none

def flushPair (space : AoiSpace) : Option (AoiSpace × List (UInt32 × UInt32)) :=
  match flushPair.go space space.hot with
  | none => none
  | some (space, kept, cbs) => some ({ space with hot := kept }, cbs)

def setPushBack (cookie : AllocCookie) (set : ObjectSet) (addr : Nat) : AllocCookie × ObjectSet :=
  if set.slot.length ≥ set.cap then
    let cap := set.cap * 2
    let cookie := cookie.alloc (cap * sizeofPointer)
    let cookie := cookie.free (set.cap * sizeofPointer)
    (cookie, { cap := cap, slot := set.slot ++ [addr] })
  else
    (cookie, { set with slot := set.slot ++ [addr] })

def setPush (space : AoiSpace) (addr : Nat) : Option AoiSpace :=
  match space.heap.get addr with
  | none => none
  | some obj =>
    let mode := obj.mode
    let space :=
      if mode &&& modeWatcher ≠ 0 then
        if mode &&& modeMove ≠ 0 then
          let (cookie, set) := setPushBack space.cookie space.watcherMove addr
          { space with cookie := cookie, watcherMove := set }
        else
          let (cookie, set) := setPushBack space.cookie space.watcherStatic addr
          { space with cookie := cookie, watcherStatic := set }
      else
        space
    let space :=
      if mode &&& modeMarker ≠ 0 then
        if mode &&& modeMove ≠ 0 then
          let (cookie, set) := setPushBack space.cookie space.markerMove addr
          { space with cookie := cookie, markerMove := set }
        else
          let (cookie, set) := setPushBack space.cookie space.markerStatic addr
          { space with cookie := cookie, markerStatic := set }
      else
        space
    -- The two branches for a moved object clear the same bit, an object without a role keeps it.
    if mode &&& modeMove ≠ 0 ∧ (mode &&& modeWatcher ≠ 0 ∨ mode &&& modeMarker ≠ 0) then
      match space.heap.write addr { obj with mode := mode &&& ~~~modeMove } with
      | none => none
      | some heap => some { space with heap := heap }
    else
      some space

def setPushAll (space : AoiSpace) (addrs : List Nat) : Option AoiSpace :=
  match addrs with
  | [] => some space
  | addr :: addrs =>
    match setPush space addr with
    | none => none
    | some space => setPushAll space addrs

def genPair (space : AoiSpace) (watcher marker : Nat)
    : Option (AoiSpace × List (UInt32 × UInt32)) :=
  if watcher = marker then
    some (space, [])
  else
    match space.heap.get watcher, space.heap.get marker with
    | some w, some m =>
      let distance2 := dist2 w m
      if distance2 < aoiRadis2 then
        some (space, [(w.id, m.id)])
      else if distance2 > leaveAoiRadis then
        some (space, [])
      else
        let p :=
          {
            watcher := watcher
            marker := marker
            watcherVersion := w.version
            markerVersion := m.version
          }
        let space := { space with cookie := space.cookie.alloc sizeofPairList }
        match grabObject space watcher with
        | none => none
        | some space =>
          match grabObject space marker with
          | none => none
          | some space => some ({ space with hot := p :: space.hot }, [])
    | _, _ => none

def genPairList (space : AoiSpace) (watcher marker : ObjectSet)
    : Option (AoiSpace × List (UInt32 × UInt32)) :=
  go space (watcher.slot.flatMap fun w => marker.slot.map fun m => (w, m))
where
  go (space : AoiSpace) (pairs : List (Nat × Nat)) : Option (AoiSpace × List (UInt32 × UInt32)) :=
    match pairs with
    | [] => some (space, [])
    | (w, m) :: pairs =>
      match genPair space w m with
      | none => none
      | some (space, cbs) =>
        match go space pairs with
        | none => none
        | some (space, rest) => some (space, cbs ++ rest)

def aoiMessage (space : AoiSpace) : Option (AoiSpace × List (UInt32 × UInt32)) :=
  match flushPair space with
  | none => none
  | some (space, flushed) =>
    let space :=
      { space with
        watcherStatic := { space.watcherStatic with slot := [] }
        watcherMove := { space.watcherMove with slot := [] }
        markerStatic := { space.markerStatic with slot := [] }
        markerMove := { space.markerMove with slot := [] }
      }
    match setPushAll space (mapForeach space.object) with
    | none => none
    | some space =>
      match genPairList space space.watcherStatic space.markerMove with
      | none => none
      | some (space, cbs1) =>
        match genPairList space space.watcherMove space.markerStatic with
        | none => none
        | some (space, cbs2) =>
          match genPairList space space.watcherMove space.markerMove with
          | none => none
          | some (space, cbs3) => some (space, flushed ++ cbs1 ++ cbs2 ++ cbs3)

inductive Event where
  | update (id : UInt32) (modestring : List Char) (pos : Point)
  | message
  deriving DecidableEq, Repr

def step (space : AoiSpace) (event : Event) : Option (AoiSpace × List (UInt32 × UInt32)) :=
  match event with
  | .update id modestring pos =>
    match aoiUpdate space id modestring pos with
    | none => none
    | some space => some (space, [])
  | .message => aoiMessage space

def silentStep (space : AoiSpace) (event : Event) : Option AoiSpace :=
  match step space event with
  | none => none
  | some (space, _) => some space

def runEvents (events : List Event) : Option AoiSpace :=
  run silentStep caoiCreate events

end Caoi
