import SkynetAoi.Caoi.Basic

/-!
This module contains the object map of the `caoi` service, a hash table that chains its collisions
through its own slots. A computation that follows a wrong index, fails an assertion or does not come
to an end is `none`. The loops are functions of their own: `findSlot` is the walk of `map_query` and
`map_drop` along a chain, `findLast` the walk of `map_insert` to the predecessor of a slot with its
assertion, `takeFree` the walk of `lastfree` to a free slot.
-/

namespace Caoi

def emptySlot : MapSlot where
  id := invalidId
  obj := none
  next := -1

def mainposition (m : Map) (id : UInt32) : Nat :=
  id.toNat &&& (m.size - 1)

def Map.setSlot (m : Map) (i : Nat) (s : MapSlot) : Map :=
  { m with slot := m.slot.set i s }

def findSlot (m : Map) (id : UInt32) (fuel : Nat) (i : Nat) : Option (Option Nat) :=
  match fuel with
  | 0 => none
  | fuel + 1 =>
    match m.slot[i]? with
    | none => none
    | some s =>
      if s.id = id then
        some (some i)
      else if s.next < 0 then
        some none
      else
        findSlot m id fuel s.next.toNat

def findLast (m : Map) (target : Nat) (fuel : Nat) (last : Nat) : Option Nat :=
  match fuel with
  | 0 => none
  | fuel + 1 =>
    match m.slot[last]? with
    | none => none
    | some s =>
      if s.next = target then
        some last
      else if s.next < 0 then
        none
      else
        findLast m target fuel s.next.toNat

def takeFree (m : Map) (n : Nat) : Option (Option Nat × Int) :=
  match n with
  | 0 => some (none, -1)
  | n + 1 =>
    match m.slot[n]? with
    | none => none
    | some temp =>
      if temp.id = invalidId then
        some (some n, (n : Int) - 1)
      else
        takeFree m n

-- `map_insert` and `rehash` call each other, here `rehash` gets the insertion as an argument.
def rehash (mapInsert : AllocCookie → Map → UInt32 → Nat → Option (AllocCookie × Map))
    (cookie : AllocCookie) (m : Map) : Option (AllocCookie × Map) :=
  let oldSlot := m.slot
  let oldSize := m.size
  let size := 2 * oldSize
  let cookie := cookie.alloc (size * sizeofMapSlot)
  let m := { size := size, lastfree := (size : Int) - 1, slot := List.replicate size emptySlot }
  match go oldSlot cookie m with
  | none => none
  | some (cookie, m) => some (cookie.free (oldSize * sizeofMapSlot), m)
where
  go (oldSlot : List MapSlot) (cookie : AllocCookie) (m : Map) : Option (AllocCookie × Map) :=
    match oldSlot with
    | [] => some (cookie, m)
    | s :: oldSlot =>
      match s.obj with
      | none => go oldSlot cookie m
      | some obj =>
        match mapInsert cookie m s.id obj with
        | none => none
        | some (cookie, m) => go oldSlot cookie m

def mapInsert (fuel : Nat) (cookie : AllocCookie) (m : Map) (id : UInt32) (obj : Nat)
    : Option (AllocCookie × Map) :=
  match fuel with
  | 0 => none
  | fuel + 1 =>
    let h := mainposition m id
    match m.slot[h]? with
    | none => none
    | some s =>
      if s.id = invalidId then
        some (cookie, m.setSlot h { s with id := id, obj := some obj })
      else if mainposition m s.id ≠ h then
        match findLast m h m.size (mainposition m s.id) with
        | none => none
        | some last =>
          match m.slot[last]? with
          | none => none
          | some lastSlot =>
            let m := m.setSlot last { lastSlot with next := s.next }
            let m := m.setSlot h { id := id, obj := some obj, next := -1 }
            match s.obj with
            | some tempObj => mapInsert fuel cookie m s.id tempObj
            | none => some (cookie, m)
      else
        match takeFree m (m.lastfree + 1).toNat with
        | none => none
        | some (some temp, lastfree) =>
          let m := { m with lastfree := lastfree }
          let m := m.setSlot temp { id := id, obj := some obj, next := s.next }
          some (cookie, m.setSlot h { s with next := temp })
        | some (none, lastfree) =>
          match rehash (mapInsert fuel) cookie { m with lastfree := lastfree } with
          | none => none
          | some (cookie, m) => mapInsert fuel cookie m id obj

-- How deep the calls of `map_insert` nest: it runs for the new id, for an id this evicts, for the
-- ids that a `rehash` moves and for an id that such a move evicts.
def insertDepth : Nat := 4

def mapDrop (m : Map) (id : UInt32) : Option (Map × Option Nat) :=
  match findSlot m id m.size (mainposition m id) with
  | none => none
  | some none => some (m, none)
  | some (some i) =>
    match m.slot[i]? with
    | none => none
    | some s => some (m.setSlot i { s with obj := none }, s.obj)

def mapForeach (m : Map) : List Nat :=
  m.slot.filterMap (·.obj)

def mapNew (cookie : AllocCookie) : AllocCookie × Map :=
  let cookie := cookie.alloc sizeofMap
  let cookie := cookie.alloc (preAlloc * sizeofMapSlot)
  let m :=
    {
      size := preAlloc
      lastfree := (preAlloc : Int) - 1
      slot := List.replicate preAlloc emptySlot
    }
  (cookie, m)

end Caoi
