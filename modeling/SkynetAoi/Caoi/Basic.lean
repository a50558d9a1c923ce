import SkynetAoi.Lib.Heap
import SkynetAoi.Lib.Point

/-!
This module contains the data model of the `caoi` service (`service_caoi.c`): its constants, its
structs and the cookie of its allocator. Pointers to objects are addresses of a `Heap`. The other
blocks have exactly one owner and are stored in place: of an `object_set` the `number` entries in
use, of the hot pairs the list that their `next` pointers form. Coordinates are exact numbers and
counters are unbounded.
-/

namespace Caoi

def aoiRadis : ℚ := 40

def invalidId : UInt32 := 0xFFFFFFFF

def preAlloc : Nat := 16

def aoiRadis2 : ℚ := aoiRadis * aoiRadis

-- The name asks for a wider radius than `aoiRadis`, the definition is the same one.
def leaveAoiRadis : ℚ := aoiRadis2

abbrev Mode := BitVec 4

def modeWatcher : Mode := 1

def modeMarker : Mode := 2

def modeMove : Mode := 4

def modeDrop : Mode := 8

structure Object where
  ref : Int
  id : UInt32
  version : Int
  mode : Mode
  last : Point
  position : Point
  deriving DecidableEq, Repr

namespace Object

def isWatcher (obj : Object) : Bool := obj.mode &&& modeWatcher != 0

def isMarker (obj : Object) : Bool := obj.mode &&& modeMarker != 0

def isMove (obj : Object) : Bool := obj.mode &&& modeMove != 0

def isDrop (obj : Object) : Bool := obj.mode &&& modeDrop != 0

end Object

structure ObjectSet where
  cap : Nat
  slot : List Nat
  deriving DecidableEq, Repr

structure PairList where
  watcher : Nat
  marker : Nat
  watcherVersion : Int
  markerVersion : Int
  deriving DecidableEq, Repr

structure MapSlot where
  id : UInt32
  obj : Option Nat
  next : Int
  deriving DecidableEq, Repr

structure Map where
  size : Nat
  lastfree : Int
  slot : List MapSlot
  deriving DecidableEq, Repr

structure AllocCookie where
  count : Int
  max : Int
  current : Int
  deriving DecidableEq, Repr

namespace AllocCookie

-- The two halves of `my_alloc`: with a null pointer it allocates, with any other it releases.
def alloc (cookie : AllocCookie) (sz : Nat) : AllocCookie :=
  let current := cookie.current + sz
  {
    count := cookie.count + 1
    current := current
    max := if cookie.max < current then current else cookie.max
  }

def free (cookie : AllocCookie) (sz : Nat) : AllocCookie :=
  { cookie with count := cookie.count - 1, current := cookie.current - sz }

end AllocCookie

-- The sizes of the structs where a pointer has eight bytes.
def sizeofObject : Nat := 40

def sizeofObjectSet : Nat := 16

def sizeofPairList : Nat := 32

def sizeofMapSlot : Nat := 24

def sizeofMap : Nat := 16

def sizeofAoiSpace : Nat := 64

def sizeofPointer : Nat := 8

structure AoiSpace where
  cookie : AllocCookie
  heap : Heap Object
  object : Map
  watcherStatic : ObjectSet
  markerStatic : ObjectSet
  watcherMove : ObjectSet
  markerMove : ObjectSet
  hot : List PairList

end Caoi
