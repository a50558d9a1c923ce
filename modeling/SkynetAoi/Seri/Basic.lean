import SkynetAoi.Lib.LittleEndian
import SkynetAoi.Seri.Block

/-!
This module contains `lua-seri.c`, which turns the values of a message into bytes and back. What it
asks of the virtual machine of Lua is a parameter: the length of a table, and which number a double
is as a key.
-/

namespace Seri

def typeNil : UInt8 := 0
def typeBoolean : UInt8 := 1
def typeNumber : UInt8 := 2
def typeNumberZero : UInt8 := 0
def typeNumberByte : UInt8 := 1
def typeNumberWord : UInt8 := 2
def typeNumberDword : UInt8 := 4
def typeNumberQword : UInt8 := 6
def typeNumberReal : UInt8 := 8
def typeUserdata : UInt8 := 3
def typeShortString : UInt8 := 4
def typeLongString : UInt8 := 5
def typeTable : UInt8 := 6

def maxCookie : Nat := 32

def maxDepth : Nat := 32

def combineType (t v : UInt8) : UInt8 := t ||| v <<< 3

/--
A value of Lua. A double and a pointer are their bits. A table is what a walk over it gives, through
`lua_next` or through the metamethod `__pairs` if it has one.
-/
inductive LuaValue where
  | nil
  | boolean (b : Bool)
  | integer (n : Int64)
  | number (bits : UInt64)
  | string (s : Bytes)
  | lightuserdata (p : UInt64)
  | table (metapairs : Bool) (entries : List (LuaValue × LuaValue))
  | other (typename : String)

/--
What of the virtual machine is not in this file. A double that is a whole number is the integer as a
key, and NaN is no key.
-/
structure Machine where
  rawlen : List (LuaValue × LuaValue) → Nat
  toInteger : UInt64 → Option Int64
  isNaN : UInt64 → Bool

inductive PackError where
  | tooDeep
  | unsupport (typename : String)
  deriving DecidableEq

def PackError.message (e : PackError) : String :=
  match e with
  | .tooDeep => "serialize can't pack too depth table"
  | .unsupport typename => "Unsupport type " ++ typename ++ " to serialize"

def wbNil (b : WriteBlock) : WriteBlock := wbPush b [typeNil]

def wbBoolean (b : WriteBlock) (boolean : Bool) : WriteBlock :=
  wbPush b [combineType typeBoolean (if boolean then 1 else 0)]

def wbInteger (b : WriteBlock) (v : Int64) : WriteBlock :=
  if v = 0 then
    wbPush b [combineType typeNumber typeNumberZero]
  else if v ≠ v.toInt32.toInt64 then
    let b := wbPush b [combineType typeNumber typeNumberQword]
    wbPush b (LittleEndian.bytes 8 v.toUInt64.toNat)
  else if v < 0 then
    let b := wbPush b [combineType typeNumber typeNumberDword]
    wbPush b (LittleEndian.bytes 4 v.toInt32.toUInt32.toNat)
  else if v < 0x100 then
    let b := wbPush b [combineType typeNumber typeNumberByte]
    wbPush b (LittleEndian.bytes 1 v.toUInt64.toUInt8.toNat)
  else if v < 0x10000 then
    let b := wbPush b [combineType typeNumber typeNumberWord]
    wbPush b (LittleEndian.bytes 2 v.toUInt64.toUInt16.toNat)
  else
    let b := wbPush b [combineType typeNumber typeNumberDword]
    wbPush b (LittleEndian.bytes 4 v.toUInt64.toUInt32.toNat)

def wbReal (b : WriteBlock) (v : UInt64) : WriteBlock :=
  let b := wbPush b [combineType typeNumber typeNumberReal]
  wbPush b (LittleEndian.bytes 8 v.toNat)

def wbPointer (b : WriteBlock) (v : UInt64) : WriteBlock :=
  let b := wbPush b [typeUserdata]
  wbPush b (LittleEndian.bytes 8 v.toNat)

def wbString (b : WriteBlock) (str : Bytes) : WriteBlock :=
  let len := str.length
  if len < maxCookie then
    let b := wbPush b [combineType typeShortString (UInt8.ofNat len)]
    if len > 0 then wbPush b str else b
  else if len < 0x10000 then
    let b := wbPush b [combineType typeLongString 2]
    let b := wbPush b (LittleEndian.bytes 2 len)
    wbPush b str
  else
    let b := wbPush b [combineType typeLongString 4]
    let b := wbPush b (LittleEndian.bytes 4 len)
    wbPush b str

def isIndex (key : LuaValue) (i : Nat) : Bool :=
  match key with
  | .integer n => n.toInt = i
  | _ => false

def rawgeti (entries : List (LuaValue × LuaValue)) (i : Nat) : LuaValue :=
  match entries.find? (isIndex ·.1 i) with
  | some (_, v) => v
  | none => .nil

def inArray (arraySize : Nat) (key : LuaValue) : Bool :=
  match key with
  | .integer n => 0 < n.toInt ∧ n.toInt ≤ arraySize
  | _ => false

section

variable (pack : LuaValue → WriteBlock → Except PackError WriteBlock)

def packAll (vs : List LuaValue) (b : WriteBlock) : Except PackError WriteBlock :=
  match vs with
  | [] => .ok b
  | v :: vs =>
    match pack v b with
    | .error e => .error e
    | .ok b => packAll vs b

def packPairs (entries : List (LuaValue × LuaValue)) (b : WriteBlock) : Except PackError WriteBlock :=
  match entries with
  | [] => .ok (wbNil b)
  | (k, v) :: entries =>
    match packAll pack [k, v] b with
    | .error e => .error e
    | .ok b => packPairs entries b

def wbTableArray (entries : List (LuaValue × LuaValue)) (arraySize : Nat) (b : WriteBlock)
    : Except PackError WriteBlock :=
  let b :=
    if arraySize ≥ maxCookie - 1 then
      wbInteger (wbPush b [combineType typeTable (UInt8.ofNat (maxCookie - 1))]) (.ofNat arraySize)
    else
      wbPush b [combineType typeTable (UInt8.ofNat arraySize)]
  packAll pack ((List.range arraySize).map fun i => rawgeti entries (i + 1)) b

def wbTableHash (entries : List (LuaValue × LuaValue)) (arraySize : Nat) (b : WriteBlock)
    : Except PackError WriteBlock :=
  packPairs pack (entries.filter fun e => !inArray arraySize e.1) b

def wbTableMetapairs (entries : List (LuaValue × LuaValue)) (b : WriteBlock)
    : Except PackError WriteBlock :=
  packPairs pack entries (wbPush b [combineType typeTable 0])

def wbTable (rawlen : List (LuaValue × LuaValue) → Nat) (metapairs : Bool)
    (entries : List (LuaValue × LuaValue)) (b : WriteBlock) : Except PackError WriteBlock :=
  if metapairs then
    wbTableMetapairs pack entries b
  else
    match wbTableArray pack entries (rawlen entries) b with
    | .error e => .error e
    | .ok b => wbTableHash pack entries (rawlen entries) b

end

-- `room` counts down to the depth at which it gives up.
def packOne (m : Machine) (room : Nat) (v : LuaValue) (b : WriteBlock) : Except PackError WriteBlock :=
  match room with
  | 0 => .error .tooDeep
  | room + 1 =>
    match v with
    | .nil => .ok (wbNil b)
    | .integer n => .ok (wbInteger b n)
    | .number bits => .ok (wbReal b bits)
    | .boolean v => .ok (wbBoolean b v)
    | .string s => .ok (wbString b s)
    | .lightuserdata p => .ok (wbPointer b p)
    | .table metapairs entries => wbTable (packOne m room) m.rawlen metapairs entries b
    | .other typename => .error (.unsupport typename)

def luaseriPack (m : Machine) (vs : List LuaValue) : Except PackError Bytes :=
  match packAll (packOne m (maxDepth + 1)) vs wbInit with
  | .error e => .error e
  | .ok b => .ok (seri b)

-- `none` where the code says that the stream is invalid.
def rbRead (rb : Bytes) (sz : Nat) : Option (Bytes × Bytes) :=
  if rb.length < sz then none else some (rb.take sz, rb.drop sz)

def getInteger (rb : Bytes) (cookie : UInt8) : Option (Int64 × Bytes) :=
  if cookie = typeNumberZero then
    some (0, rb)
  else if cookie = typeNumberByte then do
    let (n, rb) ← rbRead rb 1
    some ((UInt8.ofNat (LittleEndian.number n)).toUInt64.toInt64, rb)
  else if cookie = typeNumberWord then do
    let (n, rb) ← rbRead rb 2
    some ((UInt16.ofNat (LittleEndian.number n)).toUInt64.toInt64, rb)
  else if cookie = typeNumberDword then do
    let (n, rb) ← rbRead rb 4
    some ((UInt32.ofNat (LittleEndian.number n)).toInt32.toInt64, rb)
  else if cookie = typeNumberQword then do
    let (n, rb) ← rbRead rb 8
    some ((UInt64.ofNat (LittleEndian.number n)).toInt64, rb)
  else
    none

def getWord (rb : Bytes) : Option (UInt64 × Bytes) := do
  let (n, rb) ← rbRead rb 8
  some (UInt64.ofNat (LittleEndian.number n), rb)

def getBuffer (rb : Bytes) (len : Nat) : Option (LuaValue × Bytes) := do
  let (s, rb) ← rbRead rb len
  some (.string s, rb)

def rawequal (a b : LuaValue) : Bool :=
  match a, b with
  | .boolean a, .boolean b => a = b
  | .integer a, .integer b => a = b
  | .number a, .number b => a = b
  | .string a, .string b => a = b
  | .lightuserdata a, .lightuserdata b => a = b
  | _, _ => false

-- A table is equal to itself only, and the one that is read is a new one.
def put (entries : List (LuaValue × LuaValue)) (key value : LuaValue) : List (LuaValue × LuaValue) :=
  match value with
  | .nil => entries.filter fun e => !rawequal e.1 key
  | value =>
    if entries.any (rawequal ·.1 key) then
      entries.map fun e => if rawequal e.1 key then (e.1, value) else e
    else
      entries ++ [(key, value)]

def rawset (m : Machine) (entries : List (LuaValue × LuaValue)) (key value : LuaValue)
    : Option (List (LuaValue × LuaValue)) :=
  match key with
  | .nil => none
  | .number bits =>
    if m.isNaN bits then
      none
    else
      match m.toInteger bits with
      | some n => some (put entries (.integer n) value)
      | none => some (put entries key value)
  | key => some (put entries key value)

section

variable (m : Machine) (read : Bytes → Option (LuaValue × Bytes))

def unpackArray (count i : Nat) (entries : List (LuaValue × LuaValue)) (rb : Bytes)
    : Option (List (LuaValue × LuaValue) × Bytes) :=
  match count with
  | 0 => some (entries, rb)
  | count + 1 => do
    let (v, rb) ← read rb
    unpackArray count (i + 1) (put entries (.integer (.ofNat i)) v) rb

-- The loop over the pairs. Each round reads at least one byte, so `rounds` never ends before it.
def unpackPairs (rounds : Nat) (entries : List (LuaValue × LuaValue)) (rb : Bytes)
    : Option (List (LuaValue × LuaValue) × Bytes) :=
  match rounds with
  | 0 => none
  | rounds + 1 => do
    let (k, rb) ← read rb
    match k with
    | .nil => some (entries, rb)
    | k =>
      let (v, rb) ← read rb
      let entries ← rawset m entries k v
      unpackPairs rounds entries rb

def readArraySize (cookie : UInt8) (rb : Bytes) : Option (Nat × Bytes) :=
  if cookie.toNat = maxCookie - 1 then do
    let (t, rb) ← rbRead rb 1
    match t with
    | [] => none
    | type :: _ =>
      let cookie := type >>> 3
      if type &&& 7 ≠ typeNumber ∨ cookie = typeNumberReal then
        none
      else
        let (n, rb) ← getInteger rb cookie
        some (n.toInt32.toNatClampNeg, rb)
  else
    some (cookie.toNat, rb)

def unpackTable (rounds : Nat) (cookie : UInt8) (rb : Bytes) : Option (LuaValue × Bytes) := do
  let (arraySize, rb) ← readArraySize cookie rb
  let (entries, rb) ← unpackArray read arraySize 1 [] rb
  let (entries, rb) ← unpackPairs m read rounds entries rb
  some (.table false entries, rb)

def pushValue (rounds : Nat) (type cookie : UInt8) (rb : Bytes) : Option (LuaValue × Bytes) :=
  if type = typeNil then
    some (.nil, rb)
  else if type = typeBoolean then
    some (.boolean (cookie ≠ 0), rb)
  else if type = typeNumber then
    if cookie = typeNumberReal then do
      let (n, rb) ← getWord rb
      some (.number n, rb)
    else do
      let (n, rb) ← getInteger rb cookie
      some (.integer n, rb)
  else if type = typeUserdata then do
    let (p, rb) ← getWord rb
    some (.lightuserdata p, rb)
  else if type = typeShortString then
    getBuffer rb cookie.toNat
  else if type = typeLongString then
    if cookie = 2 then do
      let (n, rb) ← rbRead rb 2
      getBuffer rb (LittleEndian.number n)
    else if cookie ≠ 4 then
      none
    else do
      let (n, rb) ← rbRead rb 4
      getBuffer rb (LittleEndian.number n)
  else if type = typeTable then
    unpackTable m read rounds cookie rb
  else
    none

end

def unpackOne (m : Machine) (fuel : Nat) (rb : Bytes) : Option (LuaValue × Bytes) :=
  match fuel with
  | 0 => none
  | fuel + 1 =>
    match rb with
    | [] => none
    | type :: rb => pushValue m (unpackOne m fuel) (fuel + 1) (type &&& 7) (type >>> 3) rb

def unpackAll (m : Machine) (fuel : Nat) (rb : Bytes) : Option (List LuaValue) :=
  match fuel with
  | 0 => none
  | fuel + 1 =>
    match rb with
    | [] => some []
    | _ => do
      let (v, rb) ← unpackOne m (rb.length + 1) rb
      let vs ← unpackAll m fuel rb
      some (v :: vs)

def luaseriUnpack (m : Machine) (buffer : Bytes) : Option (List LuaValue) :=
  unpackAll m (buffer.length + 1) buffer

end Seri
