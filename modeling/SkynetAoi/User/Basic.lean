import SkynetAoi.Lib.Alternating
import SkynetAoi.Lib.Numeral
import SkynetAoi.Lib.Pairs

/-!
This module contains how the data of a user is kept: the functions of `parser.lua` that turn a model
into a list and back, the commands of `redisd.lua` for the hash of a user and `usermodel.lua`. A
model is a table whose keys are strings. What raises is `none`.
-/

namespace User

inductive Kind where
  | string
  | number
  | boolean
  | table
  | function
  deriving DecidableEq, Repr

inductive Value (Num Table : Type) where
  | string (s : Bytes)
  | number (n : Num)
  | boolean (b : Bool)
  | table (t : Table)
  | function (ref : Nat)
  deriving DecidableEq, Repr

/--
What the interpreter and `cjson` do. `cjson` reads back the tables that it has written.
-/
structure Runtime (Num Table : Type) where
  ofInt : Int → Num
  tostring : Value Num Table → Bytes
  tonumber : Value Num Table → Option Num
  finite : Num → Bool
  encode : Table → Bytes
  decode : Bytes → Option Table
  tostring_string : ∀ s, tostring (.string s) = s
  tonumber_number : ∀ n, tonumber (.number n) = some n
  decode_encode : ∀ t, decode (encode t) = some t

def Runtime.sample : Runtime Int Bytes where
  ofInt := fun n => n
  tostring := fun v =>
    match v with
    | .string s => s
    | .number n => Numeral.signed n
    | .boolean true => ['t', 'r', 'u', 'e'].map Char.toUInt8
    | .boolean false => ['f', 'a', 'l', 's', 'e'].map Char.toUInt8
    | .table _ => ['t', 'a', 'b', 'l', 'e'].map Char.toUInt8
    | .function _ => ['f', 'u', 'n', 'c', 't', 'i', 'o', 'n'].map Char.toUInt8
  tonumber := fun v =>
    match v with
    | .number n => some n
    | .string s =>
      match Numeral.tonumber s with
      | some (.integer n) => some n
      | _ => none
    | _ => none
  finite := fun _ => true
  encode := fun t => t
  decode := some
  tostring_string := fun _ => rfl
  tonumber_number := fun _ => rfl
  decode_encode := fun _ => rfl

abbrev Model (Num Table : Type) := AList fun _ : Bytes => Value Num Table

variable {Num Table : Type}

namespace Value

def type (v : Value Num Table) : Kind :=
  match v with
  | .string _ => .string
  | .number _ => .number
  | .boolean _ => .boolean
  | .table _ => .table
  | .function _ => .function

def truthy (v : Value Num Table) : Bool :=
  match v with
  | .boolean b => b
  | _ => true

end Value

def underscore : UInt8 := '_'.toUInt8

-- `string.find(k, '_')` finds none or not at the first character.
def isPersistent (k : Bytes) : Bool := k.findIdx? (· = underscore) ≠ some 0

section

variable (rt : Runtime Num Table)

-- The second branch has the tests of the first one, so that it never inserts a table.
def serialize.entry (exceptlist : List Bytes) (k : Bytes) (v : Value Num Table)
    : List (Value Num Table) :=
  if !isPersistent k || exceptlist.contains k then
    []
  else
    match v with
    | .table t => [.string k, .string (rt.encode t)]
    | .function _ => []
    | v => [.string k, v]

def serialize (t : Model Num Table) (exceptlist : List Bytes) : List (Value Num Table) :=
  t.entries.flatMap fun entry => serialize.entry rt exceptlist entry.1 entry.2

variable [DecidableEq Num] [DecidableEq Table]

-- What a `nil` is assigned to is gone.
def assignNumber (t : Model Num Table) (k : Bytes) (n : Option Num) : Model Num Table :=
  match n with
  | some n => t.insert k (.number n)
  | none => t.erase k

def unserialize.visit (d : AList fun _ : Value Num Table => Value Num Table) (k : Bytes)
    (v : Value Num Table) (t : Model Num Table) : Option (Model Num Table) :=
  match d.lookup (.string k) with
  | none => some t
  | some data =>
    if !data.truthy then
      some t
    else
      match v, data with
      | .table _, .string s => (rt.decode s).map fun decoded => t.insert k (.table decoded)
      | .table _, .table data => some (t.insert k (.table data))
      | .table _, _ => none
      | .function _, _ => some t
      | .number _, data => some (assignNumber t k (rt.tonumber data))
      | _, data => some (t.insert k data)

def unserialize.go (d : AList fun _ : Value Num Table => Value Num Table) (ks : List Bytes)
    (t : Model Num Table) : Option (Model Num Table) :=
  match ks with
  | [] => some t
  | k :: ks =>
    match t.lookup k with
    | none => go d ks t
    | some v =>
      match unserialize.visit rt d k v t with
      | none => none
      | some t => go d ks t

def unserialize (order : PairsOrder Bytes) (t : Model Num Table)
    (d : AList fun _ : Value Num Table => Value Num Table) : Option (Model Num Table) :=
  unserialize.go rt d (order.arrange t.keys) t

end

def redisPack {α : Type} [DecidableEq α] (s : List α) : AList fun _ : α => α := assign s ∅

abbrev Redis := Bytes → AList fun _ : Bytes => Bytes

def hmset (k : Bytes) (args : List Bytes) (redis : Redis) : Option Redis :=
  if args.length = 0 || args.length % 2 = 1 then
    none
  else
    some (Function.update redis k (assign args (redis k)))

def hgetall (order : PairsOrder Bytes) (k : Bytes) (redis : Redis) : List Bytes :=
  alternating ((order.arrange (redis k).keys).filterMap fun field =>
    ((redis k).lookup field).map fun value => (field, value))

section

variable (rt : Runtime Num Table)

def uidText (uid : Int) : Bytes := rt.tostring (.number (rt.ofInt uid))

def userKey (id : Int) : Bytes := ['u', 's', 'e', 'r', ':'].map Char.toUInt8 ++ uidText rt id

def loaduser (order : PairsOrder Bytes) (id : Int) (redis : Redis)
    : Option (AList fun _ : Bytes => Bytes) :=
  if 0 < id then some (redisPack (hgetall order (userKey rt id) redis)) else none

def saveuser (id : Int) (userData : List (Value Num Table)) (redis : Redis) : Option Redis :=
  if 0 < id then hmset (userKey rt id) (userData.map rt.tostring) redis else none

def initOk : Bytes := ['_', 'i', 'n', 'i', 't', '_', 'o', 'k'].map Char.toUInt8

def init (uid : Int) (single : Model Num Table) : Model Num Table :=
  let single := single.insert (['i', 'd'].map Char.toUInt8) (.number (rt.ofInt uid))
  single.insert (['n', 'a', 'm', 'e'].map Char.toUInt8)
    (.string (['u', 's', 'e', 'r', '_'].map Char.toUInt8 ++ uidText rt uid))

def load.go (userdata : AList fun _ : Bytes => Bytes) (ks : List Bytes) (self : Model Num Table)
    : Model Num Table :=
  match ks with
  | [] => self
  | k :: ks =>
    match userdata.lookup k with
    | none => go userdata ks self
    | some v => go userdata ks (self.insert k (.string v))

def load (reply order : PairsOrder Bytes) (uid : Int) (redis : Redis) (self : Model Num Table)
    : Option (Model Num Table) :=
  match loaduser rt reply uid redis with
  | none => none
  | some userdata =>
    let self :=
      if userdata.keys.length ≤ 0 then
        init rt uid self
      else
        load.go userdata (order.arrange userdata.keys) self
    some (self.insert initOk (.boolean true))

-- What `cjson.encode` takes, the list is logged before it is sent.
def encodable (v : Value Num Table) : Bool :=
  match v with
  | .number n => rt.finite n
  | .function _ => false
  | _ => true

def initialized (self : Model Num Table) : Bool := (self.lookup initOk).any Value.truthy

def save (uid : Int) (self : Model Num Table) (redis : Redis) : Option Redis :=
  if initialized self then
    let userData := serialize rt self []
    if userData.all (encodable rt) then saveuser rt uid userData redis else none
  else
    some redis

def usermodel : Model Num Table :=
  (AList.insert (['l', 'o', 'a', 'd'].map Char.toUInt8) (.function 0) ∅).insert
    (['s', 'a', 'v', 'e'].map Char.toUInt8) (.function 1)

end

def persisted (t : Model Num Table) (k : Bytes) : Option (Value Num Table) :=
  match t.lookup k with
  | none => none
  | some (.function _) => none
  | some v => if isPersistent k then some v else none

end User
