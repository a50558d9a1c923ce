import Mathlib.Data.Rat.Floor

/-!
This module contains values of Lua as they come out of a message: no functions, no metatables and no
references from one table to another. The numbers and what the interpreter does with them are a
parameter.
-/

namespace Lua

mutual

inductive Value (Num : Type) where
  | nil
  | boolean (b : Bool)
  | number (n : Num)
  | string (s : List Char)
  | table (fields : Fields Num)

inductive Fields (Num : Type) where
  | nil
  | cons (key value : Value Num) (fields : Fields Num)

end

/--
The arithmetic of the interpreter. A string stands for a number in it if `tonumber` reads one.
-/
structure Arith (Num : Type) where
  sub : Num → Num → Num
  add : Num → Num → Num
  mul : Num → Num → Num
  div : Num → Num → Num
  floor : Num → Num
  le : Num → Num → Bool
  lt : Num → Num → Bool
  ofNat : Nat → Num
  tonumber : List Char → Option Num

def Arith.exact (tonumber : List Char → Option ℚ) : Arith ℚ where
  sub := fun a b => a - b
  add := fun a b => a + b
  mul := fun a b => a * b
  div := fun a b => a / b
  floor := fun a => ⌊a⌋
  le := fun a b => decide (a ≤ b)
  lt := fun a b => decide (a < b)
  ofNat := fun n => n
  tonumber := tonumber

variable {Num : Type}

mutual

def Value.depth (v : Value Num) : Nat :=
  match v with
  | .table fields => fields.depth
  | _ => 0

def Fields.depth (fields : Fields Num) : Nat :=
  match fields with
  | .nil => 0
  | .cons key value fields => max (max key.depth value.depth + 1) fields.depth

end

def Fields.get (fields : Fields Num) (name : List Char) : Value Num :=
  match fields with
  | .nil => .nil
  | .cons (.string key) value fields => if key = name then value else fields.get name
  | .cons _ _ fields => fields.get name

namespace Value

-- Indexing raises on anything but a table or a string, whose fields are the `string` library.
def index (v : Value Num) (name : List Char) : Option (Value Num) :=
  match v with
  | .table fields => some (fields.get name)
  | .string _ => some .nil
  | _ => none

def truthy (v : Value Num) : Bool :=
  match v with
  | .nil => false
  | .boolean b => b
  | _ => true

-- What `..` takes.
def concatenates (v : Value Num) : Bool :=
  match v with
  | .number _ => true
  | .string _ => true
  | _ => false

def operand (arith : Arith Num) (v : Value Num) : Option Num :=
  match v with
  | .number n => some n
  | .string s => arith.tonumber s
  | _ => none

end Value

end Lua
