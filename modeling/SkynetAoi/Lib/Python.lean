import Mathlib.Data.List.Infix
import Mathlib.Data.Rat.Defs

/-!
This module contains values of Python as they come out of a message, with the operations on them
that raise, and the items of the message that they come out of.
-/

namespace Python

inductive Raise where
  | keyError (key : List Char)
  | typeError
  | valueError
  deriving DecidableEq, Repr

inductive Value where
  | null
  | bool (b : Bool)
  | number (q : ℚ)
  | str (s : List Char)
  | list (xs : List Value)
  | dict (fields : List (List Char × Value))

-- What a value is as a key, a truth value is a number there.
inductive Key where
  | null
  | number (q : ℚ)
  | str (s : List Char)
  deriving DecidableEq

def get (fields : List (List Char × Value)) (key : List Char) : Option Value :=
  match fields with
  | [] => none
  | (k, v) :: fields => if k = key then some v else get fields key

namespace Value

def index (v : Value) (key : List Char) : Except Raise Value :=
  match v with
  | .dict fields =>
    match get fields key with
    | some v => .ok v
    | none => .error (.keyError key)
  | _ => .error .typeError

def isStr (v : Value) (s : List Char) : Bool :=
  match v with
  | .str t => t = s
  | _ => false

def contains (v : Value) (key : List Char) : Except Raise Bool :=
  match v with
  | .dict fields => .ok (get fields key).isSome
  | .list xs => .ok (xs.any fun x => x.isStr key)
  | .str s => .ok (decide (key <:+: s))
  | _ => .error .typeError

-- `v.get(key)` as an `if` with `in` spells it out.
def getOrNone (v : Value) (key : List Char) : Except Raise Value := do
  if ← v.contains key then v.index key else return .null

def truthy (v : Value) : Bool :=
  match v with
  | .null => false
  | .bool b => b
  | .number q => q ≠ 0
  | .str s => s ≠ []
  | .list xs => !xs.isEmpty
  | .dict fields => !fields.isEmpty

def key (v : Value) : Except Raise Key :=
  match v with
  | .null => .ok .null
  | .bool b => .ok (.number (if b then 1 else 0))
  | .number q => .ok (.number q)
  | .str s => .ok (.str s)
  | _ => .error .typeError

def isNumber (v : Value) : Bool :=
  match v with
  | .bool _ => true
  | .number _ => true
  | _ => false

def sub (v : Value) (q : ℚ) : Except Raise ℚ :=
  match v with
  | .bool b => .ok ((if b then 1 else 0) - q)
  | .number p => .ok (p - q)
  | _ => .error .typeError

def concat (v w : Value) : Except Raise (List Value) :=
  match v, w with
  | .list xs, .list ys => .ok (xs ++ ys)
  | .str s, .str t => .ok ((s ++ t).map fun c => .str [c])
  | _, _ => .error .typeError

end Value

namespace Value

theorem getOrNone_dict (fields : List (List Char × Value)) (key : List Char)
    : ∃ v, (dict fields).getOrNone key = .ok v := by
  unfold getOrNone contains index
  dsimp only
  cases h : get fields key with
  | none => exact ⟨.null, rfl⟩
  | some v => exact ⟨v, rfl⟩

theorem index_of_contains {fields : List (List Char × Value)} {key : List Char}
    (h : (dict fields).contains key = .ok true)
    : ∃ v, (dict fields).index key = .ok v := by
  unfold contains at h
  unfold index
  dsimp only at h ⊢
  cases hget : get fields key with
  | none => simp [hget] at h
  | some v => exact ⟨v, rfl⟩

theorem sub_of_isNumber {v : Value} (h : v.isNumber = true) (q : ℚ) : ∃ d, v.sub q = .ok d := by
  cases v with
  | bool b => exact ⟨_, rfl⟩
  | number p => exact ⟨_, rfl⟩
  | _ => cases h

theorem sub_of_not_isNumber {v : Value} (h : v.isNumber = false) (q : ℚ)
    : v.sub q = .error .typeError := by
  cases v with
  | bool b => cases h
  | number p => cases h
  | _ => rfl

end Value

def truncate (q : ℚ) : Int := q.num.tdiv q.den

-- An item of a MessagePack message. `raw` is a string that is no UTF-8.
inductive Packed where
  | nil
  | bool (b : Bool)
  | number (q : ℚ)
  | str (s : List Char)
  | raw (s : List UInt8)
  | array (xs : List Packed)
  | map (fields : List (Packed × Packed))

namespace Packed

def key? (p : Packed) : Option (List Char) :=
  match p with
  | .str s => some s
  | _ => none

mutual

-- The value that stands for an item. A key has to be a string, and a string has to be UTF-8.
def value? (p : Packed) : Option Value :=
  match p with
  | .nil => some .null
  | .bool b => some (.bool b)
  | .number q => some (.number q)
  | .str s => some (.str s)
  | .raw _ => none
  | .array xs => (values? xs).map .list
  | .map fields => (fields? fields).map .dict
termination_by structural p

def values? (xs : List Packed) : Option (List Value) :=
  match xs with
  | [] => some []
  | x :: xs =>
    match x.value?, values? xs with
    | some v, some vs => some (v :: vs)
    | _, _ => none
termination_by structural xs

def fields? (fields : List (Packed × Packed)) : Option (List (List Char × Value)) :=
  match fields with
  | [] => some []
  | field :: fields =>
    match field? field, fields? fields with
    | some f, some fs => some (f :: fs)
    | _, _ => none
termination_by structural fields

def field? (field : Packed × Packed) : Option (List Char × Value) :=
  match field with
  | (k, v) =>
    match k.key?, v.value? with
    | some k, some v => some (k, v)
    | _, _ => none
termination_by structural field

end

mutual

def depth (p : Packed) : Nat :=
  match p with
  | .array xs => depths xs + 1
  | .map fields => fieldsDepth fields + 1
  | _ => 0
termination_by structural p

def depths (xs : List Packed) : Nat :=
  match xs with
  | [] => 0
  | x :: xs => max x.depth (depths xs)
termination_by structural xs

def fieldsDepth (fields : List (Packed × Packed)) : Nat :=
  match fields with
  | [] => 0
  | field :: fields => max (fieldDepth field) (fieldsDepth fields)
termination_by structural fields

def fieldDepth (field : Packed × Packed) : Nat :=
  match field with
  | (k, v) => max k.depth v.depth
termination_by structural field

end

theorem values?_map {α β : Type} {f : α → Packed} {decode : α → Option β} {g : β → Value}
    (h : ∀ a, (f a).value? = (decode a).map g) (as : List α)
    : values? (as.map f) = (as.mapM decode).map (List.map g) := by
  induction as with
  | nil => rfl
  | cons a as ih =>
    rw [List.map_cons, values?, h, ih, List.mapM_cons]
    cases decode a with
    | none => rfl
    | some b =>
      cases as.mapM decode with
      | none => rfl
      | some bs => rfl

end Packed

structure Builder (α : Type) where
  number : ℚ → α
  str : List Char → α
  list : List α → α
  dict : List (List Char × α) → α

def Packed.builder : Builder Packed where
  number := .number
  str := .str
  list := .array
  dict := fun fields => .map (fields.map fun field => (.str field.1, field.2))

theorem map_of_mapM {α β γ : Type} {f : α → Option β} (g : β → γ) (g' : α → γ)
    (h : ∀ a b, f a = some b → g b = g' a) {as : List α} {bs : List β} (has : as.mapM f = some bs)
    : bs.map g = as.map g' := by
  induction as generalizing bs with
  | nil =>
    cases has
    rfl
  | cons a as ih =>
    rw [List.mapM_cons] at has
    cases ha : f a with
    | none => simp [ha] at has
    | some b =>
      cases hrest : as.mapM f with
      | none => simp [ha, hrest] at has
      | some rest =>
        have hbs : b :: rest = bs := by simpa [ha, hrest] using has
        rw [← hbs, List.map_cons, List.map_cons, h a b ha, ih hrest]

def Value.builder : Builder Value where
  number := .number
  str := .str
  list := .list
  dict := .dict

namespace Packed

@[simp]
theorem builder_number (q : ℚ) : (builder.number q).value? = some (Value.builder.number q) := rfl

@[simp]
theorem builder_str (s : List Char) : (builder.str s).value? = some (Value.builder.str s) := rfl

theorem builder_list {α β : Type} {f : α → Packed} {decode : α → Option β} {g : β → Value}
    (h : ∀ a, (f a).value? = (decode a).map g) (as : List α)
    : (builder.list (as.map f)).value?
        = (as.mapM decode).map fun bs => Value.builder.list (bs.map g) := by
  have hvalues : (builder.list (as.map f)).value? = (values? (as.map f)).map .list := rfl
  rw [hvalues, values?_map h, Option.map_map]
  rfl

def named? (field : List Char × Packed) : Option (List Char × Value) :=
  field.2.value?.map fun v => (field.1, v)

@[simp]
theorem named?_mk (k : List Char) (p : Packed) : named? (k, p) = p.value?.map fun v => (k, v) := rfl

theorem fields?_map (fields : List (List Char × Packed))
    : fields? (fields.map fun field => (.str field.1, field.2)) = fields.mapM named? := by
  induction fields with
  | nil => rfl
  | cons field fields ih =>
    have hfield : field? (.str field.1, field.2) = named? field := by
      unfold field? named?
      cases field.2.value? with
      | none => rfl
      | some v => rfl
    rw [List.map_cons, fields?, hfield, ih, List.mapM_cons]
    cases named? field with
    | none => rfl
    | some f =>
      cases fields.mapM named? with
      | none => rfl
      | some fs => rfl

@[simp]
theorem builder_dict (fields : List (List Char × Packed))
    : (builder.dict fields).value? = (fields.mapM named?).map Value.builder.dict := by
  rw [← fields?_map]
  rfl

end Packed

end Python
