import SkynetAoi.Lib.BinarySearch
import SkynetAoi.Lib.Bytes
import Mathlib.Logic.Function.Basic

/-!
This module contains the registry of `skynet_handle.c`. What is done under the lock is one step. A
context is known by its address, and its field `handle` is written by `skynet_context_new` after the
registry has already handed the handle out.
-/

namespace SkynetHandle

def defaultSlotSize : Nat := 4
def maxSlotSize : Nat := 0x40000000
def handleMask : UInt32 := 0xffffff
def handleRemoteShift : UInt32 := 24

structure HandleName where
  name : Bytes
  handle : UInt32

structure HandleStorage where
  harbor : UInt32
  handleIndex : UInt32
  slot : List (Option Nat)
  nameCap : Nat
  name : List HandleName

def handleInit (harbor : UInt32) : HandleStorage where
  harbor := (harbor &&& 0xff) <<< handleRemoteShift
  handleIndex := 1
  slot := List.replicate defaultSlotSize none
  nameCap := 2
  name := []

def hash (slot : List (Option Nat)) (handle : UInt32) : Nat :=
  handle.toNat &&& (slot.length - 1)

def slotAt (slot : List (Option Nat)) (i : Nat) : Option Nat := slot[i]?.join

def findFree (slot : List (Option Nat)) (rounds : Nat) (handle : UInt32) : Option UInt32 :=
  match rounds with
  | 0 => none
  | rounds + 1 =>
    let handle := if handle > handleMask then 1 else handle
    if (slotAt slot (hash slot handle)).isNone then
      some handle
    else
      findFree slot rounds (handle + 1)

section

variable (handle : Nat → UInt32)

-- `none` is a context that is not there, whose handle is read all the same, or a failed assertion.
def moveAll (slot newSlot : List (Option Nat)) : Option (List (Option Nat)) :=
  match slot with
  | [] => some newSlot
  | none :: _ => none
  | some ctx :: slot =>
    let i := hash newSlot (handle ctx)
    if (slotAt newSlot i).isSome then none else moveAll slot (newSlot.set i (some ctx))

-- The loop of `skynet_handle_register`. The assertion ends it once the table cannot grow any more.
def registerLoop (fuel : Nat) (s : HandleStorage) (ctx : Nat) : Option (UInt32 × HandleStorage) :=
  match fuel with
  | 0 => none
  | fuel + 1 =>
    match findFree s.slot s.slot.length s.handleIndex with
    | some h =>
      some (h ||| s.harbor,
        { s with slot := s.slot.set (hash s.slot h) (some ctx), handleIndex := h + 1 })
    | none =>
      if s.slot.length * 2 - 1 ≤ handleMask.toNat then
        match moveAll handle s.slot (List.replicate (s.slot.length * 2) none) with
        | none => none
        | some slot => registerLoop fuel { s with slot := slot } ctx
      else
        none

def handleRegister (s : HandleStorage) (ctx : Nat) : Option (UInt32 × HandleStorage) :=
  registerLoop handle 32 s ctx

def handleRetire (s : HandleStorage) (h : UInt32) : Option Nat × HandleStorage :=
  match slotAt s.slot (hash s.slot h) with
  | some ctx =>
    if handle ctx = h then
      (some ctx,
        { s with
          slot := s.slot.set (hash s.slot h) none
          name := s.name.filter (·.handle ≠ h)
        })
    else
      (none, s)
  | none => (none, s)

def handleGrab (s : HandleStorage) (h : UInt32) : Option Nat :=
  match slotAt s.slot (hash s.slot h) with
  | some ctx => if handle ctx = h then some ctx else none
  | none => none

end

def strcmp (a b : Bytes) : Ordering := compare a b

instance : Std.TransCmp strcmp :=
  inferInstanceAs (Std.TransCmp fun a b : Bytes => compare a b)

instance : Std.LawfulEqCmp strcmp :=
  inferInstanceAs (Std.LawfulEqCmp fun a b : Bytes => compare a b)

def searchName (s : HandleStorage) (name : Bytes) : Option (Except Nat HandleName) :=
  BinarySearch.search (fun n => strcmp n.name name) s.name

def handleFindname (s : HandleStorage) (name : Bytes) : Option UInt32 :=
  match searchName s name with
  | none => none
  | some (.ok n) => some n.handle
  | some (.error _) => some 0

-- `none` is the assertion that the table of the names can grow.
def insertNameBefore (s : HandleStorage) (name : Bytes) (h : UInt32) (before : Nat)
    : Option HandleStorage :=
  let names := s.name.take before ++ { name := name, handle := h } :: s.name.drop before
  if s.name.length ≥ s.nameCap then
    if s.nameCap * 2 ≤ maxSlotSize then
      some { s with nameCap := s.nameCap * 2, name := names }
    else
      none
  else
    some { s with name := names }

def handleNamehandle (s : HandleStorage) (h : UInt32) (name : Bytes) : Option (Bool × HandleStorage) :=
  match searchName s name with
  | none => none
  | some (.ok _) => some (false, s)
  | some (.error before) => (insertNameBefore s name h before).map fun s => (true, s)

/--
`handle` is the field of the contexts, `pending` is what `skynet_handle_register` has returned to a
thread that has not written it to the field yet.
-/
structure World where
  storage : HandleStorage
  handle : Nat → UInt32
  pending : Nat → Option UInt32

def World.init (harbor : UInt32) : World where
  storage := handleInit harbor
  handle := fun _ => 0
  pending := fun _ => none

inductive Call where
  | launch (ctx : Nat)
  | assign (ctx : Nat)
  | retire (h : UInt32)
  | grab (h : UInt32)
  | findname (name : Bytes)
  | namehandle (h : UInt32) (name : Bytes)

inductive Reply where
  | nothing
  | handle (h : UInt32)
  | context (ctx : Option Nat)
  | named (ok : Bool)
  deriving DecidableEq

def launch (w : World) (ctx : Nat) : Option (Reply × World) :=
  if w.storage.slot.contains (some ctx) then
    some (.nothing, w)
  else
    let handle := Function.update w.handle ctx 0
    (handleRegister handle w.storage ctx).map fun (h, storage) =>
      (.handle h, { storage := storage, handle := handle, pending := Function.update w.pending ctx (some h) })

def assign (w : World) (ctx : Nat) : Reply × World :=
  match w.pending ctx with
  | none => (.nothing, w)
  | some h =>
    (.nothing, { w with
      handle := Function.update w.handle ctx h
      pending := Function.update w.pending ctx none
    })

def step (w : World) (c : Call) : Option (Reply × World) :=
  match c with
  | .launch ctx => launch w ctx
  | .assign ctx => some (assign w ctx)
  | .retire h =>
    let (ctx, storage) := handleRetire w.handle w.storage h
    some (.context ctx, { w with storage := storage })
  | .grab h => some (.context (handleGrab w.handle w.storage h), w)
  | .findname name => (handleFindname w.storage name).map fun h => (.handle h, w)
  | .namehandle h name =>
    (handleNamehandle w.storage h name).map fun (ok, storage) =>
      (.named ok, { w with storage := storage })

def replies (w : World) (calls : List Call) : Option (List Reply × World) :=
  match calls with
  | [] => some ([], w)
  | c :: calls =>
    match step w c with
    | none => none
    | some (r, w) =>
      match replies w calls with
      | none => none
      | some (rs, w) => some (r :: rs, w)

end SkynetHandle
