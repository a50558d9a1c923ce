import SkynetAoi.Caoi.Lemmas.Update

/-!
This module contains that the object map is a finite map from ids to objects: for any sequence of
`map_query` and `map_drop` the history of the operations and their results says what it stores.
-/

namespace Caoi

inductive MapOp where
  | query (id : UInt32)
  | drop (id : UInt32)
  deriving DecidableEq, Repr

namespace MapOp

def id (op : MapOp) : UInt32 :=
  match op with
  | .query id => id
  | .drop id => id

def run (space : AoiSpace) (op : MapOp) : Option (AoiSpace × Option Nat) :=
  match op with
  | .query id =>
    match mapQuery space id with
    | none => none
    | some (space, addr) => some (space, some addr)
  | .drop id =>
    match mapDrop space.object id with
    | none => none
    | some (m, result) => some ({ space with object := m }, result)

def recordStep (s : AoiSpace × List (MapOp × Option Nat)) (op : MapOp)
    : Option (AoiSpace × List (MapOp × Option Nat)) :=
  match op.run s.1 with
  | none => none
  | some (space, result) => some (space, s.2 ++ [(op, result)])

end MapOp

def rebind (f : UInt32 → Option Nat) (op : MapOp) (result : Option Nat) : UInt32 → Option Nat :=
  match op with
  | .query id => Function.update f id result
  | .drop id => Function.update f id none

def stored (history : List (MapOp × Option Nat)) : UInt32 → Option Nat :=
  history.foldl (fun f entry => rebind f entry.1 entry.2) fun _ => none

theorem stored_append (history : List (MapOp × Option Nat)) (op : MapOp) (result : Option Nat)
    : stored (history ++ [(op, result)]) = rebind (stored history) op result := by
  unfold stored
  rw [List.foldl_append]
  rfl

/--
The map stores just the objects of `f`, each of them still as it was made for its id, and
`map_foreach` visits each of them once.
-/
structure IsFiniteMap (space : AoiSpace) (f : UInt32 → Option Nat) : Prop where
  object : ∀ (id : UInt32) (addr : Nat), f id = some addr →
    space.heap.get addr = some (freshObject id)
  nodup : (mapForeach space.object).Nodup
  mem : ∀ (addr : Nat), addr ∈ mapForeach space.object ↔ ∃ id, f id = some addr

/--
What an operation has to do: `map_query` finds the object of its id or makes a new one, `map_drop`
returns the object of its id if there is one. No other object changes.
-/
def Answers (f : UInt32 → Option Nat) (space : AoiSpace) (op : MapOp) (space' : AoiSpace)
    (result : Option Nat) : Prop :=
  match op with
  | .query id =>
    match f id with
    | some addr => result = some addr ∧ space' = space
    | none =>
      ∃ addr, result = some addr
        ∧ space.heap.get addr = none
        ∧ ∀ a, space'.heap.get a
            = if a = addr then some (freshObject id) else space.heap.get a
  | .drop id => result = f id ∧ space'.heap = space.heap

structure Holds (space : AoiSpace) (f : UInt32 → Option Nat) : Prop where
  wf : space.object.WF
  stores : ∀ (id : UInt32) (addr : Nat), space.object.Stores id addr ↔ f id = some addr
  object : ∀ (id : UInt32) (addr : Nat), f id = some addr →
    space.heap.get addr = some (freshObject id)

namespace Holds

variable {space : AoiSpace} {f : UInt32 → Option Nat}

theorem mapNew {cookie : AllocCookie} (hnew : space.object = (mapNew cookie).2)
    : Holds space fun _ => none where
  wf := by
    rw [hnew]
    exact rehash.blank_wf 4
  stores := by
    intro id addr
    rw [hnew]
    simp only [reduceCtorEq, iff_false]
    exact rehash.blank_not_stores 16 id addr
  object := by simp

theorem isFiniteMap (h : Holds space f) : IsFiniteMap space f where
  object := h.object
  nodup := by
    apply nodup_mapForeach h.wf
    intro id id' addr hid hid'
    rw [h.stores] at hid hid'
    have heq := h.object id addr hid
    rw [h.object id' addr hid', Option.some.injEq] at heq
    exact (congrArg Object.id heq).symm
  mem := by
    intro addr
    rw [mem_mapForeach h.wf]
    simp only [h.stores]

theorem query (h : Holds space f) {id : UInt32} (hid : id ≠ invalidId)
    : ∃ space' result, MapOp.run space (.query id) = some (space', result)
        ∧ Answers f space (.query id) space' result
        ∧ Holds space' (rebind f (.query id) result) := by
  unfold MapOp.run
  dsimp only
  rcases mapQuery_total h.wf hid with
    ⟨addr, hstores, hquery⟩ | ⟨hnone, cookie, m, hm, hstores, hquery⟩
  . rw [h.stores] at hstores
    rw [hquery]
    refine ⟨space, some addr, rfl, ?_, ?_⟩
    . unfold Answers
      dsimp only
      rw [hstores]
      exact ⟨rfl, rfl⟩
    . unfold rebind
      dsimp only
      rw [← hstores, Function.update_eq_self]
      exact h
  . have hf : f id = none := by
      cases hid : f id with
      | none => rfl
      | some addr =>
        rw [← h.stores] at hid
        exact absurd hid (hnone addr)
    have hbrk := space.heap.get_brk
    rw [hquery]
    refine ⟨_, some space.heap.brk, rfl, ?_, hm, ?_, ?_⟩
    . unfold Answers
      dsimp only
      rw [hf]
      exact ⟨space.heap.brk, rfl, hbrk, fun a => Heap.get_alloc ..⟩
    . intro id' addr
      unfold rebind
      dsimp only
      rw [hstores, h.stores]
      by_cases heq : id' = id
      . rw [heq, Function.update_self, hf]
        simp [eq_comm]
      . rw [Function.update_of_ne heq]
        simp [heq]
    . intro id' addr hget
      unfold rebind at hget
      dsimp only at hget ⊢
      rw [Heap.get_alloc]
      by_cases heq : id' = id
      . rw [heq, Function.update_self, Option.some.injEq] at hget
        rw [if_pos hget.symm, heq]
      . rw [Function.update_of_ne heq] at hget
        have hlive := h.object id' addr hget
        rw [if_neg]
        . exact hlive
        . rintro rfl
          rw [hbrk] at hlive
          simp at hlive

theorem drop (h : Holds space f) {id : UInt32} (hid : id ≠ invalidId)
    : ∃ space' result, MapOp.run space (.drop id) = some (space', result)
        ∧ Answers f space (.drop id) space' result
        ∧ Holds space' (rebind f (.drop id) result) := by
  obtain ⟨m, result, hdrop, hresult, hm, hstores⟩ := mapDrop_total h.wf hid
  unfold MapOp.run
  dsimp only
  rw [hdrop]
  refine ⟨{ space with object := m }, result, rfl, ⟨?_, rfl⟩, hm, ?_, ?_⟩
  . apply Option.ext
    intro addr
    rw [hresult, h.stores]
  . intro id' addr
    unfold rebind
    dsimp only
    rw [hstores, h.stores]
    by_cases heq : id' = id
    . rw [heq, Function.update_self]
      simp
    . rw [Function.update_of_ne heq]
      simp [heq]
  . intro id' addr hget
    unfold rebind at hget
    dsimp only at hget
    by_cases heq : id' = id
    . rw [heq, Function.update_self] at hget
      simp at hget
    . rw [Function.update_of_ne heq] at hget
      exact h.object id' addr hget

theorem step (h : Holds space f) {op : MapOp} (hid : op.id ≠ invalidId)
    : ∃ space' result, op.run space = some (space', result)
        ∧ Answers f space op space' result
        ∧ Holds space' (rebind f op result) := by
  cases op with
  | query id => exact h.query hid
  | drop id => exact h.drop hid

end Holds

theorem objectMap_holds {space : AoiSpace} {cookie : AllocCookie}
    (hnew : space.object = (mapNew cookie).2) (ops : List MapOp)
    (hids : ∀ op ∈ ops, op.id ≠ invalidId)
    : ∃ space' history, run MapOp.recordStep (space, []) ops = some (space', history)
        ∧ history.map Prod.fst = ops
        ∧ Holds space' (stored history) := by
  have hstep : ∀ (past : List MapOp) (s : AoiSpace × List (MapOp × Option Nat)) (op : MapOp),
      s.2.map Prod.fst = past ∧ Holds s.1 (stored s.2) → op.id ≠ invalidId →
      ∃ s', MapOp.recordStep s op = some s'
        ∧ s'.2.map Prod.fst = past ++ [op] ∧ Holds s'.1 (stored s'.2) := by
    rintro past ⟨space, history⟩ op ⟨hpast, h⟩ hid
    obtain ⟨space', result, hrun, -, hnext⟩ := h.step hid
    refine ⟨(space', history ++ [(op, result)]), ?_, ?_, ?_⟩
    . unfold MapOp.recordStep
      dsimp only
      rw [hrun]
    . rw [List.map_append, hpast]
      rfl
    . rw [stored_append]
      exact hnext
  have hempty : ([] : List (MapOp × Option Nat)).map Prod.fst = [] ∧ Holds space (stored []) :=
    ⟨rfl, .mapNew hnew⟩
  obtain ⟨⟨space', history⟩, hrun, hpast, h⟩ := run.total hstep (s := (space, [])) hempty hids
  exact ⟨space', history, hrun, hpast, h⟩

theorem objectMap_isFiniteMap {space : AoiSpace} {cookie : AllocCookie}
    (hnew : space.object = (mapNew cookie).2) (ops : List MapOp)
    (hids : ∀ op ∈ ops, op.id ≠ invalidId)
    : ∃ space' history, run MapOp.recordStep (space, []) ops = some (space', history)
        ∧ history.map Prod.fst = ops
        ∧ IsFiniteMap space' (stored history)
        ∧ ∀ op : MapOp, op.id ≠ invalidId →
          ∃ space'' result, op.run space' = some (space'', result)
            ∧ Answers (stored history) space' op space'' result
            ∧ IsFiniteMap space'' (stored (history ++ [(op, result)])) := by
  obtain ⟨space', history, hrun, hpast, h⟩ := objectMap_holds hnew ops hids
  refine ⟨space', history, hrun, hpast, h.isFiniteMap, ?_⟩
  intro op hid
  obtain ⟨space'', result, hrun', hanswers, hnext⟩ := h.step hid
  refine ⟨space'', result, hrun', hanswers, ?_⟩
  rw [stored_append]
  exact hnext.isFiniteMap

theorem objectMap_isFiniteMap_colliding
    : (∀ op ∈ [MapOp.query 3, .query 19, .drop 3, .drop 35, .query 3], op.id ≠ invalidId)
        ∧ ∃ space history, run MapOp.recordStep (caoiCreate, [])
            [.query 3, .query 19, .drop 3, .drop 35, .query 3] = some (space, history)
          ∧ IsFiniteMap space (stored history) := by
  refine ⟨by decide, ?_⟩
  have hnew : caoiCreate.object = (mapNew (AllocCookie.alloc ⟨0, 0, 0⟩ sizeofAoiSpace)).2 := rfl
  obtain ⟨space, history, hrun, -, hmap, -⟩ :=
    objectMap_isFiniteMap hnew [.query 3, .query 19, .drop 3, .drop 35, .query 3] (by decide)
  exact ⟨space, history, hrun, hmap⟩

end Caoi
