import SkynetAoi.Caoi.Lemmas.Object

/-!
This module contains how `set_push` sorts the objects into the four object sets and what it leaves
of their modes.
-/

namespace Caoi

namespace Object

def hasRole (obj : Object) : Bool :=
  obj.isWatcher || obj.isMarker

def staticWatcher (obj : Object) : Bool :=
  obj.isWatcher && !obj.isMove

def staticMarker (obj : Object) : Bool :=
  obj.isMarker && !obj.isMove

def moveWatcher (obj : Object) : Bool :=
  obj.isWatcher && obj.isMove

def moveMarker (obj : Object) : Bool :=
  obj.isMarker && obj.isMove

def settle (obj : Object) : Object :=
  if obj.isMove && obj.hasRole then { obj with mode := obj.mode &&& ~~~modeMove } else obj

theorem settle_mode_bits (mode : Mode)
    : (mode &&& ~~~modeMove) &&& modeWatcher = mode &&& modeWatcher
        ∧ (mode &&& ~~~modeMove) &&& modeMarker = mode &&& modeMarker
        ∧ (mode &&& ~~~modeMove) &&& modeDrop = mode &&& modeDrop
        ∧ (mode &&& ~~~modeMove) &&& modeMove = 0 := by
  revert mode
  decide

theorem settle_eq (obj : Object) : obj.settle = { obj with mode := obj.settle.mode } := by
  unfold settle
  split
  . rfl
  . rfl

theorem settle_id (obj : Object) : obj.settle.id = obj.id := by
  rw [settle_eq]

theorem settle_ref (obj : Object) : obj.settle.ref = obj.ref := by
  rw [settle_eq]

theorem settle_version (obj : Object) : obj.settle.version = obj.version := by
  rw [settle_eq]

theorem settle_position (obj : Object) : obj.settle.position = obj.position := by
  rw [settle_eq]

theorem settle_last (obj : Object) : obj.settle.last = obj.last := by
  rw [settle_eq]

theorem settle_isWatcher (obj : Object) : obj.settle.isWatcher = obj.isWatcher := by
  unfold settle isWatcher
  split
  . rw [(settle_mode_bits obj.mode).1]
  . rfl

theorem settle_isMarker (obj : Object) : obj.settle.isMarker = obj.isMarker := by
  unfold settle isMarker
  split
  . rw [(settle_mode_bits obj.mode).2.1]
  . rfl

theorem settle_isDrop (obj : Object) : obj.settle.isDrop = obj.isDrop := by
  unfold settle isDrop
  split
  . rw [(settle_mode_bits obj.mode).2.2.1]
  . rfl

theorem settle_isMove (obj : Object) : obj.settle.isMove = (obj.isMove && !obj.hasRole) := by
  cases hmove : obj.isMove with
  | false => simp [settle, hmove]
  | true =>
    cases hrole : obj.hasRole with
    | false => simp [settle, hmove, hrole]
    | true =>
      have : obj.settle.mode = obj.mode &&& ~~~modeMove := by
        simp [settle, hmove, hrole]
      simp only [isMove, this, Bool.not_true, Bool.and_false, bne_eq_false_iff_eq]
      exact (settle_mode_bits obj.mode).2.2.2

end Object

def holds (heap : Heap Object) (kind : Object → Bool) (addr : Nat) : Bool :=
  match heap.get addr with
  | some obj => kind obj
  | none => false

theorem holds_iff (heap : Heap Object) (kind : Object → Bool) (addr : Nat)
    : holds heap kind addr = true ↔ ∃ obj, heap.get addr = some obj ∧ kind obj = true := by
  unfold holds
  cases heap.get addr with
  | none => simp
  | some obj => simp

theorem holds_congr {heap heap' : Heap Object} {addr : Nat} (h : heap'.get addr = heap.get addr)
    (kind : Object → Bool) : holds heap' kind addr = holds heap kind addr := by
  unfold holds
  rw [h]

/--
The pushed addresses are at the end of the sets of their kinds and their objects are settled.
-/
structure Pushes (space : AoiSpace) (addrs : List Nat) (space' : AoiSpace) : Prop where
  object : space'.object = space.object
  hot : space'.hot = space.hot
  watcherStatic : space'.watcherStatic.slot
    = space.watcherStatic.slot ++ addrs.filter (holds space.heap Object.staticWatcher)
  markerStatic : space'.markerStatic.slot
    = space.markerStatic.slot ++ addrs.filter (holds space.heap Object.staticMarker)
  watcherMove : space'.watcherMove.slot
    = space.watcherMove.slot ++ addrs.filter (holds space.heap Object.moveWatcher)
  markerMove : space'.markerMove.slot
    = space.markerMove.slot ++ addrs.filter (holds space.heap Object.moveMarker)
  heap : ∀ a, space'.heap.get a
    = if a ∈ addrs then (space.heap.get a).map Object.settle else space.heap.get a

theorem setPushBack_slot (cookie : AllocCookie) (set : ObjectSet) (addr : Nat)
    : (setPushBack cookie set addr).2.slot = set.slot ++ [addr] := by
  unfold setPushBack
  split
  . rfl
  . rfl

theorem filter_holds_singleton {heap : Heap Object} {addr : Nat} {obj : Object}
    (hget : heap.get addr = some obj) (kind : Object → Bool)
    : [addr].filter (holds heap kind) = if kind obj then [addr] else [] := by
  simp [List.filter_cons, holds, hget]

theorem setPush_spec {space : AoiSpace} {addr : Nat} {obj : Object}
    (hget : space.heap.get addr = some obj)
    : ∃ space', setPush space addr = some space' ∧ Pushes space [addr] space' := by
  obtain ⟨heap, hwrite, hheap⟩ :=
    Heap.write_of_get hget { obj with mode := obj.mode &&& ~~~modeMove }
  unfold setPush
  rw [hget]
  dsimp only
  have hw : (obj.mode &&& modeWatcher ≠ 0) ↔ obj.isWatcher = true := by
    simp [Object.isWatcher]
  have hm : (obj.mode &&& modeMarker ≠ 0) ↔ obj.isMarker = true := by
    simp [Object.isMarker]
  have hv : (obj.mode &&& modeMove ≠ 0) ↔ obj.isMove = true := by
    simp [Object.isMove]
  simp only [hw, hm, hv]
  have hsettle : ∀ (h : Heap Object), (∀ a, h.get a
      = if a = addr then some obj.settle else space.heap.get a) →
      ∀ a, h.get a = if a ∈ [addr] then (space.heap.get a).map Object.settle
        else space.heap.get a := by
    intro h hh a
    rw [hh]
    simp only [List.mem_singleton]
    split
    . next heq => simp [heq, hget]
    . rfl
  have hstay : obj.settle = obj → ∀ a, space.heap.get a
      = if a = addr then some obj.settle else space.heap.get a := by
    intro hsame a
    rw [hsame]
    split
    . next heq => rw [heq, hget]
    . rfl
  cases hcw : obj.isWatcher <;> cases hcm : obj.isMarker <;> cases hcv : obj.isMove
  all_goals
    simp only [Bool.false_eq_true, ↓reduceIte, or_self, or_true, true_or, and_false, and_true,
      and_self]
    try rw [hwrite]
    refine ⟨_, rfl, rfl, rfl, ?_, ?_, ?_, ?_, ?_⟩
    . simp [filter_holds_singleton hget, Object.staticWatcher, hcw, hcv, setPushBack_slot]
    . simp [filter_holds_singleton hget, Object.staticMarker, hcm, hcv, setPushBack_slot]
    . simp [filter_holds_singleton hget, Object.moveWatcher, hcw, hcv, setPushBack_slot]
    . simp [filter_holds_singleton hget, Object.moveMarker, hcm, hcv, setPushBack_slot]
    . apply hsettle
      first
        | apply hstay
          simp [Object.settle, Object.hasRole, hcw, hcm, hcv]
        | simp only [Object.settle, Object.hasRole, hcw, hcm, hcv, Bool.and_self, Bool.or_self,
            Bool.or_true, Bool.true_or, ↓reduceIte]
          exact hheap

theorem Pushes.nil (space : AoiSpace) : Pushes space [] space := by
  constructor <;> simp

theorem Pushes.cons {s1 s2 s3 : AoiSpace} {addr : Nat} {addrs : List Nat}
    (h12 : Pushes s1 [addr] s2) (h23 : Pushes s2 addrs s3) (hnotin : addr ∉ addrs)
    : Pushes s1 (addr :: addrs) s3 := by
  have hsame : ∀ a ∈ addrs, s2.heap.get a = s1.heap.get a := by
    intro a ha
    have hne : a ≠ addr := by
      intro heq
      rw [heq] at ha
      exact hnotin ha
    rw [h12.heap]
    simp [hne]
  have hfilter : ∀ (kind : Object → Bool), addrs.filter (holds s2.heap kind)
      = addrs.filter (holds s1.heap kind) := by
    intro kind
    apply List.filter_congr
    intro a ha
    apply holds_congr
    exact hsame a ha
  have hcons : ∀ (kind : Object → Bool), (addr :: addrs).filter (holds s1.heap kind)
      = [addr].filter (holds s1.heap kind) ++ addrs.filter (holds s1.heap kind) := by
    intro kind
    rw [← List.filter_append]
    rfl
  constructor
  . rw [h23.object, h12.object]
  . rw [h23.hot, h12.hot]
  . rw [h23.watcherStatic, h12.watcherStatic, hfilter, hcons, List.append_assoc]
  . rw [h23.markerStatic, h12.markerStatic, hfilter, hcons, List.append_assoc]
  . rw [h23.watcherMove, h12.watcherMove, hfilter, hcons, List.append_assoc]
  . rw [h23.markerMove, h12.markerMove, hfilter, hcons, List.append_assoc]
  . intro a
    rw [h23.heap]
    by_cases ha : a ∈ addrs
    . simp [ha, hsame a ha]
    . rw [h12.heap]
      simp [ha]

theorem setPushAll_spec (addrs : List Nat) (space : AoiSpace) (hnodup : addrs.Nodup)
    (hlive : ∀ a ∈ addrs, ∃ obj, space.heap.get a = some obj)
    : ∃ space', setPushAll space addrs = some space' ∧ Pushes space addrs space' := by
  induction addrs generalizing space with
  | nil => exact ⟨space, rfl, Pushes.nil space⟩
  | cons addr addrs ih =>
    rw [List.nodup_cons] at hnodup
    obtain ⟨obj, hget⟩ := hlive addr (by simp)
    obtain ⟨space1, hpush, hpushes⟩ := setPush_spec hget
    have hlive1 : ∀ a ∈ addrs, ∃ obj, space1.heap.get a = some obj := by
      intro a ha
      obtain ⟨o, ho⟩ := hlive a (by simp [ha])
      rw [hpushes.heap, ho]
      split
      . exact ⟨_, rfl⟩
      . exact ⟨_, rfl⟩
    obtain ⟨space', hpushAll, hpushes'⟩ := ih space1 hnodup.2 hlive1
    refine ⟨space', ?_, hpushes.cons hpushes' hnodup.1⟩
    unfold setPushAll
    rw [hpush]
    exact hpushAll

theorem Counted.pushes {space space' : AoiSpace} {addrs : List Nat} {ends : Nat → Nat}
    (hc : Counted space ends) (hpushes : Pushes space addrs space') : Counted space' ends := by
  have hsub : ∀ a o', space'.heap.get a = some o' →
      ∃ o, space.heap.get a = some o
        ∧ o'.id = o.id
        ∧ o'.ref = o.ref
        ∧ o'.isDrop = o.isDrop := by
    intro a o' h
    rw [hpushes.heap] at h
    split at h
    . rw [Option.map_eq_some_iff] at h
      obtain ⟨o, ho, heq⟩ := h
      rw [← heq]
      exact ⟨o, ho, o.settle_id, o.settle_ref, o.settle_isDrop⟩
    . exact ⟨o', h, rfl, rfl, rfl⟩
  constructor
  . rw [hpushes.object]
    exact hc.wf
  . intro a o' h
    obtain ⟨o, ho, hid, -⟩ := hsub a o' h
    rw [hpushes.object, hid]
    exact hc.stored a o ho
  . intro id a h
    rw [hpushes.object] at h
    obtain ⟨o, ho, hid⟩ := hc.live id a h
    rw [hpushes.heap, ho]
    split
    . refine ⟨o.settle, rfl, ?_⟩
      rw [o.settle_id, hid]
    . exact ⟨o, rfl, hid⟩
  . intro a o' h
    obtain ⟨o, ho, -, href, hdrop⟩ := hsub a o' h
    rw [href, hdrop]
    exact hc.ref a o ho
  . intro a o' h
    obtain ⟨o, ho, -, href, -⟩ := hsub a o' h
    rw [href]
    exact hc.pos a o ho
  . intro a h
    apply hc.dead
    rw [hpushes.heap] at h
    split at h
    . simpa using h
    . exact h

end Caoi
