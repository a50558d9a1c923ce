import SkynetAoi.Caoi.FiniteMap

/-!
This module contains that `map_insert` returns after at most one `rehash` for any map that `map_query`
and `map_drop` can make. Each `rehash` doubles the size of the map, so the size counts them.
-/

namespace Caoi

inductive InsertStep where
  | done (m : Map)
  | evicted (m : Map) (id : UInt32) (obj : Nat)
  | full (m : Map)

def insertStep (m : Map) (id : UInt32) (obj : Nat) : Option InsertStep :=
  let h := mainposition m id
  match m.slot[h]? with
  | none => none
  | some s =>
    if s.id = invalidId then
      some (.done (m.setSlot h { s with id := id, obj := some obj }))
    else if mainposition m s.id ≠ h then
      match findLast m h m.size (mainposition m s.id) with
      | none => none
      | some last =>
        match m.slot[last]? with
        | none => none
        | some lastSlot =>
          let m := m.setSlot last { lastSlot with next := s.next }
          let m := m.setSlot h { id := id, obj := some obj, next := -1 }
          match s.obj with
          | some tempObj => some (.evicted m s.id tempObj)
          | none => some (.done m)
    else
      match takeFree m (m.lastfree + 1).toNat with
      | none => none
      | some (some temp, lastfree) =>
        let m := { m with lastfree := lastfree }
        let m := m.setSlot temp { id := id, obj := some obj, next := s.next }
        some (.done (m.setSlot h { s with next := temp }))
      | some (none, lastfree) => some (.full { m with lastfree := lastfree })

-- How often the insertions that `rehash` makes call it again.
def nestedRehashes (rehashes : AllocCookie → Map → UInt32 → Nat → Nat)
    (mapInsert : AllocCookie → Map → UInt32 → Nat → Option (AllocCookie × Map))
    (cookie : AllocCookie) (m : Map) : Nat :=
  go m.slot (cookie.alloc (2 * m.size * sizeofMapSlot)) (rehash.blank (2 * m.size))
where
  go (oldSlot : List MapSlot) (cookie : AllocCookie) (m : Map) : Nat :=
    match oldSlot with
    | [] => 0
    | s :: oldSlot =>
      match s.obj with
      | none => go oldSlot cookie m
      | some obj =>
        match mapInsert cookie m s.id obj with
        | none => rehashes cookie m s.id obj
        | some (cookie', m') => rehashes cookie m s.id obj + go oldSlot cookie' m'

def rehashes (fuel : Nat) (cookie : AllocCookie) (m : Map) (id : UInt32) (obj : Nat) : Nat :=
  match fuel with
  | 0 => 0
  | fuel + 1 =>
    match insertStep m id obj with
    | none => 0
    | some (.done _) => 0
    | some (.evicted m id obj) => rehashes fuel cookie m id obj
    | some (.full m) =>
      let nested := nestedRehashes (rehashes fuel) (mapInsert fuel) cookie m
      match rehash (mapInsert fuel) cookie m with
      | none => 1 + nested
      | some (cookie, m) => 1 + nested + rehashes fuel cookie m id obj

namespace mapInsert

theorem succ_eq (fuel : Nat) (cookie : AllocCookie) (m : Map) (id : UInt32) (obj : Nat)
    : mapInsert (fuel + 1) cookie m id obj
        = match insertStep m id obj with
          | none => none
          | some (.done m) => some (cookie, m)
          | some (.evicted m id obj) => mapInsert fuel cookie m id obj
          | some (.full m) =>
            match rehash (mapInsert fuel) cookie m with
            | none => none
            | some (cookie, m) => mapInsert fuel cookie m id obj := by
  conv =>
    lhs
    unfold mapInsert
  unfold insertStep
  dsimp only
  cases m.slot[mainposition m id]? with
  | none => rfl
  | some s =>
    dsimp only
    by_cases hfree : s.id = invalidId
    . simp only [hfree, ↓reduceIte]
    . by_cases hmain : mainposition m s.id ≠ mainposition m id
      . simp only [hfree, hmain, ↓reduceIte, ne_eq, not_false_eq_true]
        cases findLast m (mainposition m id) m.size (mainposition m s.id) with
        | none => rfl
        | some last =>
          dsimp only
          cases m.slot[last]? with
          | none => rfl
          | some lastSlot =>
            cases hobj : s.obj with
            | none => rfl
            | some tempObj => rfl
      . simp only [hfree, hmain, ↓reduceIte]
        rcases takeFree m (m.lastfree + 1).toNat with _ | ⟨_ | temp, lastfree⟩
        . rfl
        . rfl
        . rfl

end mapInsert

namespace insertStep

def result (step : InsertStep) : Map :=
  match step with
  | .done m => m
  | .evicted m _ _ => m
  | .full m => m

theorem size_eq {m : Map} {id : UInt32} {obj : Nat} {step : InsertStep}
    (h : insertStep m id obj = some step)
    : (result step).size = m.size := by
  unfold insertStep at h
  dsimp only at h
  cases hs : m.slot[mainposition m id]? with
  | none => simp [hs] at h
  | some s =>
    simp only [hs] at h
    by_cases hfree : s.id = invalidId
    . simp only [hfree, ↓reduceIte, Option.some.injEq] at h
      rw [← h]
      rfl
    . by_cases hmain : mainposition m s.id ≠ mainposition m id
      . simp only [hfree, hmain, ↓reduceIte, ne_eq, not_false_eq_true] at h
        cases hlast : findLast m (mainposition m id) m.size (mainposition m s.id) with
        | none => simp [hlast] at h
        | some last =>
          simp only [hlast] at h
          cases hslot : m.slot[last]? with
          | none => simp [hslot] at h
          | some lastSlot =>
            cases hobj : s.obj with
            | none =>
              simp only [hslot, hobj, Option.some.injEq] at h
              rw [← h]
              rfl
            | some tempObj =>
              simp only [hslot, hobj, Option.some.injEq] at h
              rw [← h]
              rfl
      . simp only [hfree, hmain, ↓reduceIte] at h
        rcases htake : takeFree m (m.lastfree + 1).toNat with _ | ⟨_ | temp, lastfree⟩
        . simp [htake] at h
        . simp only [htake, Option.some.injEq] at h
          rw [← h]
          rfl
        . simp only [htake, Option.some.injEq] at h
          rw [← h]
          rfl

end insertStep

namespace rehashes

theorem go_size_eq {rehashes : AllocCookie → Map → UInt32 → Nat → Nat}
    {mapInsert : AllocCookie → Map → UInt32 → Nat → Option (AllocCookie × Map)}
    (hinsert : ∀ {cookie cookie' m m' id obj}, mapInsert cookie m id obj = some (cookie', m') →
      m'.size = 2 ^ rehashes cookie m id obj * m.size)
    (slots : List MapSlot) {cookie cookie' : AllocCookie} {m m' : Map}
    (h : rehash.go mapInsert slots cookie m = some (cookie', m'))
    : m'.size = 2 ^ nestedRehashes.go rehashes mapInsert slots cookie m * m.size := by
  induction slots generalizing cookie m with
  | nil =>
    simp only [rehash.go, Option.some.injEq, Prod.mk.injEq] at h
    simp [nestedRehashes.go, h.2]
  | cons s slots ih =>
    unfold rehash.go at h
    unfold nestedRehashes.go
    cases hobj : s.obj with
    | none =>
      simp only [hobj] at h
      exact ih h
    | some obj =>
      simp only [hobj] at h
      cases hins : mapInsert cookie m s.id obj with
      | none => simp [hins] at h
      | some result =>
        simp only [hins] at h
        dsimp only
        rw [hins]
        dsimp only
        rw [ih h, hinsert hins, Nat.pow_add]
        ring

theorem rehash_size_eq {rehashes : AllocCookie → Map → UInt32 → Nat → Nat}
    {mapInsert : AllocCookie → Map → UInt32 → Nat → Option (AllocCookie × Map)}
    (hinsert : ∀ {cookie cookie' m m' id obj}, mapInsert cookie m id obj = some (cookie', m') →
      m'.size = 2 ^ rehashes cookie m id obj * m.size)
    {cookie cookie' : AllocCookie} {m m' : Map}
    (h : rehash mapInsert cookie m = some (cookie', m'))
    : m'.size = 2 ^ nestedRehashes rehashes mapInsert cookie m * (2 * m.size) := by
  unfold rehash at h
  dsimp only at h
  cases hgo : rehash.go mapInsert m.slot (cookie.alloc (2 * m.size * sizeofMapSlot))
    (rehash.blank (2 * m.size)) with
  | none =>
    unfold rehash.blank at hgo
    rw [hgo] at h
    cases h
  | some result =>
    have hsize := go_size_eq hinsert m.slot hgo
    unfold rehash.blank at hgo
    rw [hgo] at h
    simp only [Option.some.injEq, Prod.mk.injEq] at h
    rw [← h.2]
    exact hsize

theorem size_eq (fuel : Nat) {cookie cookie' : AllocCookie} {m m' : Map} {id : UInt32} {obj : Nat}
    (h : mapInsert fuel cookie m id obj = some (cookie', m'))
    : m'.size = 2 ^ rehashes fuel cookie m id obj * m.size := by
  induction fuel generalizing cookie cookie' m m' id obj with
  | zero => simp [mapInsert] at h
  | succ fuel ih =>
    rw [mapInsert.succ_eq] at h
    unfold rehashes
    cases hstep : insertStep m id obj with
    | none => simp [hstep] at h
    | some step =>
      have hsize := insertStep.size_eq hstep
      rw [hstep] at h
      rw [← hsize]
      cases step with
      | done m1 =>
        simp only [Option.some.injEq, Prod.mk.injEq] at h
        simp [h.2, insertStep.result]
      | evicted m1 id1 obj1 => exact ih h
      | full m1 =>
        dsimp only at h
        cases hrehash : rehash (mapInsert fuel) cookie m1 with
        | none => simp [hrehash] at h
        | some result =>
          simp only [hrehash] at h
          dsimp only [insertStep.result]
          rw [hrehash]
          dsimp only
          rw [ih h, rehash_size_eq ih hrehash, Nat.pow_add, Nat.pow_add]
          ring

theorem le_one {n size size' : Nat} (hpos : 0 < size) (heq : size' = 2 ^ n * size)
    (hsize : size' = size ∨ size' = 2 * size) : n ≤ 1 := by
  have hle : 2 ^ n * size ≤ 2 ^ 1 * size := by omega
  have hpow : 2 ^ n ≤ 2 ^ 1 := Nat.le_of_mul_le_mul_right hle hpos
  exact (Nat.pow_le_pow_iff_right (by omega)).mp hpow

theorem nested_eq_zero {m : Map} (hm : m.WF) (fuel : Nat) (cookie : AllocCookie)
    : nestedRehashes (rehashes (fuel + 2)) (mapInsert (fuel + 2)) cookie m = 0 := by
  obtain ⟨cookie', m', hrehash, -, hsize, -⟩ := rehash.spec hm fuel cookie
  have heq := rehash_size_eq (size_eq (fuel + 2)) hrehash
  rw [hsize] at heq
  have hpos : 0 < 2 * m.size := by
    have := hm.size_pos
    omega
  have hone : 2 ^ nestedRehashes (rehashes (fuel + 2)) (mapInsert (fuel + 2)) cookie m = 1 := by
    apply Nat.eq_of_mul_eq_mul_right hpos
    rw [← heq, Nat.one_mul]
  simpa using hone

end rehashes

namespace Map

structure Bounded (m : Map) : Prop where
  length : m.slot.length = m.size
  next : ∀ (i : Nat), i < m.size → m.next i = -1 ∨ (0 ≤ m.next i ∧ m.next i < m.size)
  occupied : ∀ (i : Nat), i < m.size → m.lastfree < i → m.Occupied i

theorem WF.next {m : Map} (hm : m.WF) (i : Nat)
    : m.next i = -1 ∨ (0 ≤ m.next i ∧ m.next i < m.size) := by
  by_cases hocc : m.Occupied i
  . obtain ⟨c, hc⟩ := hm.chain _ (hm.mainposition_lt (m.slotAt i).id)
    have hmem : i ∈ c := by
      rw [hc.mem]
      exact ⟨hocc, rfl⟩
    obtain ⟨c1, c2, rfl⟩ := List.append_of_mem hmem
    have hlinked := (hc.linked_of_mem hmem).suffix.tail
    cases c2 with
    | nil =>
      left
      generalize m.next i = start at hlinked
      cases hlinked
      rfl
    | cons j c2 =>
      have hj := hm.lt_size_of_occupied ((hc.mem j).mp (by simp)).1
      rw [hlinked.head_eq]
      omega
  . left
    unfold Map.next
    rw [hm.free i hocc]
    rfl

theorem WF.bounded {m : Map} (hm : m.WF) : m.Bounded where
  length := hm.length
  next := fun i _ => hm.next i
  occupied := hm.occupied

theorem placeFree.bounded {m : Map} (hm : m.WF) {id : UInt32} {temp : Nat} (htemp : temp < m.size)
    (hid : id ≠ invalidId) (hocc : m.Occupied (mainposition m id))
    (hfree : ¬m.Occupied temp) (hrest : ∀ (i : Nat), temp < i → i < m.size → m.Occupied i)
    (obj : Nat)
    : (m.placeFree temp (temp - 1) id obj).Bounded where
  length := by
    rw [(writes hm htemp hfree hocc).length, hm.length]
    rfl
  next := by
    intro i _
    unfold Map.next
    rw [slotAt_eq hm htemp]
    have hsize : (m.placeFree temp (temp - 1) id obj).size = m.size := rfl
    rw [hsize]
    split
    . dsimp only
      omega
    . split
      . exact hm.next _
      . exact hm.next i
  occupied := by
    intro i hi hlast
    have hw : m.Writes (m.placeFree temp (temp - 1) id obj) temp id obj :=
      writes hm htemp hfree hocc
    unfold Occupied
    by_cases heq : i = temp
    . rw [heq, hw.slot.1]
      exact hid
    . rw [(hw.other i heq).1]
      have hlast' : (temp : Int) - 1 < i := hlast
      exact hrest i (by omega) hi

end Map

namespace mapInsert

variable {m : Map} {id : UInt32}

theorem spec_of_unstored (hm : m.WF) (hid : id ≠ invalidId) (hnone : ∀ addr, ¬m.Stores id addr)
    (cookie : AllocCookie) (obj : Nat)
    : ∃ cookie' m', mapInsert insertDepth cookie m id obj = some (cookie', m')
        ∧ m'.Bounded
        ∧ (m'.size = m.size ∨ m'.size = 2 * m.size) := by
  by_cases hhas : m.Has id
  . obtain ⟨i, hi⟩ := hhas
    have hmain : m.Occupied (mainposition m id)
        ∧ mainposition m (m.slotAt (mainposition m id)).id = mainposition m id := by
      rw [← hi]
      apply hm.main_occupied
      unfold Map.Occupied
      rw [hi]
      exact hid
    by_cases hfree : ∃ (i : Nat), i < m.size ∧ ¬m.Occupied i
    . obtain ⟨temp, htemp, hfree, hrest, heq⟩ := eq_placeFree hm hmain.1 hmain.2 hfree 3 cookie obj
      refine ⟨cookie, _, heq, ?_, .inl rfl⟩
      exact Map.placeFree.bounded hm htemp hid hmain.1 hfree hrest obj
    . push Not at hfree
      obtain ⟨cookie', m', hins, hadds, hsize⟩ :=
        spec_of_full hm hid hnone hmain.1 hmain.2 hfree 1 cookie obj
      exact ⟨cookie', m', hins, hadds.wf.bounded, .inr hsize⟩
  . obtain ⟨cookie', m', hins, hadds, hsize⟩ := spec hm hid hhas cookie obj
    exact ⟨cookie', m', hins, hadds.wf.bounded, hsize⟩

end mapInsert

theorem findLast.returns {m : Map} (hm : m.WF) {h : Nat} (hocc : m.Occupied h)
    (hmain : mainposition m (m.slotAt h).id ≠ h)
    : ∃ last, findLast m h m.size (mainposition m (m.slotAt h).id) = some last
        ∧ m.next last = h := by
  obtain ⟨last, c1, c2, hfind, hc⟩ := mapInsert.findLast_spec hm hocc hmain
  refine ⟨last, hfind, ?_⟩
  exact (hc.linked_of_mem (i := h) (by simp)).suffix.tail.head_eq

/--
After any operations `map_insert` of an id without an object comes to an end, none of its walks fails
and at most one `rehash` is made.
-/
theorem mapInsert_returns {space : AoiSpace} {cookie : AllocCookie}
    (hnew : space.object = (mapNew cookie).2) (ops : List MapOp)
    (hids : ∀ op ∈ ops, op.id ≠ invalidId)
    : ∃ space' history, run MapOp.recordStep (space, []) ops = some (space', history)
        ∧ space'.object.Bounded
        ∧ (∀ (h : Nat), space'.object.Occupied h →
          mainposition space'.object (space'.object.slotAt h).id ≠ h →
          ∃ last, findLast space'.object h space'.object.size
              (mainposition space'.object (space'.object.slotAt h).id) = some last
            ∧ space'.object.next last = h)
        ∧ (∀ (fuel : Nat) (cookie : AllocCookie),
          nestedRehashes (rehashes (fuel + 2)) (mapInsert (fuel + 2)) cookie space'.object = 0)
        ∧ ∀ (id : UInt32), id ≠ invalidId → (∀ addr, ¬space'.object.Stores id addr) →
          ∀ (cookie : AllocCookie) (obj : Nat),
          ∃ cookie' m', mapInsert insertDepth cookie space'.object id obj = some (cookie', m')
            ∧ rehashes insertDepth cookie space'.object id obj ≤ 1
            ∧ m'.Bounded := by
  obtain ⟨space', history, hrun, -, h⟩ := objectMap_holds hnew ops hids
  have hwf := h.wf
  refine ⟨space', history, hrun, hwf.bounded, ?_, ?_, ?_⟩
  . intro h hocc hmain
    exact findLast.returns hwf hocc hmain
  . intro fuel cookie
    exact rehashes.nested_eq_zero hwf fuel cookie
  . intro id hid hnone cookie obj
    obtain ⟨cookie', m', hins, hbounded, hsize⟩ :=
      mapInsert.spec_of_unstored hwf hid hnone cookie obj
    refine ⟨cookie', m', hins, ?_, hbounded⟩
    exact rehashes.le_one hwf.size_pos (rehashes.size_eq insertDepth hins) hsize

theorem mapInsert_returns_colliding
    : (∀ op ∈ [MapOp.query 3, .query 19, .drop 3], op.id ≠ invalidId)
        ∧ ∃ space history, run MapOp.recordStep (caoiCreate, [])
            [.query 3, .query 19, .drop 3] = some (space, history)
          ∧ (∀ addr, ¬space.object.Stores 3 addr)
          ∧ ∃ cookie' m', mapInsert insertDepth space.cookie space.object 3 7 = some (cookie', m')
            ∧ rehashes insertDepth space.cookie space.object 3 7 ≤ 1
            ∧ m'.Bounded := by
  refine ⟨by decide, ?_⟩
  have hnew : caoiCreate.object = (mapNew (AllocCookie.alloc ⟨0, 0, 0⟩ sizeofAoiSpace)).2 := rfl
  obtain ⟨space, history, hrun, -, -, -, hinsert⟩ :=
    mapInsert_returns hnew [.query 3, .query 19, .drop 3] (by decide)
  have hslots : (run MapOp.recordStep (caoiCreate, []) [.query 3, .query 19, .drop 3]).all
      (fun s => s.1.object.slot.all fun s => s.id ≠ 3 || s.obj.isNone) = true := by
    decide
  rw [hrun, Option.all_some, List.all_eq_true] at hslots
  have hnone : ∀ addr, ¬space.object.Stores 3 addr := by
    obtain ⟨space', history', hrun', -, h⟩ :=
      objectMap_holds hnew [.query 3, .query 19, .drop 3] (by decide)
    rw [hrun, Option.some.injEq, Prod.mk.injEq] at hrun'
    have hwf := h.wf
    rw [← hrun'.1] at hwf
    intro addr hstores
    obtain ⟨s, hs, hid, hobj⟩ := (rehash.mem_slot_iff hwf 3 addr).mpr hstores
    have := hslots s hs
    simp [hid, hobj] at this
  exact ⟨space, history, hrun, hnone, hinsert 3 (by decide) hnone space.cookie 7⟩

end Caoi
