import SkynetAoi.Caoi.Lemmas.Update

/-!
This module contains what the operations on a space do to the cookie of its allocator: every block
that is given back has the size with which it was handed out.
-/

namespace Caoi

namespace AllocCookie

/--
The cookie of an allocator that has handed out `count` blocks with `current` bytes.
-/
structure Owns (cookie : AllocCookie) (count current : Int) : Prop where
  count : cookie.count = count
  current : cookie.current = current
  max : cookie.current ≤ cookie.max

namespace Owns

variable {cookie : AllocCookie} {count current : Int}

theorem alloc (h : cookie.Owns count current) (sz : Nat)
    : (cookie.alloc sz).Owns (count + 1) (current + sz) where
  count := by
    dsimp only [AllocCookie.alloc]
    rw [h.count]
  current := by
    dsimp only [AllocCookie.alloc]
    rw [h.current]
  max := by
    dsimp only [AllocCookie.alloc]
    split
    . omega
    . omega

theorem free (h : cookie.Owns count current) (sz : Nat)
    : (cookie.free sz).Owns (count - 1) (current - sz) where
  count := by
    dsimp only [AllocCookie.free]
    rw [h.count]
  current := by
    dsimp only [AllocCookie.free]
    rw [h.current]
  max := by
    have := h.max
    dsimp only [AllocCookie.free]
    omega

theorem congr (h : cookie.Owns count current) {count' current' : Int} (hcount : count' = count)
    (hcurrent : current' = current) : cookie.Owns count' current' := by
  rw [hcount, hcurrent]
  exact h

end Owns
end AllocCookie

def ObjectSet.bytes (set : ObjectSet) : Nat :=
  sizeofObjectSet + set.cap * sizeofPointer

namespace AoiSpace

def fixedBytes (space : AoiSpace) : Nat :=
  sizeofAoiSpace + (sizeofMap + space.object.size * sizeofMapSlot)
    + space.watcherStatic.bytes + space.markerStatic.bytes
    + space.watcherMove.bytes + space.markerMove.bytes

@[simp]
theorem fixedBytes_heap (space : AoiSpace) (cookie : AllocCookie) (heap : Heap Object)
    : ({ space with cookie := cookie, heap := heap } : AoiSpace).fixedBytes = space.fixedBytes := rfl

end AoiSpace

/--
The cookie is right about a space that owns `pairs` hot pairs. While the hot list is walked they are
not the ones in `hot`.
-/
def Balanced (space : AoiSpace) (pairs : Nat) : Prop :=
  space.cookie.Owns (11 + space.heap.live.card + pairs)
    (space.fixedBytes + space.heap.live.card * sizeofObject + pairs * sizeofPairList)

theorem rehash_owns
    {mapInsert : AllocCookie → Map → UInt32 → Nat → Option (AllocCookie × Map)}
    (hinsert : ∀ {cookie cookie' m m' id obj count rest},
      mapInsert cookie m id obj = some (cookie', m') →
      cookie.Owns count (rest + m.size * sizeofMapSlot) →
      cookie'.Owns count (rest + m'.size * sizeofMapSlot))
    {cookie cookie' : AllocCookie} {m m' : Map} {count rest : Int}
    (h : rehash mapInsert cookie m = some (cookie', m'))
    (howns : cookie.Owns count (rest + m.size * sizeofMapSlot))
    : cookie'.Owns count (rest + m'.size * sizeofMapSlot) := by
  have hgo : ∀ oldSlot cookie m cookie' m' count rest,
      rehash.go mapInsert oldSlot cookie m = some (cookie', m') →
      cookie.Owns count (rest + m.size * sizeofMapSlot) →
      cookie'.Owns count (rest + m'.size * sizeofMapSlot) := by
    intro oldSlot
    induction oldSlot with
    | nil =>
      intro cookie m cookie' m' count rest hgo howns
      simp only [rehash.go, Option.some.injEq, Prod.mk.injEq] at hgo
      rw [← hgo.1, ← hgo.2]
      exact howns
    | cons s oldSlot ih =>
      intro cookie m cookie' m' count rest hgo howns
      rw [rehash.go] at hgo
      split at hgo
      . exact ih _ _ _ _ _ _ hgo howns
      . split at hgo
        . simp at hgo
        . next hins => exact ih _ _ _ _ _ _ hgo (hinsert hins howns)
  unfold rehash at h
  dsimp only at h
  split at h
  . simp at h
  . next cookie1 m1 hgone =>
    simp only [Option.some.injEq, Prod.mk.injEq] at h
    rw [← h.1, ← h.2]
    have h1 := howns.alloc (2 * m.size * sizeofMapSlot)
    have h2 := hgo _ _ _ _ _ (count + 1) (rest + m.size * sizeofMapSlot) hgone
      (h1.congr rfl (by push_cast; rfl))
    have h3 := h2.free (m.size * sizeofMapSlot)
    apply h3.congr
    . omega
    . push_cast
      omega

theorem mapInsert_owns {fuel : Nat} {cookie cookie' : AllocCookie} {m m' : Map} {id : UInt32}
    {obj : Nat} {count rest : Int} (h : mapInsert fuel cookie m id obj = some (cookie', m'))
    (howns : cookie.Owns count (rest + m.size * sizeofMapSlot))
    : cookie'.Owns count (rest + m'.size * sizeofMapSlot) := by
  induction fuel generalizing cookie cookie' m m' id obj count rest with
  | zero => simp [mapInsert] at h
  | succ fuel ih =>
    unfold mapInsert at h
    dsimp only at h
    split at h
    . simp at h
    . split at h
      . simp only [Option.some.injEq, Prod.mk.injEq] at h
        rw [← h.1, ← h.2]
        exact howns
      . split at h
        . split at h
          . simp at h
          . split at h
            . simp at h
            . split at h
              . exact ih h howns
              . simp only [Option.some.injEq, Prod.mk.injEq] at h
                rw [← h.1, ← h.2]
                exact howns
        . split at h
          . simp at h
          . simp only [Option.some.injEq, Prod.mk.injEq] at h
            rw [← h.1, ← h.2]
            exact howns
          . split at h
            . simp at h
            . next hrehash => exact ih h (rehash_owns ih hrehash howns)

theorem mapDrop_size {m m' : Map} {id : UInt32} {obj : Option Nat}
    (h : mapDrop m id = some (m', obj)) : m'.size = m.size := by
  unfold mapDrop at h
  split at h
  . simp at h
  . simp only [Option.some.injEq, Prod.mk.injEq] at h
    rw [← h.1]
  . split at h
    . simp at h
    . simp only [Option.some.injEq, Prod.mk.injEq] at h
      rw [← h.1]
      rfl

def pushWatcher (space : AoiSpace) (mode : Mode) (addr : Nat) : AoiSpace :=
  if mode &&& modeWatcher ≠ 0 then
    if mode &&& modeMove ≠ 0 then
      let (cookie, set) := setPushBack space.cookie space.watcherMove addr
      { space with cookie := cookie, watcherMove := set }
    else
      let (cookie, set) := setPushBack space.cookie space.watcherStatic addr
      { space with cookie := cookie, watcherStatic := set }
  else
    space

def pushMarker (space : AoiSpace) (mode : Mode) (addr : Nat) : AoiSpace :=
  if mode &&& modeMarker ≠ 0 then
    if mode &&& modeMove ≠ 0 then
      let (cookie, set) := setPushBack space.cookie space.markerMove addr
      { space with cookie := cookie, markerMove := set }
    else
      let (cookie, set) := setPushBack space.cookie space.markerStatic addr
      { space with cookie := cookie, markerStatic := set }
  else
    space

theorem setPush_eq (space : AoiSpace) (addr : Nat)
    : setPush space addr
        =
      match space.heap.get addr with
      | none => none
      | some obj =>
        let space' := pushMarker (pushWatcher space obj.mode addr) obj.mode addr
        if obj.mode &&& modeMove ≠ 0
            ∧ (obj.mode &&& modeWatcher ≠ 0 ∨ obj.mode &&& modeMarker ≠ 0) then
          match space'.heap.write addr { obj with mode := obj.mode &&& ~~~modeMove } with
          | none => none
          | some heap => some { space' with heap := heap }
        else
          some space' := rfl

theorem setPush_hot {space space' : AoiSpace} {addr : Nat} (h : setPush space addr = some space')
    : space'.hot = space.hot := by
  have hmarker : ∀ s mode, (pushMarker s mode addr).hot = s.hot := by
    intro s mode
    unfold pushMarker
    split
    . split
      . rfl
      . rfl
    . rfl
  have hwatcher : ∀ s mode, (pushWatcher s mode addr).hot = s.hot := by
    intro s mode
    unfold pushWatcher
    split
    . split
      . rfl
      . rfl
    . rfl
  rw [setPush_eq] at h
  split at h
  . simp at h
  . dsimp only at h
    split at h
    . split at h
      . simp at h
      . rw [Option.some.injEq] at h
        rw [← h]
        dsimp only
        rw [hmarker, hwatcher]
    . rw [Option.some.injEq] at h
      rw [← h, hmarker, hwatcher]

theorem setPushAll_hot {space space' : AoiSpace} {addrs : List Nat}
    (h : setPushAll space addrs = some space') : space'.hot = space.hot := by
  induction addrs generalizing space with
  | nil =>
    simp only [setPushAll, Option.some.injEq] at h
    rw [← h]
  | cons addr addrs ih =>
    unfold setPushAll at h
    split at h
    . simp at h
    . next hone => rw [ih h, setPush_hot hone]

theorem grabObject_hot {space space' : AoiSpace} {addr : Nat}
    (h : grabObject space addr = some space') : space'.hot = space.hot := by
  unfold grabObject at h
  split at h
  . simp at h
  . split at h
    . simp at h
    . rw [Option.some.injEq] at h
      rw [← h]

theorem setPushBack_owns {cookie : AllocCookie} {count rest : Int} {set : ObjectSet}
    (howns : cookie.Owns count (rest + set.bytes)) (addr : Nat)
    : (setPushBack cookie set addr).1.Owns count (rest + (setPushBack cookie set addr).2.bytes) := by
  unfold setPushBack
  split
  . have h := (howns.alloc (set.cap * 2 * sizeofPointer)).free (set.cap * sizeofPointer)
    apply h.congr
    . omega
    . simp only [ObjectSet.bytes]
      push_cast
      omega
  . exact howns

namespace Balanced

variable {space space' : AoiSpace} {pairs : Nat}

theorem congr (h : Balanced space pairs) (hcookie : space'.cookie = space.cookie)
    (hlive : space'.heap.live.card = space.heap.live.card)
    (hbytes : space'.fixedBytes = space.fixedBytes) : Balanced space' pairs := by
  unfold Balanced
  rw [hcookie, hlive, hbytes]
  exact h

theorem exchange (h : Balanced space pairs) (hlive : space'.heap.live.card = space.heap.live.card)
    (old new : Nat) (hbytes : space'.fixedBytes + old = space.fixedBytes + new)
    (howns : ∀ (count rest : Int), space.cookie.Owns count (rest + old) →
      space'.cookie.Owns count (rest + new))
    : Balanced space' pairs := by
  unfold Balanced at h ⊢
  rw [hlive]
  have h' := howns (11 + space.heap.live.card + pairs)
    (space.fixedBytes + space.heap.live.card * sizeofObject + pairs * sizeofPairList - old)
    (h.congr rfl (by omega))
  apply h'.congr rfl
  omega

theorem newObject (h : Balanced space pairs) (id : UInt32)
    : Balanced (Caoi.newObject space id).1 pairs := by
  have hheap : (Caoi.newObject space id).1.heap = (space.heap.alloc (freshObject id)).1 := rfl
  have hbytes : (Caoi.newObject space id).1.fixedBytes = space.fixedBytes := rfl
  unfold Balanced at h ⊢
  rw [hheap, hbytes, Heap.card_live_alloc]
  apply (h.alloc sizeofObject).congr
  . push_cast
    omega
  . push_cast
    ring

theorem mapInsert (h : Balanced space pairs) {fuel : Nat} {id : UInt32} {addr : Nat}
    {cookie : AllocCookie} {m : Map}
    (hinsert : Caoi.mapInsert fuel space.cookie space.object id addr = some (cookie, m))
    : Balanced { space with cookie := cookie, object := m } pairs := by
  refine h.exchange rfl (space.object.size * sizeofMapSlot) (m.size * sizeofMapSlot) ?_ ?_
  . simp only [AoiSpace.fixedBytes]
    omega
  . intro count rest howns
    push_cast at howns ⊢
    exact mapInsert_owns hinsert howns

theorem mapQuery (h : Balanced space pairs) {id : UInt32} {addr : Nat}
    (hquery : Caoi.mapQuery space id = some (space', addr)) : Balanced space' pairs := by
  unfold Caoi.mapQuery at hquery
  dsimp only at hquery
  split at hquery
  . simp at hquery
  . split at hquery
    . simp at hquery
    . split at hquery
      . simp only [Option.some.injEq, Prod.mk.injEq] at hquery
        rw [← hquery.1]
        exact h
      . simp only [Option.some.injEq, Prod.mk.injEq] at hquery
        rw [← hquery.1]
        exact (h.newObject id).congr rfl rfl rfl
  . split at hquery
    . simp at hquery
    . next cookie m hinsert =>
      simp only [Option.some.injEq, Prod.mk.injEq] at hquery
      rw [← hquery.1]
      exact (h.newObject id).mapInsert hinsert

theorem write (h : Balanced space pairs) {addr : Nat} {obj : Object} {heap : Heap Object}
    (hwrite : space.heap.write addr obj = some heap)
    : Balanced { space with heap := heap } pairs := by
  refine h.congr rfl ?_ rfl
  exact Heap.card_live_write hwrite

theorem deleteObject (h : Balanced space pairs) {addr : Nat}
    (hdelete : Caoi.deleteObject space addr = some space') : Balanced space' pairs := by
  unfold Caoi.deleteObject at hdelete
  split at hdelete
  . simp at hdelete
  . next heap hfree =>
    have hcard := Heap.card_live_free hfree
    rw [Option.some.injEq] at hdelete
    rw [← hdelete]
    unfold Balanced at h ⊢
    rw [← hcard] at h
    apply (AllocCookie.Owns.free h sizeofObject).congr
    . push_cast
      omega
    . rw [AoiSpace.fixedBytes_heap]
      push_cast
      ring

theorem dropObject (h : Balanced space pairs) {addr : Nat}
    (hdrop : Caoi.dropObject space addr = some space') : Balanced space' pairs := by
  unfold Caoi.dropObject at hdrop
  split at hdrop
  . simp at hdrop
  . dsimp only at hdrop
    split at hdrop
    . simp at hdrop
    . next heap hwrite =>
      split at hdrop
      . split at hdrop
        . simp at hdrop
        . next m _ hmap =>
          have hsize := mapDrop_size hmap
          apply Balanced.deleteObject _ hdrop
          refine (h.write hwrite).congr rfl rfl ?_
          simp only [AoiSpace.fixedBytes, hsize]
      . rw [Option.some.injEq] at hdrop
        rw [← hdrop]
        exact h.write hwrite

theorem grabObject (h : Balanced space pairs) {addr : Nat}
    (hgrab : Caoi.grabObject space addr = some space') : Balanced space' pairs := by
  unfold Caoi.grabObject at hgrab
  split at hgrab
  . simp at hgrab
  . split at hgrab
    . simp at hgrab
    . next hwrite =>
      rw [Option.some.injEq] at hgrab
      rw [← hgrab]
      exact h.write hwrite

theorem aoiUpdate (h : Balanced space pairs) {id : UInt32} {modestring : List Char} {pos : Point}
    (hupdate : Caoi.aoiUpdate space id modestring pos = some space') : Balanced space' pairs := by
  unfold Caoi.aoiUpdate at hupdate
  split at hupdate
  . simp at hupdate
  . next hquery =>
    have h1 := h.mapQuery hquery
    split at hupdate
    . simp at hupdate
    . split at hupdate
      . split at hupdate
        . rw [Option.some.injEq] at hupdate
          rw [← hupdate]
          exact h1
        . split at hupdate
          . simp at hupdate
          . next hwrite => exact (h1.write hwrite).dropObject hupdate
      . split at hupdate
        . simp at hupdate
        . next hwrite =>
          rw [Option.some.injEq] at hupdate
          rw [← hupdate]
          exact h1.write hwrite

theorem allocPair (h : Balanced space pairs)
    : Balanced { space with cookie := space.cookie.alloc sizeofPairList } (pairs + 1) := by
  unfold Balanced at h ⊢
  apply (h.alloc sizeofPairList).congr
  . push_cast
    ring
  . rw [AoiSpace.fixedBytes_heap]
    push_cast
    ring

theorem freePair (h : Balanced space (pairs + 1))
    : Balanced { space with cookie := space.cookie.free sizeofPairList } pairs := by
  unfold Balanced at h ⊢
  apply (AllocCookie.Owns.free h sizeofPairList).congr
  . push_cast
    ring
  . rw [AoiSpace.fixedBytes_heap]
    push_cast
    ring

theorem dropPair {p : PairList} (h : Balanced space (pairs + 1))
    (hdrop : Caoi.dropPair space p = some space') : Balanced space' pairs := by
  unfold Caoi.dropPair at hdrop
  split at hdrop
  . simp at hdrop
  . next hwatcher =>
    split at hdrop
    . simp at hdrop
    . next hmarker =>
      rw [Option.some.injEq] at hdrop
      rw [← hdrop]
      exact ((h.dropObject hwatcher).dropObject hmarker).freePair

theorem flushPairGo {hot kept : List PairList} {cbs : List (UInt32 × UInt32)}
    (h : Balanced space (pairs + hot.length))
    (hgo : flushPair.go space hot = some (space', kept, cbs))
    : Balanced space' (pairs + kept.length) := by
  induction hot generalizing space space' pairs kept cbs with
  | nil =>
    simp only [flushPair.go, Option.some.injEq, Prod.mk.injEq] at hgo
    rw [← hgo.1, ← hgo.2.1]
    exact h
  | cons p next ih =>
    rw [List.length_cons, ← Nat.add_assoc] at h
    unfold flushPair.go at hgo
    split at hgo
    . split at hgo
      . split at hgo
        . simp at hgo
        . next hdrop => exact ih (h.dropPair hdrop) hgo
      . dsimp only at hgo
        split at hgo
        . split at hgo
          . simp at hgo
          . next hdrop => exact ih (h.dropPair hdrop) hgo
        . split at hgo
          . split at hgo
            . simp at hgo
            . next hdrop =>
              split at hgo
              . simp at hgo
              . next hrest =>
                simp only [Option.some.injEq, Prod.mk.injEq] at hgo
                rw [← hgo.1, ← hgo.2.1]
                exact ih (h.dropPair hdrop) hrest
          . split at hgo
            . simp at hgo
            . next hrest =>
              simp only [Option.some.injEq, Prod.mk.injEq] at hgo
              rw [← hgo.1, ← hgo.2.1, List.length_cons]
              have h' : Balanced space (pairs + 1 + next.length) := by
                rw [Nat.add_right_comm]
                exact h
              have := ih h' hrest
              rw [Nat.add_right_comm] at this
              exact this
    . simp at hgo

theorem flushPair {cbs : List (UInt32 × UInt32)} (h : Balanced space space.hot.length)
    (hflush : Caoi.flushPair space = some (space', cbs)) : Balanced space' space'.hot.length := by
  unfold Caoi.flushPair at hflush
  split at hflush
  . simp at hflush
  . next space1 kept _ hgo =>
    simp only [Option.some.injEq, Prod.mk.injEq] at hflush
    rw [← hflush.1]
    have h0 : Balanced space (0 + space.hot.length) := by
      rw [Nat.zero_add]
      exact h
    have h1 := flushPairGo h0 hgo
    rw [Nat.zero_add] at h1
    exact h1.congr rfl rfl rfl

theorem pushBack (h : Balanced space pairs) (set : ObjectSet) (addr : Nat)
    (hcookie : space'.cookie = (setPushBack space.cookie set addr).1)
    (hheap : space'.heap = space.heap)
    (hbytes : space'.fixedBytes + set.bytes
      = space.fixedBytes + (setPushBack space.cookie set addr).2.bytes)
    : Balanced space' pairs := by
  refine h.exchange (by rw [hheap]) _ _ hbytes ?_
  intro count rest howns
  rw [hcookie]
  exact setPushBack_owns howns addr

theorem pushWatcher (h : Balanced space pairs) (mode : Mode) (addr : Nat)
    : Balanced (Caoi.pushWatcher space mode addr) pairs := by
  unfold Caoi.pushWatcher
  split
  . split
    . refine h.pushBack space.watcherMove addr rfl rfl ?_
      simp only [AoiSpace.fixedBytes]
      omega
    . refine h.pushBack space.watcherStatic addr rfl rfl ?_
      simp only [AoiSpace.fixedBytes]
      omega
  . exact h

theorem pushMarker (h : Balanced space pairs) (mode : Mode) (addr : Nat)
    : Balanced (Caoi.pushMarker space mode addr) pairs := by
  unfold Caoi.pushMarker
  split
  . split
    . refine h.pushBack space.markerMove addr rfl rfl ?_
      simp only [AoiSpace.fixedBytes]
      omega
    . refine h.pushBack space.markerStatic addr rfl rfl ?_
      simp only [AoiSpace.fixedBytes]
      omega
  . exact h

theorem setPush (h : Balanced space pairs) {addr : Nat}
    (hpush : Caoi.setPush space addr = some space') : Balanced space' pairs := by
  rw [setPush_eq] at hpush
  split at hpush
  . simp at hpush
  . next obj hget =>
    have h1 := (h.pushWatcher obj.mode addr).pushMarker obj.mode addr
    dsimp only at hpush
    split at hpush
    . split at hpush
      . simp at hpush
      . next hwrite =>
        rw [Option.some.injEq] at hpush
        rw [← hpush]
        exact h1.write hwrite
    . rw [Option.some.injEq] at hpush
      rw [← hpush]
      exact h1

theorem setPushAll (h : Balanced space pairs) {addrs : List Nat}
    (hpush : Caoi.setPushAll space addrs = some space') : Balanced space' pairs := by
  induction addrs generalizing space with
  | nil =>
    simp only [Caoi.setPushAll, Option.some.injEq] at hpush
    rw [← hpush]
    exact h
  | cons addr addrs ih =>
    unfold Caoi.setPushAll at hpush
    split at hpush
    . simp at hpush
    . next hone => exact ih (h.setPush hone) hpush

theorem genPair {watcher marker : Nat} {cbs : List (UInt32 × UInt32)}
    (h : Balanced space space.hot.length)
    (hgen : Caoi.genPair space watcher marker = some (space', cbs))
    : Balanced space' space'.hot.length := by
  unfold Caoi.genPair at hgen
  split at hgen
  . simp only [Option.some.injEq, Prod.mk.injEq] at hgen
    rw [← hgen.1]
    exact h
  . split at hgen
    . dsimp only at hgen
      split at hgen
      . simp only [Option.some.injEq, Prod.mk.injEq] at hgen
        rw [← hgen.1]
        exact h
      . split at hgen
        . simp only [Option.some.injEq, Prod.mk.injEq] at hgen
          rw [← hgen.1]
          exact h
        . split at hgen
          . simp at hgen
          . next hgrab1 =>
            split at hgen
            . simp at hgen
            . next hgrab2 =>
              simp only [Option.some.injEq, Prod.mk.injEq] at hgen
              have h1 := (h.allocPair.grabObject hgrab1).grabObject hgrab2
              have hhot := (grabObject_hot hgrab2).trans (grabObject_hot hgrab1)
              rw [← hgen.1]
              dsimp only at hhot ⊢
              rw [List.length_cons, hhot]
              exact h1.congr rfl rfl rfl
    . simp at hgen

theorem genPairListGo {list : List (Nat × Nat)} {cbs : List (UInt32 × UInt32)}
    (h : Balanced space space.hot.length)
    (hgo : genPairList.go space list = some (space', cbs)) : Balanced space' space'.hot.length := by
  induction list generalizing space space' cbs with
  | nil =>
    simp only [genPairList.go, Option.some.injEq, Prod.mk.injEq] at hgo
    rw [← hgo.1]
    exact h
  | cons pair list ih =>
    unfold genPairList.go at hgo
    split at hgo
    . simp at hgo
    . next hone =>
      split at hgo
      . simp at hgo
      . next hrest =>
        simp only [Option.some.injEq, Prod.mk.injEq] at hgo
        rw [← hgo.1]
        exact ih (h.genPair hone) hrest

theorem aoiMessage {cbs : List (UInt32 × UInt32)} (h : Balanced space space.hot.length)
    (hmessage : Caoi.aoiMessage space = some (space', cbs)) : Balanced space' space'.hot.length := by
  unfold Caoi.aoiMessage at hmessage
  split at hmessage
  . simp at hmessage
  . next space1 _ hflush =>
    have h1 := h.flushPair hflush
    dsimp only at hmessage
    split at hmessage
    . simp at hmessage
    . next space2 hpush =>
      have h2 : Balanced space2 space2.hot.length := by
        rw [setPushAll_hot hpush]
        apply setPushAll _ hpush
        exact h1.congr rfl rfl rfl
      split at hmessage
      . simp at hmessage
      . next hgen1 =>
        split at hmessage
        . simp at hmessage
        . next hgen2 =>
          split at hmessage
          . simp at hmessage
          . next hgen3 =>
            simp only [Option.some.injEq, Prod.mk.injEq] at hmessage
            rw [← hmessage.1]
            exact ((h2.genPairListGo hgen1).genPairListGo hgen2).genPairListGo hgen3

end Balanced
end Caoi
