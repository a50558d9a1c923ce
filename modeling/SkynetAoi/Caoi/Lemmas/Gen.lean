import SkynetAoi.Caoi.Lemmas.Flush
import SkynetAoi.Caoi.Lemmas.Push

/-!
This module contains what `gen_pair` does to the pairs that `aoi_message` hands it: which ones it
reports and which ones it puts on the hot list.
-/

namespace Caoi

def SameCore (heap heap' : Heap Object) : Prop :=
  ∀ (a : Nat), (heap'.get a).map Object.core = (heap.get a).map Object.core

namespace SameCore

theorem refl (heap : Heap Object) : SameCore heap heap := by
  intro a
  rfl

theorem trans {h1 h2 h3 : Heap Object} (h12 : SameCore h1 h2) (h23 : SameCore h2 h3)
    : SameCore h1 h3 := by
  intro a
  rw [h23, h12]

theorem get {heap heap' : Heap Object} (h : SameCore heap heap') {a : Nat} {o : Object}
    (hget : heap.get a = some o) : ∃ o', heap'.get a = some o' ∧ o'.core = o.core := by
  have := h a
  rw [hget, Option.map_some, Option.map_eq_some_iff] at this
  exact this

theorem of_write {heap heap' : Heap Object} {addr : Nat} {obj obj' : Object}
    (hget : heap.get addr = some obj) (hcore : obj'.core = obj.core)
    (hheap : ∀ a, heap'.get a = if a = addr then some obj' else heap.get a)
    : SameCore heap heap' := by
  intro a
  rw [hheap]
  split
  . next heq => rw [heq, hget, Option.map_some, Option.map_some, hcore]
  . rfl

end SameCore

def genReport (heap : Heap Object) (pair : Nat × Nat) : Option (UInt32 × UInt32) :=
  match heap.get pair.1, heap.get pair.2 with
  | some w, some m =>
    if pair.1 ≠ pair.2 ∧ dist2 w m < aoiRadis2 then
      some (w.id, m.id)
    else
      none
  | _, _ => none

def genHot (heap : Heap Object) (pair : Nat × Nat) : Option PairList :=
  match heap.get pair.1, heap.get pair.2 with
  | some w, some m =>
    if pair.1 ≠ pair.2 ∧ dist2 w m = aoiRadis2 then
      some ⟨pair.1, pair.2, w.version, m.version⟩
    else
      none
  | _, _ => none

theorem genReport_eq_some_iff (heap : Heap Object) (pair : Nat × Nat) (cb : UInt32 × UInt32)
    : genReport heap pair = some cb
        ↔
      ∃ w m, heap.get pair.1 = some w
        ∧ heap.get pair.2 = some m
        ∧ pair.1 ≠ pair.2
        ∧ dist2 w m < aoiRadis2
        ∧ cb = (w.id, m.id) := by
  unfold genReport
  cases heap.get pair.1 with
  | none => simp
  | some w =>
    cases heap.get pair.2 with
    | none => simp
    | some m =>
      dsimp only
      split
      . next h =>
        simp [h, eq_comm]
      . next h =>
        simp only [reduceCtorEq, Option.some.injEq, exists_and_left, false_iff]
        rintro ⟨w', rfl, m', rfl, hne, hnear, -⟩
        exact h ⟨hne, hnear⟩

theorem genHot_eq_some_iff (heap : Heap Object) (pair : Nat × Nat) (p : PairList)
    : genHot heap pair = some p
        ↔
      ∃ w m, heap.get pair.1 = some w
        ∧ heap.get pair.2 = some m
        ∧ pair.1 ≠ pair.2
        ∧ dist2 w m = aoiRadis2
        ∧ p = ⟨pair.1, pair.2, w.version, m.version⟩ := by
  unfold genHot
  cases heap.get pair.1 with
  | none => simp
  | some w =>
    cases heap.get pair.2 with
    | none => simp
    | some m =>
      dsimp only
      split
      . next h =>
        simp [h, eq_comm]
      . next h =>
        simp only [reduceCtorEq, Option.some.injEq, exists_and_left, false_iff]
        rintro ⟨w', rfl, m', rfl, hne, hedge, -⟩
        exact h ⟨hne, hedge⟩

theorem gen_congr {heap heap' : Heap Object} (h : SameCore heap heap') (pair : Nat × Nat)
    : genReport heap' pair = genReport heap pair ∧ genHot heap' pair = genHot heap pair := by
  have h1 := h pair.1
  have h2 := h pair.2
  unfold genReport genHot
  cases hw : heap.get pair.1 with
  | none =>
    rw [hw, Option.map_none, Option.map_eq_none_iff] at h1
    simp [h1]
  | some w =>
    cases hm : heap.get pair.2 with
    | none =>
      rw [hm, Option.map_none, Option.map_eq_none_iff] at h2
      simp [h2]
    | some m =>
      rw [hw, Option.map_some, Option.map_eq_some_iff] at h1
      rw [hm, Option.map_some, Option.map_eq_some_iff] at h2
      obtain ⟨w', hw', hcorew⟩ := h1
      obtain ⟨m', hm', hcorem⟩ := h2
      rw [hw', hm']
      rw [Object.core_eq_iff] at hcorew hcorem
      simp only [dist2, hcorew, hcorem]
      exact ⟨rfl, rfl⟩

theorem genPair_spec {space : AoiSpace} (hc : Counted space (hotEnds space.hot)) {w m : Nat}
    {ow om : Object} (hw : space.heap.get w = some ow) (hm : space.heap.get m = some om)
    : ∃ space', genPair space w m = some (space', (genReport space.heap (w, m)).toList)
        ∧ Counted space' (hotEnds space'.hot)
        ∧ SameSets { space with hot := (genHot space.heap (w, m)).toList ++ space.hot } space'
        ∧ SameCore space.heap space'.heap := by
  have hreport : genReport space.heap (w, m)
      = if w ≠ m ∧ dist2 ow om < aoiRadis2 then some (ow.id, om.id) else none := by
    simp only [genReport, hw, hm]
  have hhot : genHot space.heap (w, m)
      = if w ≠ m ∧ dist2 ow om = aoiRadis2 then some ⟨w, m, ow.version, om.version⟩
        else none := by
    simp only [genHot, hw, hm]
  rw [hreport, hhot]
  unfold genPair
  by_cases hwm : w = m
  . simp only [hwm, ↓reduceIte, ne_eq, not_true_eq_false, false_and, Option.toList_none,
      List.nil_append]
    exact ⟨space, rfl, hc, SameSets.refl space, SameCore.refl space.heap⟩
  . simp only [hwm, ↓reduceIte, ne_eq, not_false_eq_true, true_and]
    rw [hw, hm]
    dsimp only
    by_cases hnear : dist2 ow om < aoiRadis2
    . have hedge : dist2 ow om ≠ aoiRadis2 := ne_of_lt hnear
      simp only [hnear, hedge, ↓reduceIte, Option.toList_none, Option.toList_some, List.nil_append]
      exact ⟨space, rfl, hc, SameSets.refl space, SameCore.refl space.heap⟩
    . by_cases hfar : dist2 ow om > leaveAoiRadis
      . have hedge : dist2 ow om ≠ aoiRadis2 := by
          unfold leaveAoiRadis at hfar
          exact ne_of_gt hfar
        simp only [hnear, hfar, hedge, ↓reduceIte, Option.toList_none, List.nil_append]
        exact ⟨space, rfl, hc, SameSets.refl space, SameCore.refl space.heap⟩
      . have hedge : dist2 ow om = aoiRadis2 := by
          unfold leaveAoiRadis at hfar
          exact le_antisymm (not_lt.mp hfar) (not_lt.mp hnear)
        rw [if_neg hnear, if_neg hfar, if_neg hnear, if_pos hedge]
        obtain ⟨s1, hgrab1, hc1, hsets1, hheap1⟩ :=
          grabObject_spec (hc.cookie (space.cookie.alloc sizeofPairList)) hw
        have hm1 : s1.heap.get m = some om := by
          rw [hheap1]
          simp only [Ne.symm hwm, ↓reduceIte]
          exact hm
        obtain ⟨s2, hgrab2, hc2, hsets2, hheap2⟩ := grabObject_spec hc1 hm1
        rw [hgrab1]
        dsimp only
        rw [hgrab2]
        have hhot2 : s2.hot = space.hot := by
          rw [hsets2.hot, hsets1.hot]
        refine ⟨_, rfl, ?_, ?_, ?_⟩
        . have hends : (fun a => if a = m then
                (if a = w then hotEnds space.hot a + 1 else hotEnds space.hot a) + 1
              else if a = w then hotEnds space.hot a + 1 else hotEnds space.hot a)
              = hotEnds (⟨w, m, ow.version, om.version⟩ :: s2.hot) := by
            funext a
            rw [hotEnds_cons, hhot2]
            by_cases h1 : a = m
            . subst h1
              simp only [↓reduceIte, Ne.symm hwm, hwm]
              omega
            . by_cases h2 : a = w
              . subst h2
                simp only [↓reduceIte, h1, Ne.symm h1]
                omega
              . simp [h1, h2, Ne.symm h1, Ne.symm h2]
          rw [hends] at hc2
          exact ⟨hc2.wf, hc2.stored, hc2.live, hc2.ref, hc2.pos, hc2.dead⟩
        . have hsets := hsets1.trans hsets2
          constructor
          . dsimp only
            rw [hhot2]
            rfl
          . exact hsets.watcherStatic
          . exact hsets.markerStatic
          . exact hsets.watcherMove
          . exact hsets.markerMove
        . have h1 : SameCore space.heap s1.heap := by
            apply SameCore.of_write hw _ hheap1
            rfl
          have h2 : SameCore s1.heap s2.heap := by
            apply SameCore.of_write hm1 _ hheap2
            rfl
          exact h1.trans h2

namespace genPairList

theorem go_spec (heap : Heap Object) (pairs : List (Nat × Nat)) (space : AoiSpace)
    (hc : Counted space (hotEnds space.hot)) (hcore : SameCore heap space.heap)
    (hlive : ∀ pair ∈ pairs, (∃ w, heap.get pair.1 = some w) ∧ ∃ m, heap.get pair.2 = some m)
    : ∃ space', go space pairs = some (space', pairs.filterMap (genReport heap))
        ∧ Counted space' (hotEnds space'.hot)
        ∧ SameSets
            { space with hot := (pairs.filterMap (genHot heap)).reverse ++ space.hot } space'
        ∧ SameCore heap space'.heap := by
  induction pairs generalizing space with
  | nil => exact ⟨space, rfl, hc, SameSets.refl space, hcore⟩
  | cons pair pairs ih =>
    obtain ⟨⟨ow, how⟩, om, hom⟩ := hlive pair (by simp)
    obtain ⟨ow', how', -⟩ := hcore.get how
    obtain ⟨om', hom', -⟩ := hcore.get hom
    obtain ⟨s1, hgen, hc1, hsets1, hcore1⟩ := genPair_spec hc how' hom'
    obtain ⟨space', hgo, hc', hsets', hcore'⟩ := ih s1 hc1 (hcore.trans hcore1) (by
      intro q hq
      apply hlive
      simp [hq])
    obtain ⟨hreport, hhot⟩ := gen_congr hcore pair
    refine ⟨space', ?_, hc', ?_, hcore'⟩
    . unfold go
      rw [hgen]
      dsimp only
      rw [hgo, hreport]
      cases hr : genReport heap pair with
      | none => simp [hr]
      | some cb => simp [hr]
    . constructor
      . rw [hsets'.hot]
        dsimp only
        rw [hsets1.hot]
        dsimp only
        rw [hhot]
        cases hh : genHot heap pair with
        | none => simp [hh]
        | some p => simp [hh]
      . rw [hsets'.watcherStatic]
        exact hsets1.watcherStatic
      . rw [hsets'.markerStatic]
        exact hsets1.markerStatic
      . rw [hsets'.watcherMove]
        exact hsets1.watcherMove
      . rw [hsets'.markerMove]
        exact hsets1.markerMove

end genPairList

def product (watcher marker : List Nat) : List (Nat × Nat) :=
  watcher.flatMap fun w => marker.map fun m => (w, m)

theorem mem_product (watcher marker : List Nat) (w m : Nat)
    : (w, m) ∈ product watcher marker ↔ w ∈ watcher ∧ m ∈ marker := by
  simp [product]

theorem nodup_product {watcher marker : List Nat} (hw : watcher.Nodup) (hm : marker.Nodup)
    : (product watcher marker).Nodup := by
  unfold product
  rw [List.nodup_flatMap]
  constructor
  . intro w _
    apply hm.map
    intro a b h
    simpa using h
  . apply hw.imp
    intro w w' hne
    simp only [Function.onFun]
    intro pair h h'
    rw [List.mem_map] at h h'
    obtain ⟨m, -, rfl⟩ := h
    obtain ⟨m', -, heq⟩ := h'
    simp only [Prod.mk.injEq] at heq
    exact hne heq.1.symm

theorem genPairList_spec (heap : Heap Object) (space : AoiSpace) (watcher marker : ObjectSet)
    (hc : Counted space (hotEnds space.hot)) (hcore : SameCore heap space.heap)
    (hw : ∀ a ∈ watcher.slot, ∃ o, heap.get a = some o)
    (hm : ∀ a ∈ marker.slot, ∃ o, heap.get a = some o)
    : ∃ space', genPairList space watcher marker
          = some (space', (product watcher.slot marker.slot).filterMap (genReport heap))
        ∧ Counted space' (hotEnds space'.hot)
        ∧ SameSets
            { space with
              hot := ((product watcher.slot marker.slot).filterMap (genHot heap)).reverse
                ++ space.hot
            }
            space'
        ∧ SameCore heap space'.heap := by
  apply genPairList.go_spec heap _ space hc hcore
  intro pair hpair
  have := (mem_product watcher.slot marker.slot pair.1 pair.2).mp hpair
  exact ⟨hw pair.1 this.1, hm pair.2 this.2⟩

end Caoi
