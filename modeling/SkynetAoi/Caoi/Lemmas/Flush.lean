import SkynetAoi.Caoi.Lemmas.Object

/-!
This module contains what `flush_pair` does to the objects and to the hot list: every pair meets a
`Fate` that only depends on the objects at the start of the flush.
-/

namespace Caoi

def Object.core (obj : Object) : Object :=
  { obj with ref := 0 }

theorem Object.core_eq_iff (o o' : Object)
    : o'.core = o.core
        ↔
      o'.id = o.id
        ∧ o'.version = o.version
        ∧ o'.mode = o.mode
        ∧ o'.last = o.last
        ∧ o'.position = o.position := by
  simp [Object.core]

theorem Object.isDrop_of_core {o o' : Object} (h : o'.core = o.core) : o'.isDrop = o.isDrop := by
  have : o'.core.isDrop = o.core.isDrop := by rw [h]
  exact this

/--
`heap'` has lost some of the dropped objects of `heap` and agrees on the others up to their
reference counts.
-/
structure Shrinks (heap heap' : Heap Object) : Prop where
  sub : ∀ (a : Nat) (o' : Object), heap'.get a = some o' →
    ∃ o, heap.get a = some o ∧ o'.core = o.core
  keep : ∀ (a : Nat) (o : Object), heap.get a = some o → o.isDrop = false →
    ∃ o', heap'.get a = some o'

namespace Shrinks

theorem refl (heap : Heap Object) : Shrinks heap heap where
  sub := by
    intro a o h
    exact ⟨o, h, rfl⟩
  keep := by
    intro a o h _
    exact ⟨o, h⟩

theorem get {heap heap' : Heap Object} (h : Shrinks heap heap') {a : Nat} {o : Object}
    (hget : heap.get a = some o) (hdrop : o.isDrop = false)
    : ∃ o', heap'.get a = some o' ∧ o'.core = o.core := by
  obtain ⟨o', ho'⟩ := h.keep a o hget hdrop
  refine ⟨o', ho', ?_⟩
  obtain ⟨o1, ho1, hcore⟩ := h.sub a o' ho'
  rw [hget, Option.some.injEq] at ho1
  rw [hcore, ho1]

theorem trans {h1 h2 h3 : Heap Object} (h12 : Shrinks h1 h2) (h23 : Shrinks h2 h3)
    : Shrinks h1 h3 where
  sub := by
    intro a o3 ho3
    obtain ⟨o2, ho2, heq23⟩ := h23.sub a o3 ho3
    obtain ⟨o1, ho1, heq12⟩ := h12.sub a o2 ho2
    refine ⟨o1, ho1, ?_⟩
    rw [heq23, heq12]
  keep := by
    intro a o1 ho1 hdrop
    obtain ⟨o2, ho2, heq⟩ := h12.get ho1 hdrop
    apply h23.keep a o2 ho2
    rw [Object.isDrop_of_core heq]
    exact hdrop

theorem of_drop {heap heap' : Heap Object} {addr : Nat} {obj : Object}
    (hget : heap.get addr = some obj) {last : Prop} [Decidable last]
    (hheap : ∀ a, heap'.get a
      =
    if a = addr then
      if obj.isDrop ∧ last then none else some { obj with ref := obj.ref - 1 }
    else
      heap.get a)
    : Shrinks heap heap' where
  sub := by
    intro a o' h
    rw [hheap] at h
    split at h
    . next heq =>
      split at h
      . simp at h
      . simp only [Option.some.injEq] at h
        refine ⟨obj, ?_, ?_⟩
        . rw [heq, hget]
        . rw [← h]
          rfl
    . exact ⟨o', h, rfl⟩
  keep := by
    intro a o h hdrop
    rw [hheap]
    split
    . next heq =>
      rw [heq, hget] at h
      simp only [Option.some.injEq] at h
      rw [h]
      simp [hdrop]
    . exact ⟨o, h⟩

end Shrinks

def hotEnds (hot : List PairList) (addr : Nat) : Nat :=
  hot.countP (fun p => p.watcher = addr) + hot.countP (fun p => p.marker = addr)

@[simp]
theorem hotEnds_nil (addr : Nat) : hotEnds [] addr = 0 := rfl

theorem hotEnds_cons (p : PairList) (hot : List PairList) (addr : Nat)
    : hotEnds (p :: hot) addr
        =
      (if p.watcher = addr then 1 else 0) + (if p.marker = addr then 1 else 0)
        + hotEnds hot addr := by
  unfold hotEnds
  rw [List.countP_cons, List.countP_cons]
  simp only [decide_eq_true_eq]
  omega

theorem hotEnds_pos {p : PairList} {hot : List PairList} (h : p ∈ hot)
    : 0 < hotEnds hot p.watcher ∧ 0 < hotEnds hot p.marker := by
  have h1 : 0 < hot.countP (fun q => q.watcher = p.watcher) := by
    rw [List.countP_pos_iff]
    exact ⟨p, h, by simp⟩
  have h2 : 0 < hot.countP (fun q => q.marker = p.marker) := by
    rw [List.countP_pos_iff]
    exact ⟨p, h, by simp⟩
  unfold hotEnds
  omega

theorem mem_of_hotEnds_pos {hot : List PairList} {addr : Nat} (h : 0 < hotEnds hot addr)
    : ∃ p ∈ hot, p.watcher = addr ∨ p.marker = addr := by
  unfold hotEnds at h
  by_cases hw : 0 < hot.countP (fun p => p.watcher = addr)
  . rw [List.countP_pos_iff] at hw
    obtain ⟨p, hp, heq⟩ := hw
    exact ⟨p, hp, Or.inl (by simpa using heq)⟩
  . have hm : 0 < hot.countP (fun p => p.marker = addr) := by omega
    rw [List.countP_pos_iff] at hm
    obtain ⟨p, hp, heq⟩ := hm
    exact ⟨p, hp, Or.inr (by simpa using heq)⟩

theorem dropPair_spec {space : AoiSpace} {ends : Nat → Nat} {p : PairList}
    (hc : Counted space (fun a => hotEnds [p] a + ends a)) (hne : p.watcher ≠ p.marker)
    : ∃ space', dropPair space p = some space'
        ∧ Counted space' ends
        ∧ SameSets space space'
        ∧ Shrinks space.heap space'.heap := by
  have hpos : 0 < hotEnds [p] p.watcher ∧ 0 < hotEnds [p] p.marker := hotEnds_pos (by simp)
  obtain ⟨w, hw⟩ := hc.exists_of_end (by
    show 0 < hotEnds [p] p.watcher + ends p.watcher
    omega)
  obtain ⟨m, hm⟩ := hc.exists_of_end (by
    show 0 < hotEnds [p] p.marker + ends p.marker
    omega)
  obtain ⟨space1, hdrop1, hc1, hsets1, hheap1⟩ := dropObject_spec hc hw (by omega)
  have hm1 : space1.heap.get p.marker = some m := by
    rw [hheap1]
    simp only [hne.symm, ↓reduceIte]
    exact hm
  obtain ⟨space2, hdrop2, hc2, hsets2, hheap2⟩ := dropObject_spec hc1 hm1 (by
    simp only [hne.symm, ↓reduceIte]
    omega)
  refine ⟨{ space2 with cookie := space2.cookie.free sizeofPairList }, ?_, ?_, ?_, ?_⟩
  . unfold dropPair
    rw [hdrop1]
    dsimp only
    rw [hdrop2]
  . have hends : (fun a => if a = p.marker then
        (if a = p.watcher then hotEnds [p] a + ends a - 1 else hotEnds [p] a + ends a) - 1
        else if a = p.watcher then hotEnds [p] a + ends a - 1 else hotEnds [p] a + ends a)
        = ends := by
      funext a
      rw [hotEnds_cons, hotEnds_nil]
      by_cases h1 : a = p.marker
      . subst h1
        simp [hne, hne.symm]
      . by_cases h2 : a = p.watcher
        . subst h2
          simp [hne, hne.symm]
        . simp [h1, h2, Ne.symm h1, Ne.symm h2]
    rw [hends] at hc2
    exact hc2.cookie _
  . exact hsets1.trans (hsets2.trans (by constructor <;> rfl))
  . exact (Shrinks.of_drop hw hheap1).trans (Shrinks.of_drop hm1 hheap2)

inductive Fate where
  | drop
  | report
  | keep
  deriving DecidableEq

def fate (heap : Heap Object) (p : PairList) : Fate :=
  match heap.get p.watcher, heap.get p.marker with
  | some watcher, some marker =>
    if watcher.version ≠ p.watcherVersion
        ∨ marker.version ≠ p.markerVersion
        ∨ watcher.isDrop
        ∨ marker.isDrop then
      .drop
    else if dist2 watcher marker > leaveAoiRadis then
      .drop
    else if dist2 watcher marker < aoiRadis2 then
      .report
    else
      .keep
  | _, _ => .drop

def idAt (heap : Heap Object) (addr : Nat) : UInt32 :=
  match heap.get addr with
  | some obj => obj.id
  | none => invalidId

def pairIds (heap : Heap Object) (p : PairList) : UInt32 × UInt32 :=
  (idAt heap p.watcher, idAt heap p.marker)

theorem fate_eq_of_shrinks {heap heap' : Heap Object} (hs : Shrinks heap heap') {p : PairList}
    {w m : Object} (hw : heap'.get p.watcher = some w) (hm : heap'.get p.marker = some m)
    : fate heap' p = fate heap p ∧ pairIds heap' p = pairIds heap p := by
  obtain ⟨w', hw', hcorew⟩ := hs.sub _ _ hw
  obtain ⟨m', hm', hcorem⟩ := hs.sub _ _ hm
  have hdropw := Object.isDrop_of_core hcorew
  have hdropm := Object.isDrop_of_core hcorem
  rw [Object.core_eq_iff] at hcorew hcorem
  unfold fate pairIds idAt dist2
  rw [hw, hm, hw', hm']
  simp only [hdropw, hdropm, hcorew, hcorem, and_self]

structure Fresh (heap : Heap Object) (p : PairList) (w m : Object) : Prop where
  watcher : heap.get p.watcher = some w
  marker : heap.get p.marker = some m
  watcher_version : w.version = p.watcherVersion
  marker_version : m.version = p.markerVersion
  watcher_drop : w.isDrop = false
  marker_drop : m.isDrop = false

theorem Fresh.fate_eq {heap : Heap Object} {p : PairList} {w m : Object} (h : Fresh heap p w m)
    : fate heap p
        =
      if dist2 w m > leaveAoiRadis then
        .drop
      else if dist2 w m < aoiRadis2 then
        .report
      else
        .keep := by
  unfold fate
  rw [h.watcher, h.marker]
  simp [h.watcher_version, h.marker_version, h.watcher_drop, h.marker_drop]

theorem fresh_of_fate {heap : Heap Object} {p : PairList} (h : fate heap p ≠ .drop)
    : ∃ w m, Fresh heap p w m := by
  cases hw : heap.get p.watcher with
  | none => simp [fate, hw] at h
  | some w =>
    cases hm : heap.get p.marker with
    | none => simp [fate, hw, hm] at h
    | some m =>
      unfold fate at h
      rw [hw, hm] at h
      dsimp only at h
      split at h
      . simp at h
      . next hstale =>
        simp only [ne_eq, not_or, not_not, Bool.not_eq_true] at hstale
        cases hstale with
        | intro hvw hstale =>
          exact ⟨w, m, hw, hm, hvw, hstale.1, hstale.2.1, hstale.2.2⟩

theorem fate_eq_report_iff (heap : Heap Object) (p : PairList)
    : fate heap p = .report ↔ ∃ w m, Fresh heap p w m ∧ dist2 w m < aoiRadis2 := by
  constructor
  . intro h
    obtain ⟨w, m, hfresh⟩ := by
      apply fresh_of_fate
      rw [h]
      simp
    refine ⟨w, m, hfresh, ?_⟩
    rw [hfresh.fate_eq] at h
    split at h
    . simp at h
    . split at h
      . assumption
      . simp at h
  . rintro ⟨w, m, hfresh, hnear⟩
    rw [hfresh.fate_eq]
    have hfar : ¬dist2 w m > leaveAoiRadis := by
      unfold leaveAoiRadis
      exact not_lt_of_gt hnear
    simp [hfar, hnear]

theorem fate_eq_keep_iff (heap : Heap Object) (p : PairList)
    : fate heap p = .keep ↔ ∃ w m, Fresh heap p w m ∧ dist2 w m = aoiRadis2 := by
  constructor
  . intro h
    obtain ⟨w, m, hfresh⟩ := by
      apply fresh_of_fate
      rw [h]
      simp
    refine ⟨w, m, hfresh, ?_⟩
    rw [hfresh.fate_eq] at h
    split at h
    . simp at h
    . next hfar =>
      split at h
      . simp at h
      . next hnear =>
        apply le_antisymm
        . exact not_lt.mp hfar
        . exact not_lt.mp hnear
  . rintro ⟨w, m, hfresh, heq⟩
    rw [hfresh.fate_eq, heq]
    simp [leaveAoiRadis]

namespace flushPair

theorem go_spec (hot : List PairList) (space : AoiSpace) (base : Nat → Nat)
    (hc : Counted space (fun a => base a + hotEnds hot a))
    (hne : ∀ p ∈ hot, p.watcher ≠ p.marker)
    : ∃ space', go space hot
          = some
            (space', hot.filter (fate space.heap · = .keep),
              (hot.filter (fate space.heap · = .report)).map (pairIds space.heap))
        ∧ Counted space' (fun a => base a + hotEnds (hot.filter (fate space.heap · = .keep)) a)
        ∧ SameSets space space'
        ∧ Shrinks space.heap space'.heap := by
  induction hot generalizing space base with
  | nil => exact ⟨space, rfl, hc, SameSets.refl space, Shrinks.refl space.heap⟩
  | cons p next ih =>
    have hends : ∀ a, base a + hotEnds (p :: next) a = hotEnds [p] a + (base a + hotEnds next a) := by
      intro a
      rw [hotEnds_cons, hotEnds_cons, hotEnds_nil]
      omega
    have hnext : ∀ q ∈ next, q.watcher ≠ q.marker := by
      intro q hq
      apply hne
      simp [hq]
    have hpos : 0 < hotEnds (p :: next) p.watcher ∧ 0 < hotEnds (p :: next) p.marker :=
      hotEnds_pos (by simp)
    obtain ⟨w, hw⟩ := hc.exists_of_end (by
      show 0 < base p.watcher + hotEnds (p :: next) p.watcher
      omega)
    obtain ⟨m, hm⟩ := hc.exists_of_end (by
      show 0 < base p.marker + hotEnds (p :: next) p.marker
      omega)
    have hdropped : ∃ space1 space', dropPair space p = some space1
        ∧ go space1 next
          = some
            (space', next.filter (fate space.heap · = .keep),
              (next.filter (fate space.heap · = .report)).map (pairIds space.heap))
        ∧ Counted space' (fun a => base a + hotEnds (next.filter (fate space.heap · = .keep)) a)
        ∧ SameSets space space'
        ∧ Shrinks space.heap space'.heap := by
      simp only [hends] at hc
      obtain ⟨space1, hdrop, hc1, hsets1, hshrinks1⟩ := dropPair_spec hc (hne p (by simp))
      obtain ⟨space', hgo, hc', hsets', hshrinks'⟩ := ih space1 base hc1 hnext
      have hfate : ∀ q ∈ next, fate space1.heap q = fate space.heap q
          ∧ pairIds space1.heap q = pairIds space.heap q := by
        intro q hq
        have hpos := hotEnds_pos hq
        obtain ⟨w', hw'⟩ := hc1.exists_of_end (by
          show 0 < base q.watcher + hotEnds next q.watcher
          omega)
        obtain ⟨m', hm'⟩ := hc1.exists_of_end (by
          show 0 < base q.marker + hotEnds next q.marker
          omega)
        exact fate_eq_of_shrinks hshrinks1 hw' hm'
      have hfilter : ∀ (f : Fate), next.filter (fate space1.heap · = f)
          = next.filter (fate space.heap · = f) := by
        intro f
        apply List.filter_congr
        intro q hq
        rw [(hfate q hq).1]
      have hmap : (next.filter (fate space.heap · = .report)).map (pairIds space1.heap)
          = (next.filter (fate space.heap · = .report)).map (pairIds space.heap) := by
        apply List.map_congr_left
        intro q hq
        rw [List.mem_filter] at hq
        exact (hfate q hq.1).2
      rw [hfilter, hfilter, hmap] at hgo
      rw [hfilter] at hc'
      exact ⟨space1, space', hdrop, hgo, hc', hsets1.trans hsets', hshrinks1.trans hshrinks'⟩
    have hfate : fate space.heap p
        =
      if w.version ≠ p.watcherVersion ∨ m.version ≠ p.markerVersion ∨ w.isDrop ∨ m.isDrop then
        .drop
      else if dist2 w m > leaveAoiRadis then
        .drop
      else if dist2 w m < aoiRadis2 then
        .report
      else
        .keep := by
      unfold fate
      rw [hw, hm]
    have hids : pairIds space.heap p = (w.id, m.id) := by
      unfold pairIds idAt
      rw [hw, hm]
    unfold go
    rw [hw, hm]
    dsimp only
    split at hfate
    . next hstale =>
      obtain ⟨space1, space', hdrop, hgo, hrest⟩ := hdropped
      rw [if_pos hstale, hdrop]
      dsimp only
      rw [hgo]
      simp only [hfate, List.filter_cons, reduceCtorEq, decide_false, Bool.false_eq_true,
        ↓reduceIte]
      exact ⟨space', rfl, hrest⟩
    . next hstale =>
      rw [if_neg hstale]
      split at hfate
      . next hfar =>
        obtain ⟨space1, space', hdrop, hgo, hrest⟩ := hdropped
        rw [if_pos hfar, hdrop]
        dsimp only
        rw [hgo]
        simp only [hfate, List.filter_cons, reduceCtorEq, decide_false, Bool.false_eq_true,
          ↓reduceIte]
        exact ⟨space', rfl, hrest⟩
      . next hfar =>
        rw [if_neg hfar]
        split at hfate
        . next hnear =>
          obtain ⟨space1, space', hdrop, hgo, hrest⟩ := hdropped
          rw [if_pos hnear, hdrop]
          dsimp only
          rw [hgo]
          simp only [hfate, List.filter_cons, reduceCtorEq, decide_false, Bool.false_eq_true,
            ↓reduceIte, decide_true, List.map_cons, hids]
          exact ⟨space', rfl, hrest⟩
        . next hnear =>
          have hc1 : Counted space (fun a => (base a + hotEnds [p] a) + hotEnds next a) := by
            have : (fun a => (base a + hotEnds [p] a) + hotEnds next a)
                = fun a => base a + hotEnds (p :: next) a := by
              funext a
              rw [hends]
              omega
            rw [this]
            exact hc
          obtain ⟨space', hgo, hc', hrest⟩ := ih space _ hc1 hnext
          rw [if_neg hnear, hgo]
          simp only [hfate, List.filter_cons, reduceCtorEq, decide_false, Bool.false_eq_true,
            ↓reduceIte, decide_true]
          refine ⟨space', rfl, ?_, hrest⟩
          have : (fun a => base a + hotEnds (p :: next.filter (fate space.heap · = .keep)) a)
              = fun a => (base a + hotEnds [p] a)
                + hotEnds (next.filter (fate space.heap · = .keep)) a := by
            funext a
            rw [hotEnds_cons, hotEnds_cons, hotEnds_nil]
            omega
          rw [this]
          exact hc'

end flushPair

theorem flushPair_spec {space : AoiSpace} (hc : Counted space (hotEnds space.hot))
    (hne : ∀ p ∈ space.hot, p.watcher ≠ p.marker)
    : ∃ space', flushPair space
          = some (space', (space.hot.filter (fate space.heap · = .report)).map (pairIds space.heap))
        ∧ Counted space' (hotEnds space'.hot)
        ∧ space'.hot = space.hot.filter (fate space.heap · = .keep)
        ∧ Shrinks space.heap space'.heap := by
  have hc0 : Counted space (fun a => 0 + hotEnds space.hot a) := by
    simp only [Nat.zero_add]
    exact hc
  obtain ⟨space', hgo, hc', hsets, hshrinks⟩ := flushPair.go_spec space.hot space (fun _ => 0) hc0 hne
  refine ⟨{ space' with hot := space.hot.filter (fate space.heap · = .keep) }, ?_, ?_, rfl, hshrinks⟩
  . unfold flushPair
    rw [hgo]
  . simp only [Nat.zero_add] at hc'
    exact ⟨hc'.wf, hc'.stored, hc'.live, hc'.ref, hc'.pos, hc'.dead⟩

-- A dropped object is only held by pairs, and the pairs of a dropped object do not survive.
theorem flushPair_no_drop {space space' : AoiSpace} (hc' : Counted space' (hotEnds space'.hot))
    (hhot : space'.hot = space.hot.filter (fate space.heap · = .keep))
    (hshrinks : Shrinks space.heap space'.heap)
    : ∀ a o, space'.heap.get a = some o → o.isDrop = false := by
  intro a o h
  cases hdrop : o.isDrop with
  | false => rfl
  | true =>
    exfalso
    have href := hc'.ref a o h
    have hpos := hc'.pos a o h
    rw [hdrop] at href
    simp only [↓reduceIte] at href
    obtain ⟨p, hp, hend⟩ := mem_of_hotEnds_pos (by
      show 0 < hotEnds space'.hot a
      omega)
    rw [hhot, List.mem_filter, decide_eq_true_eq, fate_eq_keep_iff] at hp
    obtain ⟨-, w, m, hfresh, -⟩ := hp
    obtain ⟨o', ho', hcore⟩ := hshrinks.sub a o h
    rw [Object.isDrop_of_core hcore] at hdrop
    cases hend with
    | inl heq =>
      have := hfresh.watcher
      rw [heq, ho'] at this
      simp only [Option.some.injEq] at this
      rw [this, hfresh.watcher_drop] at hdrop
      simp at hdrop
    | inr heq =>
      have := hfresh.marker
      rw [heq, ho'] at this
      simp only [Option.some.injEq] at this
      rw [this, hfresh.marker_drop] at hdrop
      simp at hdrop

end Caoi
