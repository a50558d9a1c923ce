import SkynetAoi.Caoi.Lemmas.Gen

/-!
This module contains what one `aoi_message` reports and what it leaves on the hot list, in terms of
the objects at its start.
-/

namespace Caoi

structure Active (heap : Heap Object) (w m : Nat) (ow om : Object) : Prop where
  watcher : heap.get w = some ow
  marker : heap.get m = some om
  ne : w ≠ m
  watcher_drop : ow.isDrop = false
  marker_drop : om.isDrop = false
  isWatcher : ow.isWatcher = true
  isMarker : om.isMarker = true
  move : ow.isMove = true ∨ om.isMove = true

def candidates (heap : Heap Object) (addrs : List Nat) : List (Nat × Nat) :=
  product (addrs.filter (holds heap Object.staticWatcher)) (addrs.filter (holds heap Object.moveMarker))
    ++ product (addrs.filter (holds heap Object.moveWatcher))
      (addrs.filter (holds heap Object.staticMarker))
    ++ product (addrs.filter (holds heap Object.moveWatcher))
      (addrs.filter (holds heap Object.moveMarker))

theorem mem_filter_holds {heap : Heap Object} {addrs : List Nat}
    (hall : ∀ a, a ∈ addrs ↔ ∃ o, heap.get a = some o) (kind : Object → Bool) (a : Nat)
    : a ∈ addrs.filter (holds heap kind) ↔ ∃ o, heap.get a = some o ∧ kind o = true := by
  rw [List.mem_filter, holds_iff, hall]
  constructor
  . intro h
    exact h.2
  . rintro ⟨o, ho, hkind⟩
    exact ⟨⟨o, ho⟩, o, ho, hkind⟩

theorem mem_candidates {heap : Heap Object} {addrs : List Nat}
    (hall : ∀ a, a ∈ addrs ↔ ∃ o, heap.get a = some o) (w m : Nat)
    : (w, m) ∈ candidates heap addrs
        ↔
      ∃ ow om, heap.get w = some ow
        ∧ heap.get m = some om
        ∧ ow.isWatcher = true
        ∧ om.isMarker = true
        ∧ (ow.isMove = true ∨ om.isMove = true) := by
  unfold candidates
  simp only [List.mem_append, mem_product, mem_filter_holds hall]
  cases heap.get w with
  | none => simp
  | some ow =>
    cases heap.get m with
    | none => simp
    | some om =>
      simp only [Option.some.injEq, exists_eq_left', Object.staticWatcher, Object.staticMarker,
        Object.moveWatcher, Object.moveMarker]
      cases hw : ow.isWatcher <;> cases hm : om.isMarker <;> cases hvw : ow.isMove
        <;> cases hvm : om.isMove <;> simp [hw, hm, hvw, hvm]

theorem disjoint_holds {heap : Heap Object} {addrs : List Nat} {static move : Object → Bool}
    (hstatic : ∀ o, static o = true → o.isMove = false) (hmove : ∀ o, move o = true → o.isMove = true)
    {a : Nat} (h1 : a ∈ addrs.filter (holds heap static)) (h2 : a ∈ addrs.filter (holds heap move))
    : False := by
  rw [List.mem_filter, holds_iff] at h1 h2
  obtain ⟨-, o1, ho1, hk1⟩ := h1
  obtain ⟨-, o2, ho2, hk2⟩ := h2
  rw [ho1, Option.some.injEq] at ho2
  have h1 := hstatic o1 hk1
  have h2 := hmove o2 hk2
  rw [← ho2, h1] at h2
  simp at h2

theorem nodup_candidates (heap : Heap Object) {addrs : List Nat} (hnodup : addrs.Nodup)
    : (candidates heap addrs).Nodup := by
  have hsw : ∀ (o : Object), o.staticWatcher = true → o.isMove = false := by
    intro o h
    simp only [Object.staticWatcher, Bool.and_eq_true, Bool.not_eq_true'] at h
    exact h.2
  have hsm : ∀ (o : Object), o.staticMarker = true → o.isMove = false := by
    intro o h
    simp only [Object.staticMarker, Bool.and_eq_true, Bool.not_eq_true'] at h
    exact h.2
  have hmw : ∀ (o : Object), o.moveWatcher = true → o.isMove = true := by
    intro o h
    simp only [Object.moveWatcher, Bool.and_eq_true] at h
    exact h.2
  have hmm : ∀ (o : Object), o.moveMarker = true → o.isMove = true := by
    intro o h
    simp only [Object.moveMarker, Bool.and_eq_true] at h
    exact h.2
  unfold candidates
  rw [List.nodup_append', List.nodup_append']
  refine ⟨⟨?_, ?_, ?_⟩, ?_, ?_⟩
  . exact nodup_product (hnodup.filter _) (hnodup.filter _)
  . exact nodup_product (hnodup.filter _) (hnodup.filter _)
  . rintro ⟨w, m⟩ h1 h2
    rw [mem_product] at h1 h2
    exact disjoint_holds hsw hmw h1.1 h2.1
  . exact nodup_product (hnodup.filter _) (hnodup.filter _)
  . rintro ⟨w, m⟩ h1 h2
    rw [List.mem_append, mem_product, mem_product] at h1
    rw [mem_product] at h2
    cases h1 with
    | inl h1 => exact disjoint_holds hsw hmw h1.1 h2.1
    | inr h1 => exact disjoint_holds hsm hmm h1.2 h2.2

def clearSets (space : AoiSpace) : AoiSpace :=
  { space with
    watcherStatic := { space.watcherStatic with slot := [] }
    watcherMove := { space.watcherMove with slot := [] }
    markerStatic := { space.markerStatic with slot := [] }
    markerMove := { space.markerMove with slot := [] }
  }

/--
One `aoi_message`, where `heap` are the objects and `addrs` their addresses once the hot list is
flushed.
-/
structure Walks (space : AoiSpace) (heap : Heap Object) (addrs : List Nat) (space' : AoiSpace)
    (cbs : List (UInt32 × UInt32)) : Prop where
  counted : Counted space' (hotEnds space'.hot)
  cbs : cbs
    = (space.hot.filter (fate space.heap · = .report)).map (pairIds space.heap)
      ++ (candidates heap addrs).filterMap (genReport heap)
  hot : space'.hot
    = ((candidates heap addrs).filterMap (genHot heap)).reverse
      ++ space.hot.filter (fate space.heap · = .keep)
  shrinks : Shrinks space.heap heap
  no_drop : ∀ a o, heap.get a = some o → o.isDrop = false
  nodup : addrs.Nodup
  all : ∀ a, a ∈ addrs ↔ ∃ o, heap.get a = some o
  settled : ∀ a, (space'.heap.get a).map Object.core
    = (heap.get a).map (fun o => o.settle.core)

theorem aoiMessage_walks {space : AoiSpace} (hc : Counted space (hotEnds space.hot))
    (hne : ∀ p ∈ space.hot, p.watcher ≠ p.marker)
    : ∃ space' heap addrs cbs, aoiMessage space = some (space', cbs)
        ∧ Walks space heap addrs space' cbs := by
  obtain ⟨s1, hflush, hc1, hhot1, hshrinks⟩ := flushPair_spec hc hne
  have hnodrop := flushPair_no_drop hc1 hhot1 hshrinks
  have hc1' : Counted (clearSets s1) (hotEnds s1.hot) :=
    ⟨hc1.wf, hc1.stored, hc1.live, hc1.ref, hc1.pos, hc1.dead⟩
  have hall := hc1.mem_foreach
  obtain ⟨s2, hpush, hpushes⟩ := setPushAll_spec (mapForeach s1.object) (clearSets s1)
    hc1.nodup_foreach
    (by
      intro a ha
      exact (hall a).mp ha)
  have hc2 := hc1'.pushes hpushes
  have hhot2 : s2.hot = s1.hot := hpushes.hot
  rw [← hhot2] at hc2
  have hsettled : ∀ a, s2.heap.get a = (s1.heap.get a).map Object.settle := by
    intro a
    rw [hpushes.heap]
    split
    . rfl
    . next hnot =>
      rw [hall] at hnot
      cases h : s1.heap.get a with
      | none => exact h
      | some o => exact absurd ⟨o, h⟩ hnot
  -- The objects have moved on to `s2`, but `gen_pair` reads nothing that `set_push` has changed.
  have hgen : ∀ pair, genReport s2.heap pair = genReport s1.heap pair
      ∧ genHot s2.heap pair = genHot s1.heap pair := by
    intro pair
    unfold genReport genHot
    rw [hsettled, hsettled]
    cases s1.heap.get pair.1 with
    | none => simp
    | some w =>
      cases s1.heap.get pair.2 with
      | none => simp
      | some m =>
        simp only [Option.map_some, dist2, Object.settle_id, Object.settle_version,
          Object.settle_position]
        exact ⟨rfl, rfl⟩
  have hlive : ∀ (kind : Object → Bool), ∀ a ∈ (mapForeach s1.object).filter (holds s1.heap kind),
      ∃ o, s2.heap.get a = some o := by
    intro kind a ha
    rw [mem_filter_holds hall] at ha
    obtain ⟨o, ho, -⟩ := ha
    rw [hsettled, ho]
    exact ⟨_, rfl⟩
  have hws := hpushes.watcherStatic
  have hms := hpushes.markerStatic
  have hwm := hpushes.watcherMove
  have hmm := hpushes.markerMove
  simp only [clearSets, List.nil_append] at hws hms hwm hmm
  obtain ⟨s3, hgen3, hc3, hsets3, hcore3⟩ := genPairList_spec s2.heap s2 s2.watcherStatic s2.markerMove
    hc2 (SameCore.refl _)
    (by
      rw [hws]
      exact hlive _)
    (by
      rw [hmm]
      exact hlive _)
  obtain ⟨s4, hgen4, hc4, hsets4, hcore4⟩ := genPairList_spec s2.heap s3 s3.watcherMove s3.markerStatic
    hc3 hcore3
    (by
      rw [hsets3.watcherMove]
      dsimp only
      rw [hwm]
      exact hlive _)
    (by
      rw [hsets3.markerStatic]
      dsimp only
      rw [hms]
      exact hlive _)
  obtain ⟨s5, hgen5, hc5, hsets5, hcore5⟩ := genPairList_spec s2.heap s4 s4.watcherMove s4.markerMove
    hc4 hcore4
    (by
      rw [hsets4.watcherMove]
      dsimp only
      rw [hsets3.watcherMove]
      dsimp only
      rw [hwm]
      exact hlive _)
    (by
      rw [hsets4.markerMove]
      dsimp only
      rw [hsets3.markerMove]
      dsimp only
      rw [hmm]
      exact hlive _)
  have hwm3 : s3.watcherMove.slot = s2.watcherMove.slot := by rw [hsets3.watcherMove]
  have hms3 : s3.markerStatic.slot = s2.markerStatic.slot := by rw [hsets3.markerStatic]
  have hwm4 : s4.watcherMove.slot = s2.watcherMove.slot := by rw [hsets4.watcherMove, ← hwm3]
  have hmm4 : s4.markerMove.slot = s2.markerMove.slot := by
    rw [hsets4.markerMove]
    dsimp only
    rw [hsets3.markerMove]
  refine ⟨s5, s1.heap, mapForeach s1.object, _, ?_, hc5, rfl, ?_, hshrinks, hnodrop,
    hc1.nodup_foreach, hall, ?_⟩
  . unfold aoiMessage
    rw [hflush]
    dsimp only
    unfold clearSets at hpush
    rw [hpush]
    dsimp only
    rw [hgen3]
    dsimp only
    rw [hgen4]
    dsimp only
    rw [hgen5]
    dsimp only
    rw [hwm3, hms3, hwm4, hmm4, hws, hms, hwm, hmm]
    have : genReport s2.heap = genReport s1.heap := by
      funext pair
      exact (hgen pair).1
    rw [this]
    unfold candidates
    simp only [List.filterMap_append, List.append_assoc]
  . have : genHot s2.heap = genHot s1.heap := by
      funext pair
      exact (hgen pair).2
    rw [hsets5.hot]
    dsimp only
    rw [hsets4.hot]
    dsimp only
    rw [hsets3.hot]
    dsimp only
    rw [hhot2, hwm3, hms3, hwm4, hmm4, hws, hms, hwm, hmm, this]
    unfold candidates
    rw [← hhot1]
    simp only [List.filterMap_append, List.reverse_append, List.append_assoc]
  . intro a
    rw [hcore5 a, hsettled a, Option.map_map]
    rfl

theorem Object.core_settle (o : Object) : o.settle.core = o.core.settle := by
  have hmove : o.core.isMove = o.isMove := rfl
  have hrole : o.core.hasRole = o.hasRole := rfl
  unfold Object.settle
  rw [hmove, hrole]
  split
  . rfl
  . rfl

def PairList.ends (p : PairList) : Nat × Nat :=
  (p.watcher, p.marker)

namespace Walks

variable {space space' : AoiSpace} {heap : Heap Object} {addrs : List Nat}
  {cbs : List (UInt32 × UInt32)}

theorem mem_candidates_iff (h : Walks space heap addrs space' cbs) (w m : Nat)
    : (w, m) ∈ candidates heap addrs ∧ w ≠ m ↔ ∃ ow om, Active space.heap w m ow om := by
  rw [mem_candidates h.all]
  constructor
  . rintro ⟨⟨ow, om, hw, hm, hisw, hism, hmove⟩, hne⟩
    obtain ⟨ow', hw', hcorew⟩ := h.shrinks.sub w ow hw
    obtain ⟨om', hm', hcorem⟩ := h.shrinks.sub m om hm
    have hdropw := h.no_drop w ow hw
    have hdropm := h.no_drop m om hm
    rw [Object.core_eq_iff] at hcorew hcorem
    simp only [Object.isDrop, Object.isWatcher, Object.isMarker, Object.isMove, hcorew, hcorem]
      at hdropw hdropm hisw hism hmove
    exact ⟨ow', om', hw', hm', hne, hdropw, hdropm, hisw, hism, hmove⟩
  . rintro ⟨ow, om, hact⟩
    obtain ⟨ow', hw', hcorew⟩ := h.shrinks.get hact.watcher hact.watcher_drop
    obtain ⟨om', hm', hcorem⟩ := h.shrinks.get hact.marker hact.marker_drop
    rw [Object.core_eq_iff] at hcorew hcorem
    refine ⟨⟨ow', om', hw', hm', ?_, ?_, ?_⟩, hact.ne⟩
    . simp only [Object.isWatcher, hcorew]
      exact hact.isWatcher
    . simp only [Object.isMarker, hcorem]
      exact hact.isMarker
    . simp only [Object.isMove, hcorew, hcorem]
      exact hact.move

theorem gen_iff (h : Walks space heap addrs space' cbs) {w m : Nat} {ow om : Object}
    (hact : Active space.heap w m ow om)
    : genReport heap (w, m) = (if dist2 ow om < aoiRadis2 then some (ow.id, om.id) else none)
        ∧ genHot heap (w, m)
          = if dist2 ow om = aoiRadis2 then some ⟨w, m, ow.version, om.version⟩ else none := by
  obtain ⟨ow', hw', hcorew⟩ := h.shrinks.get hact.watcher hact.watcher_drop
  obtain ⟨om', hm', hcorem⟩ := h.shrinks.get hact.marker hact.marker_drop
  rw [Object.core_eq_iff] at hcorew hcorem
  unfold genReport genHot
  simp only [hw', hm', dist2, hcorew, hcorem, hact.ne, ne_eq, not_false_eq_true, true_and]
  exact ⟨rfl, rfl⟩

theorem mem_gen (h : Walks space heap addrs space' cbs) (cb : UInt32 × UInt32)
    : cb ∈ (candidates heap addrs).filterMap (genReport heap)
        ↔
      ∃ w m ow om, Active space.heap w m ow om
        ∧ dist2 ow om < aoiRadis2
        ∧ cb = (ow.id, om.id) := by
  rw [List.mem_filterMap]
  constructor
  . rintro ⟨⟨w, m⟩, hmem, hgen⟩
    have hne : w ≠ m := by
      rw [genReport_eq_some_iff] at hgen
      obtain ⟨-, -, -, -, hne, -⟩ := hgen
      exact hne
    obtain ⟨ow, om, hact⟩ := (h.mem_candidates_iff w m).mp ⟨hmem, hne⟩
    rw [(h.gen_iff hact).1] at hgen
    split at hgen
    . next hnear =>
      rw [Option.some.injEq] at hgen
      exact ⟨w, m, ow, om, hact, hnear, hgen.symm⟩
    . simp at hgen
  . rintro ⟨w, m, ow, om, hact, hnear, rfl⟩
    have hmem := (h.mem_candidates_iff w m).mpr ⟨ow, om, hact⟩
    refine ⟨(w, m), hmem.1, ?_⟩
    rw [(h.gen_iff hact).1]
    simp [hnear]

theorem mem_cbs (h : Walks space heap addrs space' cbs) (cb : UInt32 × UInt32)
    : cb ∈ cbs
        ↔
      (∃ p ∈ space.hot, ∃ ow om, Fresh space.heap p ow om
          ∧ dist2 ow om < aoiRadis2
          ∧ cb = (ow.id, om.id))
        ∨ ∃ w m ow om, Active space.heap w m ow om
          ∧ dist2 ow om < aoiRadis2
          ∧ cb = (ow.id, om.id) := by
  rw [h.cbs, List.mem_append, h.mem_gen, List.mem_map]
  apply or_congr_left
  constructor
  . rintro ⟨p, hp, rfl⟩
    rw [List.mem_filter, decide_eq_true_eq, fate_eq_report_iff] at hp
    obtain ⟨hp, ow, om, hfresh, hnear⟩ := hp
    refine ⟨p, hp, ow, om, hfresh, hnear, ?_⟩
    simp [pairIds, idAt, hfresh.watcher, hfresh.marker]
  . rintro ⟨p, hp, ow, om, hfresh, hnear, rfl⟩
    refine ⟨p, ?_, ?_⟩
    . rw [List.mem_filter, decide_eq_true_eq, fate_eq_report_iff]
      exact ⟨hp, ow, om, hfresh, hnear⟩
    . simp [pairIds, idAt, hfresh.watcher, hfresh.marker]

theorem mem_genHot (h : Walks space heap addrs space' cbs) (p : PairList)
    : p ∈ (candidates heap addrs).filterMap (genHot heap)
        ↔
      ∃ ow om, Active space.heap p.watcher p.marker ow om
        ∧ dist2 ow om = aoiRadis2
        ∧ ow.version = p.watcherVersion
        ∧ om.version = p.markerVersion := by
  rw [List.mem_filterMap]
  constructor
  . rintro ⟨⟨w, m⟩, hmem, hgen⟩
    have hne : w ≠ m := by
      rw [genHot_eq_some_iff] at hgen
      obtain ⟨-, -, -, -, hne, -⟩ := hgen
      exact hne
    obtain ⟨ow, om, hact⟩ := (h.mem_candidates_iff w m).mp ⟨hmem, hne⟩
    rw [(h.gen_iff hact).2] at hgen
    split at hgen
    . next hedge =>
      rw [Option.some.injEq] at hgen
      subst hgen
      exact ⟨ow, om, hact, hedge, rfl, rfl⟩
    . simp at hgen
  . rintro ⟨ow, om, hact, hedge, hvw, hvm⟩
    have hmem := (h.mem_candidates_iff p.watcher p.marker).mpr ⟨ow, om, hact⟩
    refine ⟨(p.watcher, p.marker), hmem.1, ?_⟩
    rw [(h.gen_iff hact).2, hvw, hvm]
    simp [hedge]

theorem mem_hot (h : Walks space heap addrs space' cbs) (p : PairList)
    : p ∈ space'.hot
        ↔
      (p ∈ space.hot ∧ ∃ ow om, Fresh space.heap p ow om ∧ dist2 ow om = aoiRadis2)
        ∨ ∃ ow om, Active space.heap p.watcher p.marker ow om
          ∧ dist2 ow om = aoiRadis2
          ∧ ow.version = p.watcherVersion
          ∧ om.version = p.markerVersion := by
  rw [h.hot, List.mem_append, List.mem_reverse, h.mem_genHot, List.mem_filter, decide_eq_true_eq,
    fate_eq_keep_iff, or_comm]

theorem get (h : Walks space heap addrs space' cbs) (a : Nat)
    : (space'.heap.get a).map Object.core
        =
      ((space.heap.get a).filter (!·.isDrop)).map (fun o => o.settle.core) := by
  rw [h.settled]
  cases hheap : heap.get a with
  | some o =>
    obtain ⟨o0, ho0, hcore⟩ := h.shrinks.sub a o hheap
    have hdrop := h.no_drop a o hheap
    rw [Object.isDrop_of_core hcore] at hdrop
    have hsettle : o.settle.core = o0.settle.core := by
      rw [Object.core_settle, hcore, Object.core_settle]
    simp [ho0, Option.filter, hdrop, hsettle]
  | none =>
    cases hget : space.heap.get a with
    | none => rfl
    | some o =>
      cases hdrop : o.isDrop with
      | true => simp [Option.filter, hdrop]
      | false =>
        obtain ⟨o', ho', -⟩ := h.shrinks.get hget hdrop
        rw [hheap] at ho'
        simp at ho'

theorem get_some (h : Walks space heap addrs space' cbs) {a : Nat} {o' : Object}
    (hget : space'.heap.get a = some o')
    : ∃ o, space.heap.get a = some o ∧ o.isDrop = false ∧ o'.core = o.settle.core := by
  have hcore := h.get a
  rw [hget, Option.map_some, eq_comm, Option.map_eq_some_iff] at hcore
  obtain ⟨o, ho, heq⟩ := hcore
  rw [Option.filter_eq_some_iff, Bool.not_eq_true'] at ho
  exact ⟨o, ho.1, ho.2, heq.symm⟩

theorem get_of (h : Walks space heap addrs space' cbs) {a : Nat} {o : Object}
    (hget : space.heap.get a = some o) (hdrop : o.isDrop = false)
    : ∃ o', space'.heap.get a = some o' ∧ o'.core = o.settle.core := by
  have hcore := h.get a
  rw [hget] at hcore
  simp only [Option.filter, hdrop, Bool.not_false, ↓reduceIte, Option.map_some,
    Option.map_eq_some_iff] at hcore
  exact hcore

variable (hc : Counted space (hotEnds space.hot)) (hnodup : (space.hot.map PairList.ends).Nodup)
  (hquiet : ∀ p ∈ space.hot, ∀ ow om, Fresh space.heap p ow om →
    ow.isMove = false ∧ om.isMove = false)

theorem not_active_of_fresh {p : PairList} {ow om ow' om' : Object} {w m : Nat}
    (hp : p ∈ space.hot) (hfresh : Fresh space.heap p ow om)
    (hact : Active space.heap w m ow' om') (hw : p.watcher = w) (hm : p.marker = m)
    (hquiet : ∀ p ∈ space.hot, ∀ ow om, Fresh space.heap p ow om →
      ow.isMove = false ∧ om.isMove = false)
    : False := by
  obtain ⟨hqw, hqm⟩ := hquiet p hp ow om hfresh
  have how : ow = ow' := by
    have := hact.watcher
    rw [← hw, hfresh.watcher, Option.some.injEq] at this
    exact this
  have hom : om = om' := by
    have := hact.marker
    rw [← hm, hfresh.marker, Option.some.injEq] at this
    exact this
  have := hact.move
  rw [← how, ← hom, hqw, hqm] at this
  simp at this

include hc hnodup in
theorem nodup_flushed
    : ((space.hot.filter (fate space.heap · = .report)).map (pairIds space.heap)).Nodup := by
  have hinj := List.inj_on_of_nodup_map hnodup
  apply List.Nodup.map_on
  . intro p hp q hq heq
    rw [List.mem_filter, decide_eq_true_eq, fate_eq_report_iff] at hp hq
    obtain ⟨hp, pw, pm, hpfresh, -⟩ := hp
    obtain ⟨hq, qw, qm, hqfresh, -⟩ := hq
    simp only [pairIds, idAt, hpfresh.watcher, hpfresh.marker, hqfresh.watcher, hqfresh.marker,
      Prod.mk.injEq] at heq
    apply hinj hp hq
    unfold PairList.ends
    rw [hc.addr_unique hpfresh.watcher hqfresh.watcher heq.1,
      hc.addr_unique hpfresh.marker hqfresh.marker heq.2]
  . apply List.Nodup.filter
    exact hnodup.of_map

include hc in
theorem nodup_gen (h : Walks space heap addrs space' cbs)
    : ((candidates heap addrs).filterMap (genReport heap)).Nodup := by
  apply List.Nodup.filterMap
  . rintro ⟨w, m⟩ ⟨w', m'⟩ cb hcb hcb'
    rw [Option.mem_def, genReport_eq_some_iff] at hcb hcb'
    obtain ⟨ow, om, how, hom, -, -, rfl⟩ := hcb
    obtain ⟨ow', om', how', hom', -, -, heq⟩ := hcb'
    have hid : ∀ {a b oa ob}, heap.get a = some oa → heap.get b = some ob → oa.id = ob.id →
        a = b := by
      intro a b oa ob ha hb hid
      obtain ⟨oa', ha', hcorea⟩ := h.shrinks.sub a oa ha
      obtain ⟨ob', hb', hcoreb⟩ := h.shrinks.sub b ob hb
      rw [Object.core_eq_iff] at hcorea hcoreb
      apply hc.addr_unique ha' hb'
      rw [← hcorea.1, ← hcoreb.1, hid]
    simp only [Prod.mk.injEq] at heq ⊢
    exact ⟨hid how how' heq.1, hid hom hom' heq.2⟩
  . exact nodup_candidates heap h.nodup

include hc hnodup hquiet in
theorem nodup_cbs (h : Walks space heap addrs space' cbs) : cbs.Nodup := by
  rw [h.cbs, List.nodup_append']
  refine ⟨nodup_flushed hc hnodup, h.nodup_gen hc, ?_⟩
  intro cb h1 h2
  rw [List.mem_map] at h1
  obtain ⟨p, hp, rfl⟩ := h1
  rw [List.mem_filter, decide_eq_true_eq, fate_eq_report_iff] at hp
  obtain ⟨hp, ow, om, hfresh, -⟩ := hp
  rw [h.mem_gen] at h2
  obtain ⟨w, m, ow', om', hact, -, heq⟩ := h2
  simp only [pairIds, idAt, hfresh.watcher, hfresh.marker, Prod.mk.injEq] at heq
  exact not_active_of_fresh hp hfresh hact (hc.addr_unique hfresh.watcher hact.watcher heq.1)
    (hc.addr_unique hfresh.marker hact.marker heq.2) hquiet

include hnodup hquiet in
theorem nodup_hot (h : Walks space heap addrs space' cbs) : (space'.hot.map PairList.ends).Nodup := by
  rw [h.hot, List.map_append, List.nodup_append']
  refine ⟨?_, ?_, ?_⟩
  . rw [List.map_reverse, List.nodup_reverse, List.map_filterMap]
    apply List.Nodup.filterMap
    . rintro pair pair' ends hends hends'
      have hsame : ∀ {pair : Nat × Nat}, ends ∈ (genHot heap pair).map PairList.ends →
          ends = pair := by
        intro pair h
        rw [Option.mem_def, Option.map_eq_some_iff] at h
        obtain ⟨p, hp, rfl⟩ := h
        rw [genHot_eq_some_iff] at hp
        obtain ⟨-, -, -, -, -, -, rfl⟩ := hp
        rfl
      rw [← hsame hends, ← hsame hends']
    . exact nodup_candidates heap h.nodup
  . apply List.Nodup.sublist _ hnodup
    apply List.Sublist.map
    exact List.filter_sublist
  . intro ends h1 h2
    rw [List.mem_map] at h1 h2
    obtain ⟨p, hp, rfl⟩ := h1
    obtain ⟨q, hq, hends⟩ := h2
    rw [List.mem_reverse, h.mem_genHot] at hp
    rw [List.mem_filter, decide_eq_true_eq, fate_eq_keep_iff] at hq
    obtain ⟨hq, qw, qm, hfresh, -⟩ := hq
    obtain ⟨ow, om, hact, -⟩ := hp
    simp only [PairList.ends, Prod.mk.injEq] at hends
    exact not_active_of_fresh hq hfresh hact hends.1 hends.2 hquiet

end Walks

end Caoi
