import SkynetAoi.Caoi.Correct

/-!
This module contains that an `aoi_message` leaves nothing to do for one that follows it at once.
-/

namespace Caoi

/--
No hot pair is stale or can be reported and no object that is a watcher or a marker is marked as
moved.
-/
structure Idle (space : AoiSpace) : Prop where
  keep : ∀ p ∈ space.hot, fate space.heap p = .keep
  still : ∀ (a : Nat) (o : Object), space.heap.get a = some o → o.hasRole = true → o.isMove = false

structure Unchanged (space space' : AoiSpace) : Prop where
  object : space'.object = space.object
  hot : space'.hot = space.hot
  heap : ∀ (a : Nat), space'.heap.get a = space.heap.get a

theorem flushPair.go_keep (space : AoiSpace) (hot : List PairList)
    (h : ∀ p ∈ hot, fate space.heap p = .keep) : go space hot = some (space, hot, []) := by
  induction hot with
  | nil => rfl
  | cons p next ih =>
    have hnext := ih fun q hq => h q (by simp [hq])
    have hkeep := h p (by simp)
    rw [fate_eq_keep_iff] at hkeep
    obtain ⟨w, m, hfresh, hedge⟩ := hkeep
    unfold go
    rw [hfresh.watcher, hfresh.marker]
    dsimp only
    rw [hnext, hedge]
    simp [hfresh.watcher_version, hfresh.marker_version, hfresh.watcher_drop, hfresh.marker_drop,
      leaveAoiRadis]

theorem genPairList_of_nil (space : AoiSpace) {watcher marker : ObjectSet}
    (h : watcher.slot = [] ∨ marker.slot = [])
    : genPairList space watcher marker = some (space, []) := by
  have hpairs : (watcher.slot.flatMap fun w => marker.slot.map fun m => (w, m)) = [] := by
    rcases h with h | h
    . simp [h]
    . simp [h]
  unfold genPairList
  rw [hpairs]
  rfl

namespace Idle

variable {space : AoiSpace}

theorem settle_eq (h : Idle space) {a : Nat} {o : Object} (ho : space.heap.get a = some o)
    : o.settle = o := by
  unfold Object.settle
  cases hrole : o.hasRole with
  | false => simp
  | true =>
    rw [h.still a o ho hrole]
    rfl

theorem filter_move (h : Idle space) {kind : Object → Bool}
    (hkind : ∀ o, kind o = true → o.hasRole = true ∧ o.isMove = true) (addrs : List Nat)
    : addrs.filter (holds space.heap kind) = [] := by
  rw [List.filter_eq_nil_iff]
  intro a _ hholds
  rw [holds_iff] at hholds
  obtain ⟨o, ho, hk⟩ := hholds
  obtain ⟨hrole, hmove⟩ := hkind o hk
  rw [h.still a o ho hrole] at hmove
  simp at hmove

theorem aoiMessage (h : Idle space) (hc : Counted space (hotEnds space.hot))
    : ∃ space', aoiMessage space = some (space', []) ∧ Unchanged space space' := by
  have hflush : flushPair space = some (space, []) := by
    unfold flushPair
    rw [flushPair.go_keep space space.hot h.keep]
  obtain ⟨space', hpush, hpushes⟩ := setPushAll_spec (mapForeach space.object) (clearSets space)
    hc.nodup_foreach fun a ha => (hc.mem_foreach a).mp ha
  have hwatcher : space'.watcherMove.slot = [] := by
    rw [hpushes.watcherMove]
    apply h.filter_move
    intro o ho
    simp only [Object.moveWatcher, Bool.and_eq_true] at ho
    simp [Object.hasRole, ho]
  have hmarker : space'.markerMove.slot = [] := by
    rw [hpushes.markerMove]
    apply h.filter_move
    intro o ho
    simp only [Object.moveMarker, Bool.and_eq_true] at ho
    simp [Object.hasRole, ho]
  refine ⟨space', ?_, hpushes.object, hpushes.hot, ?_⟩
  . unfold Caoi.aoiMessage
    rw [hflush]
    dsimp only
    unfold clearSets at hpush
    rw [hpush]
    dsimp only
    rw [genPairList_of_nil _ (Or.inr hmarker)]
    dsimp only
    rw [genPairList_of_nil _ (Or.inl hwatcher)]
    dsimp only
    rw [genPairList_of_nil _ (Or.inl hwatcher)]
    rfl
  . intro a
    rw [hpushes.heap]
    split
    . cases hget : space.heap.get a with
      | none =>
        unfold clearSets
        dsimp only
        rw [hget]
        rfl
      | some o =>
        unfold clearSets
        dsimp only
        rw [hget, Option.map_some, h.settle_eq hget]
    . rfl

end Idle

theorem Walks.idle {space space' : AoiSpace} {heap : Heap Object} {addrs : List Nat}
    {cbs : List (UInt32 × UInt32)} (hw : Walks space heap addrs space' cbs) : Idle space' where
  keep := by
    intro p hp
    have hcases : ∃ ow om, Fresh space.heap p ow om ∧ dist2 ow om = aoiRadis2 := by
      rw [hw.mem_hot] at hp
      rcases hp with ⟨-, hfresh⟩ | ⟨ow, om, hact, hedge, hvw, hvm⟩
      . exact hfresh
      . exact ⟨ow, om,
          ⟨hact.watcher, hact.marker, hvw, hvm, hact.watcher_drop, hact.marker_drop⟩, hedge⟩
    obtain ⟨ow, om, hfresh, hedge⟩ := hcases
    obtain ⟨ow', how', hcorew⟩ := hw.get_of hfresh.watcher hfresh.watcher_drop
    obtain ⟨om', hom', hcorem⟩ := hw.get_of hfresh.marker hfresh.marker_drop
    have hdropw := Object.isDrop_of_core hcorew
    have hdropm := Object.isDrop_of_core hcorem
    rw [Object.settle_isDrop] at hdropw hdropm
    rw [Object.core_eq_iff, Object.settle_version, Object.settle_position] at hcorew hcorem
    rw [fate_eq_keep_iff]
    refine ⟨ow', om', ⟨how', hom', ?_, ?_, ?_, ?_⟩, ?_⟩
    . rw [hcorew.2.1, hfresh.watcher_version]
    . rw [hcorem.2.1, hfresh.marker_version]
    . rw [hdropw, hfresh.watcher_drop]
    . rw [hdropm, hfresh.marker_drop]
    . unfold dist2 at hedge ⊢
      rw [hcorew.2.2.2.2, hcorem.2.2.2.2, hedge]
  still := by
    intro a o' ho' hrole
    obtain ⟨o, ho, -, hcore⟩ := hw.get_some ho'
    apply Object.isMove_of_settled hcore
    rw [Object.core_eq_iff] at hcore
    unfold Object.hasRole at hrole ⊢
    rw [← o.settle_isWatcher, ← o.settle_isMarker]
    unfold Object.isWatcher Object.isMarker at hrole ⊢
    rw [← hcore.2.2.1]
    exact hrole

theorem aoiMessage_idle (events : List Event) (hvalid : ∀ event ∈ events, event.Valid)
    : ∃ space space₁ space₂ cbs, runEvents events = some space
        ∧ aoiMessage space = some (space₁, cbs)
        ∧ aoiMessage space₁ = some (space₂, [])
        ∧ Unchanged space₁ space₂ := by
  obtain ⟨space, hrun, h⟩ := runEvents_sound hvalid
  obtain ⟨space₁, heap, addrs, cbs, hmessage, hw⟩ := aoiMessage_walks h.counted h.ne
  obtain ⟨space₂, hmessage', hsame⟩ := hw.idle.aoiMessage (h.message hw).counted
  exact ⟨space, space₁, space₂, cbs, hrun, hmessage, hmessage', hsame⟩

theorem aoiMessage_idle_border
    : (∀ event ∈ [Event.update 1 ['w'] ⟨0, 0, 0⟩, .update 2 ['m'] ⟨40, 0, 0⟩, .message,
          .update 2 ['d'] ⟨40, 0, 0⟩, .update 3 [] ⟨0, 0, 0⟩], event.Valid)
        ∧ ∃ space space₁ space₂ cbs,
          runEvents [.update 1 ['w'] ⟨0, 0, 0⟩, .update 2 ['m'] ⟨40, 0, 0⟩, .message,
            .update 2 ['d'] ⟨40, 0, 0⟩, .update 3 [] ⟨0, 0, 0⟩] = some space
          ∧ aoiMessage space = some (space₁, cbs)
          ∧ aoiMessage space₁ = some (space₂, [])
          ∧ Unchanged space₁ space₂ := by
  have hvalid : ∀ event ∈ [Event.update 1 ['w'] ⟨0, 0, 0⟩, .update 2 ['m'] ⟨40, 0, 0⟩, .message,
      .update 2 ['d'] ⟨40, 0, 0⟩, .update 3 [] ⟨0, 0, 0⟩], event.Valid := by
    simp [Event.Valid, invalidId]
  exact ⟨hvalid, aoiMessage_idle _ hvalid⟩

end Caoi
