import SkynetAoi.Caoi.Spec
import SkynetAoi.Caoi.Lemmas.Push
import SkynetAoi.Caoi.Lemmas.Update

/-!
This module contains how the specification moves on with one more event and how the track of an id
and its object follow each other.
-/

namespace Caoi

theorem track_append (events : List Event) (event : Event) (id : UInt32)
    : track (events ++ [event]) id = Track.step id (track events id) event := by
  unfold track
  rw [List.foldl_append]
  rfl

theorem track_message (events : List Event) (id : UInt32)
    : track (events ++ [.message]) id
        =
      (track events id).map fun t => { t with moved := false } := by
  rw [track_append]
  rfl

theorem track_update (events : List Event) (id id' : UInt32) (modestring : List Char) (pos : Point)
    : track (events ++ [.update id modestring pos]) id'
        =
      if id = id' then
        Track.update (track events id') modestring pos
      else
        track events id' := by
  rw [track_append]
  rfl

theorem track_update_cases {events : List Event} {id : UInt32} {modestring : List Char} {pos : Point}
    {t : Track} (h : track (events ++ [.update id modestring pos]) id = some t)
    : 'd' ∉ modestring
        ∧ (t = ⟨'w' ∈ modestring, 'm' ∈ modestring, pos, pos, true⟩
          ∨ ∃ t0, track events id = some t0
            ∧ Track.marks (some t0) modestring pos = false
            ∧ t = { t0 with position := pos }) := by
  rw [track_update, if_pos rfl] at h
  unfold Track.update at h
  split at h
  . simp at h
  . next hd =>
    refine ⟨hd, ?_⟩
    split at h
    . next t0 ht0 =>
      split at h
      . rw [Option.some.injEq] at h
        exact Or.inl h.symm
      . next hmarks =>
        rw [Option.some.injEq] at h
        rw [ht0, Bool.not_eq_true] at hmarks
        exact Or.inr ⟨t0, ht0, hmarks, h.symm⟩
    . rw [Option.some.injEq] at h
      exact Or.inl h.symm

theorem track_origin {events : List Event} {id : UInt32} {t : Track} (h : track events id = some t)
    : ∃ modestring pos, .update id modestring pos ∈ events ∧ (t.watcher = true → 'w' ∈ modestring) := by
  induction events using List.reverseRecOn generalizing t with
  | nil => simp [track] at h
  | append_singleton events event ih =>
    have hpast : ∀ t0, track events id = some t0 → t.watcher = t0.watcher →
        ∃ modestring pos, .update id modestring pos ∈ events ++ [event]
          ∧ (t.watcher = true → 'w' ∈ modestring) := by
      intro t0 ht0 hwatcher
      obtain ⟨modestring, pos, hmem, hmode⟩ := ih ht0
      exact ⟨modestring, pos, List.mem_append_left _ hmem, hwatcher ▸ hmode⟩
    cases event with
    | message =>
      rw [track_message, Option.map_eq_some_iff] at h
      obtain ⟨t0, ht0, rfl⟩ := h
      exact hpast t0 ht0 rfl
    | update id' modestring pos =>
      by_cases heq : id' = id
      . subst heq
        obtain ⟨-, rfl | ⟨t0, ht0, -, rfl⟩⟩ := track_update_cases h
        . exact ⟨modestring, pos, by simp, by simp⟩
        . exact hpast t0 ht0 rfl
      . rw [track_update, if_neg heq] at h
        exact hpast t h rfl

-- A position is never further from its anchor than what marks an id as moved.
theorem track_anchor {events : List Event} {id : UInt32} {t : Track} (h : track events id = some t)
    : Point.dist2 t.position t.last ≤ aoiRadis2 / 4 := by
  induction events using List.reverseRecOn generalizing t with
  | nil => simp [track] at h
  | append_singleton events event ih =>
    cases event with
    | message =>
      rw [track_message, Option.map_eq_some_iff] at h
      obtain ⟨t0, ht0, rfl⟩ := h
      have := ih ht0
      exact this
    | update id' modestring pos =>
      by_cases heq : id' = id
      . subst heq
        obtain ⟨-, rfl | ⟨t0, ht0, hmarks, rfl⟩⟩ := track_update_cases h
        . rw [Point.dist2_self]
          decide +kernel
        . simp only [Track.marks, Bool.or_eq_false_iff, Bool.not_eq_false', isNear,
            decide_eq_true_eq] at hmarks
          exact le_of_lt hmarks.2
      . rw [track_update, if_neg heq] at h
        exact ih h

theorem moved_of_no_message {events : List Event} (hmessage : .message ∉ events) {id : UInt32}
    {t : Track} (h : track events id = some t) : t.moved = true := by
  induction events using List.reverseRecOn generalizing t with
  | nil => simp [track] at h
  | append_singleton events event ih =>
    rw [List.mem_append, not_or] at hmessage
    cases event with
    | message => simp at hmessage
    | update id' modestring pos =>
      by_cases heq : id' = id
      . subst heq
        obtain ⟨-, rfl | ⟨t0, ht0, -, rfl⟩⟩ := track_update_cases h
        . rfl
        . have := ih hmessage.1 ht0
          exact this
      . rw [track_update, if_neg heq] at h
        exact ih hmessage.1 h

def Heats (events : List Event) (event : Event) (w m : UInt32) : Prop :=
  event = .message
    ∧ ∃ tw tm, Pair events w m tw tm
      ∧ (tw.moved ∨ tm.moved)
      ∧ Point.dist2 tw.position tm.position = aoiRadis2

theorem stayedHot_append (events : List Event) (event : Event) (w m : UInt32)
    : StayedHot (events ++ [event]) w m
        ↔
      (StayedHot events w m ∧ Keeps events event w m) ∨ Heats events event w m := by
  constructor
  . rintro ⟨before, after, heq, hheat, hkeep⟩
    cases after using List.reverseRecOn with
    | nil =>
      right
      have := List.append_inj' heq rfl
      simp only [List.cons.injEq, and_true] at this
      rw [this.1]
      exact ⟨this.2, hheat⟩
    | append_singleton after last ih =>
      left
      rw [← List.cons_append, ← List.append_assoc] at heq
      have := List.append_inj' heq rfl
      simp only [List.cons.injEq, and_true] at this
      obtain ⟨hevents, hlast⟩ := this
      rw [Throughout.append_singleton_iff] at hkeep
      rw [hevents, hlast]
      exact ⟨⟨before, after, rfl, hheat, hkeep.1⟩, hkeep.2⟩
  . rintro (⟨⟨before, after, rfl, hheat, hkeep⟩, hlast⟩ | ⟨rfl, hheat⟩)
    . refine ⟨before, after ++ [event], ?_, hheat, ?_⟩
      . rw [List.append_assoc, List.cons_append]
      . rw [Throughout.append_singleton_iff]
        exact ⟨hkeep, hlast⟩
    . exact ⟨events, [], rfl, hheat, Throughout.nil⟩

theorem stayedHot_update (events : List Event) (id : UInt32) (modestring : List Char) (pos : Point)
    (w m : UInt32)
    : StayedHot (events ++ [.update id modestring pos]) w m
        ↔
      StayedHot events w m ∧ Keeps events (.update id modestring pos) w m := by
  rw [stayedHot_append]
  simp [Heats]

theorem not_stayedHot_nil (w m : UInt32) : ¬StayedHot [] w m := by
  rintro ⟨before, after, heq, -⟩
  simp at heq

structure Matches (obj : Object) (t : Track) : Prop where
  watcher : obj.isWatcher = t.watcher
  marker : obj.isMarker = t.marker
  position : obj.position = t.position
  last : obj.last = t.last
  mode : obj.mode ≠ 0
  move : obj.hasRole = true → obj.isMove = t.moved

def Object.marked (obj : Object) (w m : Bool) (pos : Point) : Bool :=
  obj.mode = 0 || obj.isWatcher != w || obj.isMarker != m || !isNear pos obj.last

theorem Matches.marks {obj : Object} {t : Track} (h : Matches obj t) (modestring : List Char)
    (pos : Point)
    : Track.marks (some t) modestring pos
        =
      obj.marked ('w' ∈ modestring) ('m' ∈ modestring) pos := by
  simp only [Track.marks, Object.marked, h.watcher, h.marker, h.last, h.mode, decide_false,
    Bool.false_or]

theorem changeMode_spec (mode : Mode) (w m : Bool)
    : (changeMode mode w m).2
          = (mode = 0 || (mode &&& modeWatcher != 0) != w || (mode &&& modeMarker != 0) != m)
        ∧ ((changeMode mode w m).2 = false → (changeMode mode w m).1 = mode)
        ∧ (((changeMode mode w m).1 ||| modeMove) &&& modeWatcher != 0) = w
        ∧ (((changeMode mode w m).1 ||| modeMove) &&& modeMarker != 0) = m
        ∧ (((changeMode mode w m).1 ||| modeMove) &&& modeMove != 0) = true := by
  revert mode w m
  decide

def markMode (mode : Mode) (w m : Bool) : Mode :=
  (changeMode mode w m).1 ||| modeMove

theorem moveObject_eq (obj : Object) (w m : Bool) (pos : Point)
    : moveObject obj w m pos
        =
      if obj.marked w m pos then
        { obj with
          mode := markMode obj.mode w m
          position := pos
          last := pos
          version := obj.version + 1
        }
      else
        { obj with position := pos } := by
  obtain ⟨hchanged, hsame, -⟩ := changeMode_spec obj.mode w m
  have hmarked : ((changeMode obj.mode w m).2 || !isNear pos obj.last) = obj.marked w m pos := by
    rw [hchanged]
    rfl
  unfold moveObject
  dsimp only
  rw [hmarked]
  split
  . rfl
  . next hnot =>
    rw [← hmarked] at hnot
    simp only [Bool.or_eq_true, not_or, Bool.not_eq_true] at hnot
    rw [hsame hnot.1]

theorem matches_marked (obj : Object) (w m : Bool) (pos : Point) (version : Int)
    : Matches
        { obj with
          mode := markMode obj.mode w m
          position := pos
          last := pos
          version := version
        }
        ⟨w, m, pos, pos, true⟩ := by
  obtain ⟨-, -, hw, hm, hv⟩ := changeMode_spec obj.mode w m
  constructor
  . exact hw
  . exact hm
  . rfl
  . rfl
  . intro hzero
    dsimp only [markMode] at hzero
    rw [hzero] at hv
    simp at hv
  . intro _
    exact hv

theorem Matches.move_away {obj : Object} {t : Track} (h : Matches obj t) (pos : Point)
    : Matches { obj with position := pos } { t with position := pos } :=
  ⟨h.watcher, h.marker, rfl, h.last, h.mode, h.move⟩

theorem reviveObject_of_not_drop {obj : Object} (h : obj.isDrop = false) : reviveObject obj = obj := by
  simp [reviveObject, h]

theorem Object.settle_mode_ne_zero {obj : Object} (h : obj.mode ≠ 0) : obj.settle.mode ≠ 0 := by
  have hbits : ∀ (mode : Mode), mode &&& ~~~modeMove = 0 →
      mode &&& modeWatcher = 0 ∧ mode &&& modeMarker = 0 := by
    decide
  unfold Object.settle
  split
  . next hmove =>
    intro hzero
    have := hbits obj.mode hzero
    simp [Object.hasRole, Object.isWatcher, Object.isMarker, this] at hmove
  . exact h

theorem Matches.settle {obj : Object} {t : Track} (h : Matches obj t)
    : Matches obj.settle { t with moved := false } := by
  constructor
  . rw [Object.settle_isWatcher, h.watcher]
  . rw [Object.settle_isMarker, h.marker]
  . rw [Object.settle_position, h.position]
  . rw [Object.settle_last, h.last]
  . exact Object.settle_mode_ne_zero h.mode
  . intro hrole
    unfold Object.hasRole at hrole
    rw [Object.settle_isWatcher, Object.settle_isMarker] at hrole
    rw [Object.settle_isMove]
    simp [Object.hasRole, hrole]

end Caoi
