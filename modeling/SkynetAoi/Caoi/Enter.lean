import SkynetAoi.Caoi.Correct

/-!
This module contains when the `caoi` service has reported every pair inside the radius. With
`leaveAoiRadis` no wider than the radius a pair that drifts inside without being marked as moved is
lost, and this is the only way to lose one.
-/

namespace Caoi

def callbacks (events : List Event) : List (UInt32 × UInt32) :=
  match runEvents events with
  | none => []
  | some space =>
    match aoiMessage space with
    | none => []
    | some (_, cbs) => cbs

theorem mem_callbacks_iff {events : List Event} (hvalid : ∀ event ∈ events, event.Valid)
    (w m : UInt32) : (w, m) ∈ callbacks events ↔ Reportable events w m := by
  obtain ⟨space, hrun, hs⟩ := runEvents_sound hvalid
  obtain ⟨space', heap, addrs, cbs, hmessage, hw⟩ := aoiMessage_walks hs.counted hs.ne
  unfold callbacks
  rw [hrun]
  dsimp only
  rw [hmessage]
  exact hs.mem_cbs_iff hw w m

def Restarts (events : List Event) (event : Event) (id : UInt32) : Prop :=
  match event with
  | .update id' modestring _ =>
    id' = id ∧ 'd' ∉ modestring
      ∧ match track events id with
        | none => True
        | some t => t.watcher ≠ decide ('w' ∈ modestring) ∨ t.marker ≠ decide ('m' ∈ modestring)
  | .message => False

-- The event makes an older report of the pair worthless.
def Outdates (events : List Event) (event : Event) (w m : UInt32) : Prop :=
  Restarts events event w
    ∨ Restarts events event m
    ∨ (event = .message
      ∧ ∃ tw tm, track events w = some tw
        ∧ track events m = some tm
        ∧ aoiRadis2 ≤ Point.dist2 tw.position tm.position)

/--
The pair is reported by the `aoi_message` that follows the events or was by an earlier one, and
nothing has outdated the report since.
-/
def Reported (events : List Event) (w m : UInt32) : Prop :=
  ∃ before after, events ++ [.message] = before ++ .message :: after
    ∧ (w, m) ∈ callbacks before
    ∧ Throughout (fun a event => ¬Outdates (before ++ .message :: a) event w m) after

-- The `aoi_message` after the events leaves no pair inside the radius unreported.
def EnterComplete (events : List Event) : Prop :=
  ∀ w m tw tm, Pair events w m tw tm → Point.dist2 tw.position tm.position < aoiRadis2 →
    Reported events w m

def InsideBefore (events : List Event) (w m : UInt32) : Prop :=
  ∃ before after tw tm, events = before ++ .message :: after
    ∧ .message ∉ after
    ∧ track before w = some tw
    ∧ track before m = some tm
    ∧ Point.dist2 tw.position tm.position < aoiRadis2

/--
The pair has not come inside the radius since the last `aoi_message` unless one of its ends was marked
as moved or it was on the hot list.
-/
def Undrifted (events : List Event) (w m : UInt32) : Prop :=
  ∀ tw tm, Pair events w m tw tm → Point.dist2 tw.position tm.position < aoiRadis2 →
    tw.moved = false → tm.moved = false → StayedHot events w m ∨ InsideBefore events w m

def NoDrift (events : List Event) : Prop := ∀ w m, Undrifted events w m

theorem track_before {before after : List Event} (hafter : .message ∉ after) {id : UInt32} {t : Track}
    (ht : track (before ++ .message :: after) id = some t) (hmoved : t.moved = false)
    : (∃ t0, track before id = some t0
          ∧ t0.last = t.last
          ∧ t0.watcher = t.watcher
          ∧ t0.marker = t.marker)
        ∧ Throughout (fun a event => ¬Restarts (before ++ .message :: a) event id) after := by
  induction after using List.reverseRecOn generalizing t with
  | nil =>
    rw [track_message, Option.map_eq_some_iff] at ht
    obtain ⟨t0, ht0, rfl⟩ := ht
    exact ⟨⟨t0, ht0, rfl, rfl, rfl⟩, Throughout.nil⟩
  | append_singleton after last ih =>
    rw [List.mem_append, not_or] at hafter
    rw [← List.cons_append, ← List.append_assoc] at ht
    have hlast : ∃ t1, track (before ++ .message :: after) id = some t1
        ∧ t1.moved = false
        ∧ t1.last = t.last
        ∧ t1.watcher = t.watcher
        ∧ t1.marker = t.marker
        ∧ ¬Restarts (before ++ .message :: after) last id := by
      cases last with
      | message =>
        exfalso
        simp at hafter
      | update id' modestring pos =>
        rw [track_update] at ht
        unfold Restarts
        split at ht
        . unfold Track.update at ht
          split at ht
          . simp at ht
          . split at ht
            . next t1 ht1 =>
              split at ht
              . rw [Option.some.injEq] at ht
                rw [← ht] at hmoved
                simp at hmoved
              . next hmarks =>
                rw [Option.some.injEq] at ht
                subst ht
                refine ⟨t1, ht1, hmoved, rfl, rfl, rfl, ?_⟩
                rw [ht1]
                simp only [ht1, Track.marks, Bool.or_eq_true, bne_iff_ne, not_or, not_not]
                  at hmarks
                rintro ⟨-, -, hrole⟩
                dsimp only at hrole
                rw [hmarks.1.1, hmarks.1.2] at hrole
                simp at hrole
            . rw [Option.some.injEq] at ht
              rw [← ht] at hmoved
              simp at hmoved
        . next hne =>
          refine ⟨t, ht, hmoved, rfl, rfl, rfl, ?_⟩
          rintro ⟨heq, -⟩
          exact hne heq
    obtain ⟨t1, ht1, hmoved1, hl1, hw1, hm1, hnot⟩ := hlast
    obtain ⟨⟨t0, ht0, hl0, hw0, hm0⟩, hrest⟩ := ih hafter.1 ht1 hmoved1
    refine ⟨⟨t0, ht0, by rw [hl0, hl1], by rw [hw0, hw1], by rw [hm0, hm1]⟩, ?_⟩
    rw [Throughout.append_singleton_iff]
    exact ⟨hrest, hnot⟩

theorem reported_of_callback {events : List Event} {w m : UInt32} (h : (w, m) ∈ callbacks events)
    : Reported events w m :=
  ⟨events, [], rfl, h, Throughout.nil⟩

theorem Reported.extend {before after : List Event} {w m : UInt32} (h : Reported before w m)
    (hafter : .message ∉ after)
    (hw : Throughout (fun a event => ¬Restarts (before ++ .message :: a) event w) after)
    (hm : Throughout (fun a event => ¬Restarts (before ++ .message :: a) event m) after)
    (hlast : ¬Outdates (before ++ .message :: after) .message w m)
    : Reported (before ++ .message :: after) w m := by
  obtain ⟨b, a, heq, hcallback, hkeep⟩ := h
  have hbefore : ∀ l, before ++ .message :: l = b ++ .message :: (a ++ l) := by
    intro l
    rw [← List.cons_append, ← List.append_assoc, ← heq, List.append_assoc, List.singleton_append]
  refine ⟨b, a ++ (after ++ [.message]), ?_, hcallback, ?_⟩
  . rw [← hbefore]
    simp
  . rw [Throughout.append_iff, Throughout.append_singleton_iff]
    refine ⟨hkeep, ?_, ?_⟩
    . intro x event y hsplit
      rw [← hbefore]
      rintro (hrestart | hrestart | ⟨rfl, -⟩)
      . exact hw x event y hsplit hrestart
      . exact hm x event y hsplit hrestart
      . apply hafter
        rw [hsplit]
        simp
    . rw [← hbefore]
      exact hlast

theorem not_outdates_of_near {events : List Event} {w m : UInt32} {tw tm : Track}
    (hpair : Pair events w m tw tm) (hnear : Point.dist2 tw.position tm.position < aoiRadis2)
    : ¬Outdates events .message w m := by
  rintro (hrestart | hrestart | ⟨-, tw', tm', htw', htm', hfar⟩)
  . exact hrestart
  . exact hrestart
  . rw [hpair.watcher_track, Option.some.injEq] at htw'
    rw [hpair.marker_track, Option.some.injEq] at htm'
    rw [← htw', ← htm'] at hfar
    exact absurd hnear (not_lt.mpr hfar)

theorem enterComplete_of_noDrift (n : Nat) (events : List Event) (hlen : events.length < n)
    (hvalid : ∀ event ∈ events, event.Valid)
    (hdrift : Throughout (fun before event => event = .message → NoDrift before)
      (events ++ [.message]))
    : EnterComplete events := by
  -- The report of a pair that was inside at the last `aoi_message` already is the one of then.
  induction n generalizing events with
  | zero => omega
  | succ n ih =>
    intro w m tw tm hpair hnear
    by_cases hrep : Reportable events w m
    . apply reported_of_callback
      rw [mem_callbacks_iff hvalid]
      exact hrep
    . have hmoved : tw.moved = false ∧ tm.moved = false ∧ ¬StayedHot events w m := by
        refine ⟨?_, ?_, ?_⟩
        . rw [← Bool.not_eq_true]
          intro h
          exact hrep ⟨tw, tm, hpair, hnear, Or.inl h⟩
        . rw [← Bool.not_eq_true]
          intro h
          exact hrep ⟨tw, tm, hpair, hnear, Or.inr (Or.inl h)⟩
        . intro h
          exact hrep ⟨tw, tm, hpair, hnear, Or.inr (Or.inr h)⟩
      rw [Throughout.append_singleton_iff] at hdrift
      have hlast := hdrift.2 rfl w m tw tm hpair hnear hmoved.1 hmoved.2.1
      rcases hlast with hhot | ⟨before, after, tw0, tm0, rfl, hafter, htw0, htm0, hnear0⟩
      . exact absurd hhot hmoved.2.2
      . obtain ⟨⟨tw1, htw1, -, hw1, -⟩, hrestw⟩ :=
          track_before hafter hpair.watcher_track hmoved.1
        obtain ⟨⟨tm1, htm1, -, -, hm1⟩, hrestm⟩ :=
          track_before hafter hpair.marker_track hmoved.2.1
        rw [htw0, Option.some.injEq] at htw1
        rw [htm0, Option.some.injEq] at htm1
        have hpair0 : Pair before w m tw0 tm0 := by
          refine ⟨hpair.ne, htw0, htm0, ?_, ?_⟩
          . rw [htw1, hw1]
            exact hpair.watcher
          . rw [htm1, hm1]
            exact hpair.marker
        have hreported : Reported before w m := by
          apply ih before _ _ _ w m tw0 tm0 hpair0 hnear0
          . simp only [List.length_append, List.length_cons] at hlen
            omega
          . intro event hevent
            apply hvalid
            simp [hevent]
          . have := hdrift.1
            rw [← List.singleton_append, ← List.append_assoc, Throughout.append_iff] at this
            exact this.1
        exact hreported.extend hafter hrestw hrestm (not_outdates_of_near hpair hnear)

theorem noDrift_of_enterComplete {events : List Event} (hvalid : ∀ event ∈ events, event.Valid)
    (h : EnterComplete events) : NoDrift events := by
  intro w m tw tm hpair hnear hmw hmm
  obtain ⟨before, after, heq, hcallback, hkeep⟩ := h w m tw tm hpair hnear
  cases after using List.reverseRecOn with
  | nil =>
    have := List.append_inj' heq rfl
    rw [← this.1, mem_callbacks_iff hvalid] at hcallback
    obtain ⟨tw', tm', hpair', -, hcase⟩ := hcallback
    have htw := hpair'.watcher_track
    have htm := hpair'.marker_track
    rw [hpair.watcher_track, Option.some.injEq] at htw
    rw [hpair.marker_track, Option.some.injEq] at htm
    rw [← htw, ← htm, hmw, hmm] at hcase
    simp only [Bool.false_eq_true, false_or] at hcase
    exact Or.inl hcase
  | append_singleton after last _ =>
    right
    rw [← List.cons_append, ← List.append_assoc] at heq
    obtain ⟨rfl, -⟩ := List.append_inj' heq rfl
    rw [Throughout.append_singleton_iff] at hkeep
    by_cases hlater : Event.message ∈ after
    . obtain ⟨a, b, rfl, hb⟩ := exists_last_of_mem hlater
      have hsplit : before ++ .message :: (a ++ .message :: b)
          = (before ++ .message :: a) ++ .message :: b := by
        simp
      rw [hsplit] at hpair ⊢
      obtain ⟨⟨tw0, htw0, -⟩, -⟩ := track_before hb hpair.watcher_track hmw
      obtain ⟨⟨tm0, htm0, -⟩, -⟩ := track_before hb hpair.marker_track hmm
      refine ⟨_, b, tw0, tm0, rfl, hb, htw0, htm0, ?_⟩
      apply lt_of_not_ge
      intro hfar
      apply hkeep.1 a .message b rfl
      right
      right
      exact ⟨rfl, tw0, tm0, htw0, htm0, hfar⟩
    . rw [mem_callbacks_iff] at hcallback
      . obtain ⟨tw0, tm0, hpair0, hnear0, -⟩ := hcallback
        exact ⟨before, after, tw0, tm0, rfl, hlater, hpair0.watcher_track, hpair0.marker_track,
          hnear0⟩
      . intro event hevent
        apply hvalid
        simp [hevent]

theorem enterComplete_iff_noDrift (events : List Event) (hvalid : ∀ event ∈ events, event.Valid)
    : Throughout (fun before event => event = .message → EnterComplete before) events
        ↔
      Throughout (fun before event => event = .message → NoDrift before) events := by
  constructor
  . intro h before event after heq hmessage
    apply noDrift_of_enterComplete _ (h before event after heq hmessage)
    intro e he
    apply hvalid
    rw [heq]
    simp [he]
  . intro h before event after heq hmessage
    subst hmessage
    apply enterComplete_of_noDrift (before.length + 1) before (by omega)
    . intro e he
      apply hvalid
      rw [heq]
      simp [he]
    . rw [heq, ← List.singleton_append, ← List.append_assoc, Throughout.append_iff] at h
      exact h.1

theorem enterComplete_iff_noDrift_near
    : (∀ event ∈ [Event.update 1 ['w'] ⟨0, 0, 0⟩, .update 2 ['m'] ⟨3, 4, 0⟩, .message], event.Valid)
        ∧ (Throughout (fun before event => event = .message → EnterComplete before)
            [.update 1 ['w'] ⟨0, 0, 0⟩, .update 2 ['m'] ⟨3, 4, 0⟩, .message]
          ↔
        Throughout (fun before event => event = .message → NoDrift before)
            [.update 1 ['w'] ⟨0, 0, 0⟩, .update 2 ['m'] ⟨3, 4, 0⟩, .message]) := by
  have hvalid : ∀ event ∈ [Event.update 1 ['w'] ⟨0, 0, 0⟩, .update 2 ['m'] ⟨3, 4, 0⟩, .message],
      event.Valid := by
    simp [Event.Valid, invalidId]
  exact ⟨hvalid, enterComplete_iff_noDrift _ hvalid⟩

def driftEvents : List Event :=
  [.update 1 ['w'] ⟨0, 0, 0⟩, .update 2 ['m'] ⟨50, 0, 0⟩, .message, .update 2 ['m'] ⟨31, 0, 0⟩]

theorem driftEvents_not_reported
    : ¬∀ events, (∀ event ∈ events, event.Valid) →
        Throughout (fun before event => event = .message → EnterComplete before) events := by
  intro h
  have hvalid : ∀ event ∈ driftEvents ++ [.message], event.Valid := by
    simp [driftEvents, Event.Valid, invalidId]
  have hpair : ∃ tw tm, Pair driftEvents 1 2 tw tm
      ∧ Point.dist2 tw.position tm.position < aoiRadis2 := by
    refine ⟨⟨true, false, ⟨0, 0, 0⟩, ⟨0, 0, 0⟩, false⟩, ⟨false, true, ⟨31, 0, 0⟩, ⟨50, 0, 0⟩, false⟩,
      ⟨by decide, ?_, ?_, rfl, rfl⟩, ?_⟩
    . decide +kernel
    . decide +kernel
    . decide +kernel
  obtain ⟨tw, tm, hpair, hnear⟩ := hpair
  have hcomplete := h (driftEvents ++ [.message]) hvalid driftEvents .message [] rfl rfl
  obtain ⟨before, after, heq, hcallback, -⟩ := hcomplete 1 2 tw tm hpair hnear
  have hnone : ∀ n < 5, ((1, 2) : UInt32 × UInt32) ∉ callbacks (driftEvents.take n) := by
    decide +kernel
  have hlen := congrArg List.length heq
  simp only [driftEvents, List.length_append, List.length_cons, List.length_nil] at hlen
  have hbefore : before = driftEvents.take before.length := by
    have := congrArg (List.take before.length) heq
    rw [List.take_append_of_le_length (by simp [driftEvents]; omega), List.take_left] at this
    exact this.symm
  apply hnone before.length (by omega)
  rw [← hbefore]
  exact hcallback

end Caoi
