import SkynetAoi.Caoi.Refine.View
import SkynetAoi.Lib.Interleave

/-!
This module contains what the order of the updates of different ids does not change: the callbacks
of every `aoi_message`, the objects and the hot pairs.
-/

namespace Caoi

open Interleave (Independent)

def Event.touches (id : UInt32) (event : Event) : Bool :=
  match event with
  | .update id' _ _ => id' = id
  | .message => true

/--
The same `aoi_message` points, and between two of them the same updates of each id in the same order.
-/
def SameOrder (events events' : List Event) : Prop :=
  Interleave.SameOrder Event.touches events events'

/--
The same objects and the same hot pairs, however they are stored.
-/
def Alike (space space' : AoiSpace) : Prop :=
  (objects space).Perm (objects space') ∧ (hotPairs space).Perm (hotPairs space')

def recordStep (s : AoiSpace × List (AoiSpace × List (UInt32 × UInt32))) (event : Event)
    : Option (AoiSpace × List (AoiSpace × List (UInt32 × UInt32))) :=
  match step s.1 event with
  | none => none
  | some (space, cbs) =>
    match event with
    | .update _ _ _ => some (space, s.2)
    | .message => some (space, s.2 ++ [(space, cbs)])

def runRecorded (events : List Event)
    : Option (AoiSpace × List (AoiSpace × List (UInt32 × UInt32))) :=
  run recordStep (caoiCreate, []) events

namespace View

noncomputable def recordStep (s : View × List (View × Set (UInt32 × UInt32))) (event : Event)
    : View × List (View × Set (UInt32 × UInt32)) :=
  match event with
  | .update id modestring pos => (s.1.update id modestring pos, s.2)
  | .message => (s.1.message, s.2 ++ [(s.1.message, s.1.reports)])

theorem recordStep_comm (s : View × List (View × Set (UInt32 × UInt32))) (a b : Event)
    (h : Independent Event.touches a b)
    : recordStep (recordStep s a) b = recordStep (recordStep s b) a := by
  cases a with
  | message =>
    cases b with
    | message => rfl
    | update id modestring pos =>
      have := h id rfl
      simp [Event.touches] at this
  | update id modestring pos =>
    cases b with
    | message =>
      have := h id (by simp [Event.touches])
      simp [Event.touches] at this
    | update id' modestring' pos' =>
      have hne : id ≠ id' := by
        have := h id (by simp [Event.touches])
        simp only [Event.touches, decide_eq_false_iff_not] at this
        exact Ne.symm this
      unfold recordStep
      dsimp only
      rw [update_comm s.1 hne]

end View

theorem Event.exists_touches (event : Event) : ∃ id, event.touches id = true := by
  cases event with
  | update id modestring pos => exact ⟨id, by simp [Event.touches]⟩
  | message => exact ⟨0, rfl⟩

structure Records (m : AoiSpace × List (UInt32 × UInt32)) (v : View × Set (UInt32 × UInt32))
    : Prop where
  sound : ∃ events, Sound events m.1
  view : view m.1 = v.1
  nodup : m.2.Nodup
  cbs : {cb | cb ∈ m.2} = v.2

theorem runRecorded_refines {events : List Event} (hvalid : ∀ event ∈ events, event.Valid)
    : ∃ space messages views, runRecorded events = some (space, messages)
        ∧ Sound events space
        ∧ events.foldl View.recordStep (view caoiCreate, []) = (view space, views)
        ∧ List.Forall₂ Records messages views := by
  let P := fun (past : List Event) (s : AoiSpace × List (AoiSpace × List (UInt32 × UInt32))) =>
    Sound past s.1
      ∧ ∃ views, past.foldl View.recordStep (view caoiCreate, []) = (view s.1, views)
        ∧ List.Forall₂ Records s.2 views
  have hstep : ∀ past s event, P past s → event.Valid →
      ∃ s', recordStep s event = some s' ∧ P (past ++ [event]) s' := by
    rintro past s event ⟨hs, views, hfold, hviews⟩ hok
    obtain ⟨space', cbs, hstep, hs', hview, hnodup, hcbs⟩ := hs.view_step hok
    cases event with
    | update id modestring pos =>
      refine ⟨(space', s.2), ?_, hs', views, ?_, hviews⟩
      . unfold recordStep
        rw [hstep]
      . rw [List.foldl_append, hfold, hview]
        rfl
    | message =>
      refine ⟨(space', s.2 ++ [(space', cbs)]), ?_, hs', ?_⟩
      . unfold recordStep
        rw [hstep]
      . refine ⟨views ++ [((view s.1).message, (view s.1).reports)], ?_, ?_⟩
        . rw [List.foldl_append, hfold, hview]
          rfl
        . apply List.rel_append hviews
          exact .cons ⟨⟨_, hs'⟩, hview, hnodup, hcbs rfl⟩ .nil
  have hinit : P [] (caoiCreate, []) := ⟨Sound.init, [], rfl, .nil⟩
  obtain ⟨⟨space, messages⟩, hrun, hs, views, hfold, hviews⟩ := run.total hstep hinit hvalid
  exact ⟨space, messages, views, hrun, hs, hfold, hviews⟩

theorem Sound.alike {events events' : List Event} {space space' : AoiSpace} (h : Sound events space)
    (h' : Sound events' space') (hview : view space = view space') : Alike space space' := by
  constructor
  . rw [List.perm_ext_iff_of_nodup h.counted.nodup_objects h'.counted.nodup_objects]
    intro o
    have hobject : objectAt space o.id = objectAt space' o.id := by
      have := congrArg View.object hview
      exact congrFun this o.id
    have hmem : ∀ {s : AoiSpace} {past : List Event}, Sound past s →
        (o ∈ objects s ↔ objectAt s o.id = some o) := by
      intro s past hs
      rw [hs.counted.mem_objects, hs.counted.objectAt_eq_some_iff]
      simp
    rw [hmem h, hmem h', hobject]
  . rw [List.perm_ext_iff_of_nodup h.nodup_hotPairs h'.nodup_hotPairs]
    intro p
    have := congrArg View.hot hview
    exact Set.ext_iff.mp this p

theorem Records.alike {m m' : AoiSpace × List (UInt32 × UInt32)}
    {v : View × Set (UInt32 × UInt32)} (h : Records m v) (h' : Records m' v)
    : m.2.Perm m'.2 ∧ Alike m.1 m'.1 := by
  obtain ⟨past, hs⟩ := h.sound
  obtain ⟨past', hs'⟩ := h'.sound
  constructor
  . rw [List.perm_ext_iff_of_nodup h.nodup h'.nodup]
    intro cb
    have : {cb | cb ∈ m.2} = {cb | cb ∈ m'.2} := by rw [h.cbs, h'.cbs]
    exact Set.ext_iff.mp this cb
  . apply hs.alike hs'
    rw [h.view, h'.view]

theorem Records.forall₂_alike {messages messages' : List (AoiSpace × List (UInt32 × UInt32))}
    {views : List (View × Set (UInt32 × UInt32))} (h : List.Forall₂ Records messages views)
    (h' : List.Forall₂ Records messages' views)
    : List.Forall₂ (fun m m' => m.2.Perm m'.2 ∧ Alike m.1 m'.1) messages messages' := by
  induction h generalizing messages' with
  | nil =>
    cases h'
    exact .nil
  | cons hm _ ih =>
    cases h' with
    | cons hm' hrest => exact .cons (hm.alike hm') (ih hrest)

theorem SameOrder.records_alike (events events' : List Event)
    (hvalid : ∀ event ∈ events, event.Valid) (horder : SameOrder events events')
    : ∃ space messages space' messages', runRecorded events = some (space, messages)
        ∧ runRecorded events' = some (space', messages')
        ∧ Alike space space'
        ∧ List.Forall₂ (fun m m' => m.2.Perm m'.2 ∧ Alike m.1 m'.1) messages messages' := by
  have hvalid' : ∀ event ∈ events', event.Valid := by
    intro event hevent
    exact hvalid event (horder.symm.mem Event.exists_touches hevent)
  obtain ⟨space, messages, views, hrun, hs, hfold, hviews⟩ := runRecorded_refines hvalid
  obtain ⟨space', messages', views', hrun', hs', hfold', hviews'⟩ := runRecorded_refines hvalid'
  have hsame : (view space, views) = (view space', views') := by
    rw [← hfold, ← hfold']
    exact horder.foldl_eq View.recordStep_comm Event.exists_touches _
  rw [Prod.mk.injEq] at hsame
  rw [← hsame.2] at hviews'
  exact ⟨space, messages, space', messages', hrun, hrun', hs.alike hs' hsame.1,
    Records.forall₂_alike hviews hviews'⟩

theorem SameOrder.records_alike_swapped
    : (∀ event ∈ [Event.update 1 ['w'] ⟨0, 0, 0⟩, .update 2 ['m'] ⟨3, 4, 0⟩, .message], event.Valid)
        ∧ SameOrder [.update 1 ['w'] ⟨0, 0, 0⟩, .update 2 ['m'] ⟨3, 4, 0⟩, .message]
          [.update 2 ['m'] ⟨3, 4, 0⟩, .update 1 ['w'] ⟨0, 0, 0⟩, .message]
        ∧ ∃ space messages space' messages',
          runRecorded [.update 1 ['w'] ⟨0, 0, 0⟩, .update 2 ['m'] ⟨3, 4, 0⟩, .message]
              = some (space, messages)
            ∧ runRecorded [.update 2 ['m'] ⟨3, 4, 0⟩, .update 1 ['w'] ⟨0, 0, 0⟩, .message]
              = some (space', messages')
            ∧ Alike space space'
            ∧ List.Forall₂ (fun m m' => m.2.Perm m'.2 ∧ Alike m.1 m'.1) messages messages' := by
  have hvalid : ∀ event ∈ [Event.update 1 ['w'] ⟨0, 0, 0⟩, .update 2 ['m'] ⟨3, 4, 0⟩, .message],
      event.Valid := by
    simp [Event.Valid, invalidId]
  have horder : SameOrder [.update 1 ['w'] ⟨0, 0, 0⟩, .update 2 ['m'] ⟨3, 4, 0⟩, .message]
      [.update 2 ['m'] ⟨3, 4, 0⟩, .update 1 ['w'] ⟨0, 0, 0⟩, .message] := by
    intro id
    by_cases h1 : 1 = id
    . subst h1
      rfl
    . by_cases h2 : 2 = id
      . subst h2
        rfl
      . simp [Event.touches, h1, h2]
  exact ⟨hvalid, horder, SameOrder.records_alike _ _ hvalid horder⟩

end Caoi
