import SkynetAoi.Aoi.Flags
import SkynetAoi.Scene.Invariant

/-!
This module contains when a player only sees whoever is near. `aoicallback` does not look at the
distance, and the positions that the `caoi` service has made the callback from may be old.
-/

namespace Scene

variable {Agent : Type} {kind : UInt32 → Aoi.CharType}

def VisibleNear (aoi : Aoi.State UInt32 Agent) : Prop :=
  ∀ (a b : UInt32) (oa ob : Aoi.Obj UInt32 Agent), aoi.OBJ a = some oa → aoi.OBJ b = some ob →
    aoi.getView .player a b = some true → Point.dist2 oa.pos ob.pos ≤ Aoi.aoiRadis2

/--
Two objects that a callback is handled for are still within the radius of the map service.
-/
def NearCallback (s : Scene Agent) (request : Aoi.Action UInt32 Agent) : Prop :=
  match request with
  | .aoicallback w m =>
    ∀ ow om, s.aoi.OBJ w = some ow → s.aoi.OBJ m = some om →
      Point.dist2 ow.pos om.pos ≤ Aoi.aoiRadis2
  | _ => True

theorem VisibleNear.handle {s : Scene Agent} (h : VisibleNear s.aoi) (hinv : Aoi.Inv kind s.aoi)
    {request : Aoi.Action UInt32 Agent} (hwf : request.WF kind)
    (hraises : Aoi.raises (Aoi.handle request s.aoi) = false) (hnear : NearCallback s request)
    : VisibleNear (Aoi.outcome (Aoi.handle request s.aoi)) := by
  intro a b oa ob ha hb hget
  have hflag := Aoi.FlagFrom.handle hinv hwf hraises ha hb hget
  generalize hv : true = v at hflag
  cases hflag with
  | distance => simpa [Aoi.near] using hv.symm
  | before _ hget ha hb =>
    rw [← hv] at hget
    exact h a b oa ob ha hb hget
  | callback hpair =>
    have hobj : ∀ w m, request = .aoicallback w m →
        (Aoi.outcome (Aoi.handle request s.aoi)).OBJ = s.aoi.OBJ := by
      rintro w m rfl
      obtain ⟨s', hcallback, -, hresult⟩ := Aoi.aoicallback_spec hinv hwf.1 hwf.2
      unfold Aoi.handle
      dsimp only
      rw [hcallback]
      cases hresult with
      | ignored _ => rfl
      | sighted _ ow om how hom hs => exact hs.OBJ
    rcases hpair with heq | heq
    . rw [hobj a b heq] at ha hb
      rw [heq] at hnear
      exact hnear oa ob ha hb
    . rw [hobj b a heq] at ha hb
      rw [heq] at hnear
      rw [Point.dist2_comm]
      exact hnear ob oa hb ha

theorem nearCallback_of_visibleNear {s : Scene Agent} (hinv : Aoi.Inv kind s.aoi)
    {request : Aoi.Action UInt32 Agent} (hwf : request.WF kind)
    (h : Aoi.raises (Aoi.handle request s.aoi) = false →
      VisibleNear (Aoi.outcome (Aoi.handle request s.aoi))) : NearCallback s request := by
  cases request with
  | enter order obj => trivial
  | leave order obj => trivial
  | messageUpdate => trivial
  | aoicallback w m =>
    intro ow om how hom
    obtain ⟨s', hcallback, hs⟩ := Aoi.aoicallback_sighted hinv hwf.1 hwf.2 how hom
    unfold Aoi.handle at h
    dsimp only at h
    rw [hcallback] at h
    apply h rfl w m ow om
    . simp only [Aoi.outcome]
      rw [hs.OBJ]
      exact how
    . simp only [Aoi.outcome]
      rw [hs.OBJ]
      exact hom
    . simp only [Aoi.outcome]
      rw [hs.get, if_pos]
      rw [hwf.1]
      exact ⟨rfl, Or.inl ⟨rfl, rfl⟩⟩

variable [DecidableEq Agent]

theorem visibleNear_step {s s' : Scene Agent} {action : Action Agent} (hinv : Inv kind s)
    (h : s.raised = false → VisibleNear s.aoi)
    (hnear : action = .aoiRecv → ∀ request mail, s.mail = request :: mail →
      s.raised = false → NearCallback s request)
    (hstep : Stepped kind s action s') : s'.raised = false → VisibleNear s'.aoi := by
  intro hraised
  cases hstep with
  | idle => exact h hraised
  | post request hrequest => exact h hraised
  | report event caoi cbs hsending hevent hcbs => exact h hraised
  | callbackmessage watcher marker rest hsending => exact h hraised
  | receive request mail hmail hwf =>
    have hraised : s.raised = false ∧ Aoi.raises (Aoi.handle request s.aoi) = false := by
      simpa [Scene.receive] using hraised
    exact (h hraised.1).handle hinv.tables hwf.1 hraised.2 (hnear rfl request mail hmail hraised.1)

theorem visibleNear_iff_nearCallback (kind : UInt32 → Aoi.CharType) (actions : List (Action Agent))
    (hwf : ∀ action ∈ actions, action.WF kind)
    : (∀ past, past <+: actions →
        ∃ s, after past = some s ∧ (s.raised = false → VisibleNear s.aoi))
        ↔
      OnReceive (fun s request => s.raised = false → NearCallback s request) actions := by
  constructor
  . rintro h past action rest heq rfl s request mail hafter hmail hraised
    have hpre : past ++ [.aoiRecv] <+: actions := ⟨rest, by simp [heq]⟩
    obtain ⟨s0, hafter0, hinv⟩ :=
      after_inv hwf ((List.prefix_append past [.aoiRecv]).trans hpre)
    rw [hafter, Option.some.injEq] at hafter0
    subst hafter0
    have hrequest := hinv.head hmail
    have hstep : step s .aoiRecv = some (s.receive request mail) := by
      unfold step
      rw [hmail]
    obtain ⟨s', hafter', hvisible⟩ := h _ hpre
    rw [after_append hafter hstep, Option.some.injEq] at hafter'
    subst hafter'
    apply nearCallback_of_visibleNear hinv.tables hrequest.1
    intro hraises
    apply hvisible
    simp [Scene.receive, hraised, hraises]
  . intro h past hpre
    have hinit : (init : Scene Agent).raised = false → VisibleNear (init : Scene Agent).aoi := by
      intro _ a b oa ob ha
      simp [init, Aoi.State.init] at ha
    obtain ⟨s, hafter, -, hvisible⟩ := after_invariant
      (P := fun s => s.raised = false → VisibleNear s.aoi) hinit
      (fun s action s' _ hinv hP hC hstep => visibleNear_step hinv hP hC hstep) hwf h hpre
    exact ⟨s, hafter, hvisible⟩

def sampleKind (id : UInt32) : Aoi.CharType :=
  if id = 3 then .monster else .player

def sampleObj (id : UInt32) (x : ℚ) : Aoi.Obj UInt32 Nat where
  tempid := id
  agent := id.toNat
  type := sampleKind id
  mode := Aoi.modeOf (sampleKind id)
  pos := ⟨x, 0, 0⟩

def sampleEnter (id : UInt32) (x : ℚ) : Action Nat :=
  .enter (PairsOrder.inserted UInt32) (sampleObj id x)

theorem sampleEnter_wf {id : UInt32} (h : ValidId id) (x : ℚ)
    : (sampleEnter id x).WF sampleKind :=
  ⟨⟨rfl, rfl⟩, h⟩

def staleCallback : List (Action Nat) :=
  [sampleEnter 1 0, sampleEnter 2 0, .aoiRecv, .aoiRecv, .tick, .aoiRecv, sampleEnter 1 10000,
    .caoiRecv, .caoiRecv, .caoiRecv, .caoiSend, .aoiRecv, .aoiRecv]

theorem staleCallback_wf : ∀ action ∈ staleCallback, action.WF sampleKind := by
  have hvalid : ValidId 1 ∧ ValidId 2 := by
    unfold ValidId
    decide
  simp [staleCallback, sampleEnter_wf hvalid.1, sampleEnter_wf hvalid.2]

theorem visibleNear_iff_nearCallback_staleCallback
    : (∀ action ∈ staleCallback, action.WF sampleKind)
        ∧ ((∀ past, past <+: staleCallback →
            ∃ s, after past = some s ∧ (s.raised = false → VisibleNear s.aoi))
          ↔
        OnReceive (fun s request => s.raised = false → NearCallback s request) staleCallback) :=
  ⟨staleCallback_wf, visibleNear_iff_nearCallback sampleKind staleCallback staleCallback_wf⟩

theorem staleCallback_not_visibleNear
    : ¬∀ (actions : List (Action Nat)), (∀ action ∈ actions, action.WF sampleKind) →
        ∀ past, past <+: actions →
          ∃ s, after past = some s ∧ (s.raised = false → VisibleNear s.aoi) := by
  intro h
  obtain ⟨s, hafter, hvisible⟩ :=
    h staleCallback staleCallback_wf staleCallback (List.prefix_refl staleCallback)
  have hstate : (after staleCallback).map
      (fun s => (s.raised, s.aoi.OBJ 1, s.aoi.OBJ 2, s.aoi.getView .player 1 2))
      = some (false, some (sampleObj 1 10000), some (sampleObj 2 0), some true) := by
    decide +kernel
  rw [hafter] at hstate
  simp only [Option.map_some, Option.some.injEq, Prod.mk.injEq] at hstate
  obtain ⟨hraised, h1, h2, hget⟩ := hstate
  have hnear := hvisible hraised 1 2 _ _ h1 h2 hget
  revert hnear
  decide +kernel

end Scene
