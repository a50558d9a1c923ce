import SkynetAoi.Ctrl.Decode
import SkynetAoi.Ctrl.Dispatch
import SkynetAoi.Scene.Invariant

/-!
This module contains that the two services of a scene read what the other one has written: in every
run the texts between them stand for the ids and the events that the scene hands over instead.
-/

namespace Scene

variable {Agent : Type} {kind : UInt32 → Aoi.CharType}

theorem validId_of_track {texts : List (Aoi.Text UInt32)} (h : ∀ text ∈ texts, TextWF kind text)
    {id : UInt32} {t : Caoi.Track} (ht : Caoi.track (texts.map event) id = some t)
    : ValidId id := by
  obtain ⟨mode, pos, hmem, -⟩ := Caoi.track_origin ht
  exact (textWF_of_event h hmem).1

theorem Inv.validId_of_reportable {s : Scene Agent} (h : Inv kind s) {w m : UInt32}
    (hreportable : Caoi.Reportable s.history w m) : ValidId w ∧ ValidId m := by
  obtain ⟨tw, tm, hpair, -⟩ := hreportable
  have hwatcher := hpair.watcher_track
  have hmarker := hpair.marker_track
  rw [history_eq] at hwatcher hmarker
  have htexts : ∀ text ∈ s.aoi.texts.take s.handled, TextWF kind text := by
    intro text htext
    exact h.texts text (List.mem_of_mem_take htext)
  exact ⟨validId_of_track htexts hwatcher, validId_of_track htexts hmarker⟩

def SendingValid (s : Scene Agent) : Prop :=
  ∀ pair ∈ s.sending, ValidId pair.1 ∧ ValidId pair.2

theorem SendingValid.stepped [DecidableEq Agent] {s s' : Scene Agent} {action : Action Agent}
    (hinv : Inv kind s) (h : s.SendingValid) (hstepped : Stepped kind s action s')
    : s'.SendingValid := by
  cases hstepped with
  | idle => exact h
  | post request => exact h
  | receive request mail hmail => exact h
  | report event caoi cbs hsending hevent hcbs =>
    rintro ⟨w, m⟩ hmem
    exact hinv.validId_of_reportable ((hcbs w m).mp hmem).2
  | callbackmessage watcher marker rest hsending =>
    intro pair hmem
    apply h
    rw [hsending]
    exact List.mem_cons_of_mem _ hmem

/--
The position of an enter as the `caoi` service gets it, a `float` has every whole number up to the
bound.
-/
structure Fits (pos : Point) : Prop where
  x : |⌊pos.x / 10⌋| ≤ 2 ^ 24
  y : |⌊pos.y / 10⌋| ≤ 2 ^ 24
  z : |⌊pos.z / 10⌋| ≤ 2 ^ 24

def RequestFits (request : Aoi.Action UInt32 Agent) : Prop :=
  match request with
  | .enter _ obj => Fits obj.pos
  | .leave _ _ => True
  | .aoicallback _ _ => True
  | .messageUpdate => True

def Action.Fits (action : Action Agent) : Prop := ∀ request ∈ action.request, RequestFits request

end Scene

namespace Ctrl

variable {Agent : Type} [DecidableEq Agent] {kind : UInt32 → Aoi.CharType}
  {actions : List (Scene.Action Agent)}

theorem sending_survives (hwf : ∀ action ∈ actions, action.WF kind)
    : ∃ s, Scene.after actions = some s ∧ ∀ pair ∈ s.sending, Survives pair.1 pair.2 := by
  obtain ⟨s, hafter, -, hvalid⟩ := Scene.after_invariant (P := Scene.SendingValid)
    (C := fun _ _ => True)
    (by
      intro pair hmem
      simp [Scene.init] at hmem)
    (by
      intro s action s' _ hinv hvalid _ hstepped
      exact hvalid.stepped hinv hstepped)
    hwf
    (by
      intro past action rest heq
      intros
      trivial)
    (List.prefix_refl actions)
  exact ⟨s, hafter, fun pair hmem => survives_of_valid (hvalid pair hmem).1 (hvalid pair hmem).2⟩

theorem isGraph_of_textWF {id : UInt32} {mode : List Char} {pos : Point}
    (h : Scene.TextWF kind (.update id mode pos)) : ∀ c ∈ mode, IsGraph c := by
  have hletters : ∀ c ∈ ['w', 'm', 'd'], IsGraph c := by
    simp [IsGraph]
  intro c hc
  apply hletters
  rcases h.2 with rfl | rfl
  . cases hkind : kind id with
    | player =>
      rw [hkind] at hc
      exact List.mem_append_left ['d'] hc
    | monster =>
      rw [hkind] at hc
      exact List.mem_cons_of_mem _ (List.mem_append_left ['d'] hc)
  . exact List.mem_append_right ['w', 'm'] hc

/--
What `_ctrl` makes of the text is the event. `CMD.leave` writes the coordinates as Lua does, and they
may come to any position: `aoi_update` does not look at it.
-/
def Reads (text : Aoi.Text UInt32) : Prop :=
  match text with
  | .update id mode pos =>
    (∃ x y z : Int, pos = ⟨x, y, z⟩
      ∧ (ctrl (enterText id.toNat (mode.map Char.toUInt8) x y z)).bind Call.event
        = some (Scene.event text))
    ∨ (mode = ['d']
      ∧ (∀ x y z, Clean x → Clean y → Clean z →
        ∃ p, ctrl (updateText id.toNat (mode.map Char.toUInt8) x y z)
          = some (.update id (mode.map Char.toUInt8) p))
      ∧ ∀ space p, Caoi.step space (.update id mode p) = Caoi.step space (Scene.event text))
  | .message => (ctrl tick).bind Call.event = some (Scene.event text)

theorem reads_enter {id : UInt32} {mode : List Char} {pos : Point} (hmode : ∀ c ∈ mode, IsGraph c)
    (h : Scene.Fits pos) : Reads (.update id mode (Aoi.scaled pos)) :=
  .inl ⟨⌊pos.x / 10⌋, ⌊pos.y / 10⌋, ⌊pos.z / 10⌋, rfl,
    ctrl_enterText_event id mode pos hmode h.x h.y h.z⟩

theorem reads_leave (id : UInt32) (pos : Point) : Reads (.update id ['d'] pos) := by
  refine .inr ⟨rfl, ?_, ?_⟩
  . intro x y z hx hy hz
    exact ⟨_, ctrl_updateText id ⟨by decide, by decide⟩ hx hy hz⟩
  . intro space p
    unfold Caoi.step Scene.event Caoi.aoiUpdate
    rfl

def ReadsAll (s : Scene Agent) : Prop :=
  (∀ request ∈ s.mail, Scene.RequestFits request) ∧ ∀ text ∈ s.aoi.texts, Reads text

omit [DecidableEq Agent] in
theorem reads_of_request {request : Aoi.Action UInt32 Agent} (hwf : Scene.RequestWF kind request)
    (hfits : Scene.RequestFits request) {text : Aoi.Text UInt32}
    (h : Scene.requestText request = some text) : Reads text := by
  cases request with
  | enter order obj =>
    cases h
    exact reads_enter (isGraph_of_textWF (Scene.textWF_of_request hwf rfl)) hfits
  | leave order obj =>
    cases h
    exact reads_leave obj.tempid obj.pos
  | aoicallback w m => cases h
  | messageUpdate =>
    cases h
    exact ctrl_tick_event

theorem texts_read (hwf : ∀ action ∈ actions, action.WF kind) (hfits : ∀ action ∈ actions, action.Fits)
    : ∃ s, Scene.after actions = some s ∧ ∀ text ∈ s.aoi.texts, Reads text := by
  obtain ⟨s, hafter, -, -, hreads⟩ := Scene.after_invariant (P := ReadsAll) (C := fun _ _ => True)
    (by simp [ReadsAll, Scene.init, Aoi.State.init])
    (by
      intro s action s' hmem hinv h _ hstepped
      cases hstepped with
      | idle => exact h
      | post _ request hrequest =>
        refine ⟨?_, h.2⟩
        intro request' hmem'
        unfold Scene.post at hmem'
        rw [List.mem_append, List.mem_singleton] at hmem'
        rcases hmem' with hmem' | rfl
        . exact h.1 request' hmem'
        . exact hfits action hmem _ hrequest
      | receive request mail hmail hrequest =>
        obtain ⟨new, htexts, hnew⟩ := Scene.handle_requestText hinv.tables hrequest.1
        constructor
        . intro request' hmem'
          apply h.1
          rw [hmail]
          exact List.mem_cons_of_mem request hmem'
        intro text hmem'
        unfold Scene.receive at hmem'
        dsimp only at hmem'
        rw [htexts, List.mem_append] at hmem'
        rcases hmem' with hmem' | hmem'
        . exact h.2 text hmem'
        . exact reads_of_request hrequest (h.1 request (by simp [hmail])) (hnew text hmem')
      | report => exact h
      | callbackmessage watcher marker rest hsending =>
        refine ⟨?_, h.2⟩
        intro request' hmem'
        unfold Scene.callbackmessage at hmem'
        rw [List.mem_append, List.mem_singleton] at hmem'
        rcases hmem' with hmem' | rfl
        . exact h.1 request' hmem'
        . trivial)
    hwf
    (by
      intro past action rest heq
      intros
      trivial)
    (List.prefix_refl actions)
  exact ⟨s, hafter, hreads⟩

end Ctrl
