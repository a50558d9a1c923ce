import SkynetAoi.Aoi.Integrity
import SkynetAoi.Caoi.Correct

/-!
This module contains the map service and the `caoi` service of one scene with their mailboxes. The
agents and the timer put their requests into the mailbox of the map service at any time, also in
between two callbacks that the `caoi` service sends there for the same `aoi_message`.
-/

-- The last two fields are kept for the specification only: whether a handler has raised and, for
-- whoever is on the map with the agent that it came with, that agent and the number of notifications
-- that were sent before it came.
structure Scene (Agent : Type) where
  aoi : Aoi.State UInt32 Agent
  mail : List (Aoi.Action UInt32 Agent)
  caoi : Caoi.AoiSpace
  handled : Nat
  sending : List (UInt32 × UInt32)
  raised : Bool
  arrival : UInt32 → Option (Agent × Nat)

namespace Scene

variable {Agent : Type}

inductive Action (Agent : Type) where
  | enter (order : PairsOrder UInt32) (obj : Aoi.Obj UInt32 Agent)
  | leave (order : PairsOrder UInt32) (obj : Aoi.Obj UInt32 Agent)
  | tick
  | aoiRecv
  | caoiRecv
  | caoiSend

def Action.request (action : Action Agent) : Option (Aoi.Action UInt32 Agent) :=
  match action with
  | .enter order obj => some (.enter order obj)
  | .leave order obj => some (.leave order obj)
  | .tick => some .messageUpdate
  | .aoiRecv => none
  | .caoiRecv => none
  | .caoiSend => none

def init : Scene Agent where
  aoi := .init
  mail := []
  caoi := Caoi.caoiCreate
  handled := 0
  sending := []
  raised := false
  arrival := fun _ => none

-- What `_ctrl` makes of a text.
def event (text : Aoi.Text UInt32) : Caoi.Event :=
  match text with
  | .update id mode pos => .update id mode pos
  | .message => .message

def events (s : Scene Agent) : List Caoi.Event := s.aoi.texts.map event

def history (s : Scene Agent) : List Caoi.Event := s.events.take s.handled

def post (s : Scene Agent) (request : Aoi.Action UInt32 Agent) : Scene Agent :=
  { s with mail := s.mail ++ [request] }

variable [DecidableEq Agent]

def arrive (s : Scene Agent) (request : Aoi.Action UInt32 Agent)
    : UInt32 → Option (Agent × Nat) :=
  match request with
  | .enter _ obj =>
    match s.aoi.OBJ obj.tempid with
    | none => Function.update s.arrival obj.tempid (some (obj.agent, s.aoi.sent.length))
    | some _ =>
      Function.update s.arrival obj.tempid
        ((s.arrival obj.tempid).filter fun since => since.1 = obj.agent)
  | .leave _ obj => Function.update s.arrival obj.tempid none
  | .aoicallback _ _ => s.arrival
  | .messageUpdate => s.arrival

def receive (s : Scene Agent) (request : Aoi.Action UInt32 Agent)
    (mail : List (Aoi.Action UInt32 Agent)) : Scene Agent :=
  let result := Aoi.handle request s.aoi
  { s with
    aoi := Aoi.outcome result
    mail := mail
    raised := s.raised || Aoi.raises result
    arrival := s.arrive request
  }

def report (s : Scene Agent) (caoi : Caoi.AoiSpace) (cbs : List (UInt32 × UInt32)) : Scene Agent :=
  { s with
    caoi := caoi
    handled := s.handled + 1
    sending := cbs
  }

def callbackmessage (s : Scene Agent) (watcher marker : UInt32) (rest : List (UInt32 × UInt32))
    : Scene Agent :=
  { s with
    mail := s.mail ++ [.aoicallback watcher marker]
    sending := rest
  }

def step (s : Scene Agent) (action : Action Agent) : Option (Scene Agent) :=
  match action with
  | .enter order obj => some (s.post (.enter order obj))
  | .leave order obj => some (s.post (.leave order obj))
  | .tick => some (s.post .messageUpdate)
  | .aoiRecv =>
    match s.mail with
    | [] => some s
    | request :: mail => some (s.receive request mail)
  | .caoiRecv =>
    match s.sending, s.events[s.handled]? with
    | [], some event =>
      match Caoi.step s.caoi event with
      | none => none
      | some (caoi, cbs) => some (s.report caoi cbs)
    | _, _ => some s
  | .caoiSend =>
    match s.sending with
    | [] => some s
    | (watcher, marker) :: rest => some (s.callbackmessage watcher marker rest)

def after (actions : List (Action Agent)) : Option (Scene Agent) :=
  run step init actions

omit [DecidableEq Agent]

def ValidId (id : UInt32) : Prop :=
  0 < id ∧ id < 0x80000000

theorem ValidId.ne_invalidId {id : UInt32} (h : ValidId id) : id ≠ Caoi.invalidId := by
  rintro rfl
  have := h.2
  revert this
  decide

def Action.WF (kind : UInt32 → Aoi.CharType) (action : Action Agent) : Prop :=
  match action with
  | .enter _ obj => obj.WF kind ∧ ValidId obj.tempid
  | .leave _ obj => obj.WF kind ∧ ValidId obj.tempid
  | .tick => True
  | .aoiRecv => True
  | .caoiRecv => True
  | .caoiSend => True

@[simp]
theorem Action.wf_tick (kind : UInt32 → Aoi.CharType) : (tick : Action Agent).WF kind := trivial

@[simp]
theorem Action.wf_aoiRecv (kind : UInt32 → Aoi.CharType) : (aoiRecv : Action Agent).WF kind :=
  trivial

@[simp]
theorem Action.wf_caoiRecv (kind : UInt32 → Aoi.CharType) : (caoiRecv : Action Agent).WF kind :=
  trivial

@[simp]
theorem Action.wf_caoiSend (kind : UInt32 → Aoi.CharType) : (caoiSend : Action Agent).WF kind :=
  trivial

def RequestWF (kind : UInt32 → Aoi.CharType) (request : Aoi.Action UInt32 Agent) : Prop :=
  request.WF kind
    ∧ match request with
      | .enter _ obj => ValidId obj.tempid
      | .leave _ obj => ValidId obj.tempid
      | .aoicallback _ _ => True
      | .messageUpdate => True

def TextWF (kind : UInt32 → Aoi.CharType) (text : Aoi.Text UInt32) : Prop :=
  match text with
  | .update id mode _ => ValidId id ∧ (mode = Aoi.modeOf (kind id) ∨ mode = ['d'])
  | .message => True

structure Inv (kind : UInt32 → Aoi.CharType) (s : Scene Agent) : Prop where
  tables : Aoi.Inv kind s.aoi
  mail : ∀ request ∈ s.mail, RequestWF kind request
  sending : ∀ pair ∈ s.sending, kind pair.1 = .player ∧ pair.1 ≠ pair.2
  texts : ∀ text ∈ s.aoi.texts, TextWF kind text
  handled : s.handled ≤ s.aoi.texts.length
  engine : Caoi.Sound s.history s.caoi

end Scene
