import SkynetAoi.Gate.Utils
import SkynetAoi.Lib.History

/-!
This module contains the loop of `gamegate.lua` that hands the frames of the game server to the
client. A `receive` of the socket returns as many bytes as it was asked for. When it times out it
returns the bytes that are there, which are gone from the socket then, and the loop drops them.
-/

namespace Gate

-- `len` is there while the loop waits for a body, otherwise it waits for the two bytes of a length.
structure Recv1 where
  isconn : Bool
  buffer : Bytes
  len : Option Nat
  sent : List Bytes
  deriving DecidableEq, Repr

namespace Recv1

def init : Recv1 where
  isconn := true
  buffer := []
  len := none
  sent := []

def receive (s : Recv1) : Recv1 :=
  match s.len with
  | none =>
    if 2 ≤ s.buffer.length then
      { s with buffer := s.buffer.drop 2, len := some (bytesToInt (s.buffer.take 2)) }
    else
      s
  | some len =>
    if len ≤ s.buffer.length then
      { s with
        buffer := s.buffer.drop len
        len := none
        sent := s.sent ++ [s.buffer.take len]
      }
    else
      s

def close (s : Recv1) : Recv1 :=
  { s with isconn := false }

-- Only while there are too few bytes, a timeout in a body closes the connection.
def timeout (s : Recv1) : Recv1 :=
  match s.len with
  | none => if s.buffer.length < 2 then { s with buffer := [] } else s
  | some len => if s.buffer.length < len then s.close else s

inductive Action where
  | arrive (bytes : Bytes)
  | receive
  | timeout
  | close
  deriving DecidableEq, Repr

def step (s : Recv1) (action : Action) : Recv1 :=
  if s.isconn then
    match action with
    | .arrive bytes => { s with buffer := s.buffer ++ bytes }
    | .receive => s.receive
    | .timeout => s.timeout
    | .close => s.close
  else
    s

def after (actions : List Action) : Recv1 :=
  actions.foldl step init

def Action.bytes (action : Action) : Bytes :=
  match action with
  | .arrive bytes => bytes
  | _ => []

def arrived (actions : List Action) : Bytes :=
  actions.flatMap Action.bytes

/--
The loop does not time out with one of the two bytes of a length.
-/
def Whole (s : Recv1) (action : Action) : Prop :=
  action = .timeout → s.len = none → s.buffer.length ≠ 1

structure InStep (payloads : List Payload) (future : Bytes) (s : Recv1) (rest : List Payload) : Prop
    where
  sent : ∃ done, payloads = done ++ rest ∧ s.sent = done.map Payload.body
  header : s.isconn = true → s.len = none → s.buffer ++ future = Frame.encode rest
  body : ∀ len, s.isconn = true → s.len = some len →
    ∃ p more, rest = p :: more ∧ len = p.body.length
      ∧ s.buffer ++ future = p.body ++ Frame.encode more

namespace InStep

variable {payloads rest : List Payload} {future : Bytes} {s : Recv1}

theorem arrive {bytes : Bytes} (h : InStep payloads (bytes ++ future) s rest)
    : InStep payloads future { s with buffer := s.buffer ++ bytes } rest where
  sent := h.sent
  header := by
    intro hisconn hlen
    rw [List.append_assoc]
    exact h.header hisconn hlen
  body := by
    intro len hisconn hlen
    rw [List.append_assoc]
    exact h.body len hisconn hlen

theorem receive (h : InStep payloads future s rest) (hisconn : s.isconn = true)
    : ∃ rest', InStep payloads future s.receive rest' := by
  unfold Recv1.receive
  cases hlen : s.len with
  | none =>
    dsimp only
    split
    . next hlength =>
      have hheader := h.header hisconn hlen
      match hbuffer : s.buffer, hlength with
      | hi :: lo :: buffer, _ =>
        rw [hbuffer] at hheader
        obtain ⟨p, more, rfl, hsize, hbytes⟩ := Frame.encode_eq_cons hheader.symm
        refine ⟨p :: more, h.sent, by simp, ?_⟩
        rintro len _ ⟨⟩
        refine ⟨p, more, rfl, ?_, ?_⟩
        . simpa using hsize
        . simpa using hbytes
    . exact ⟨rest, h⟩
  | some len =>
    dsimp only
    split
    . next hlength =>
      obtain ⟨p, more, rfl, rfl, hbytes⟩ := h.body len hisconn hlen
      obtain ⟨done, hdone, hsent⟩ := h.sent
      have htake : s.buffer.take p.body.length = p.body := by
        have := congrArg (List.take p.body.length) hbytes
        rwa [List.take_append_of_le_length hlength, List.take_left] at this
      refine ⟨more, ⟨done ++ [p], by simp [hdone], by simp [hsent, htake]⟩, ?_, by simp⟩
      intro _ _
      have := congrArg (List.drop p.body.length) hbytes
      rwa [List.drop_append_of_le_length hlength, List.drop_left] at this
    . exact ⟨rest, h⟩

theorem close (h : InStep payloads future s rest) : InStep payloads future s.close rest where
  sent := h.sent
  header := by simp [Recv1.close]
  body := by simp [Recv1.close]

theorem timeout (h : InStep payloads future s rest) (hwhole : s.len = none → s.buffer.length ≠ 1)
    : InStep payloads future s.timeout rest := by
  unfold Recv1.timeout
  cases hlen : s.len with
  | none =>
    dsimp only
    split
    . next hlength =>
      have hnil : s.buffer = [] := by
        apply List.eq_nil_of_length_eq_zero
        have := hwhole hlen
        omega
      rw [← hnil, ← hlen]
      exact h
    . exact h
  | some len =>
    dsimp only
    split
    . exact h.close
    . exact h

theorem step {action : Action} (h : InStep payloads (action.bytes ++ future) s rest)
    (hwhole : Whole s action) : ∃ rest', InStep payloads future (s.step action) rest' := by
  unfold Recv1.step
  split
  . next hisconn =>
    cases action with
    | arrive bytes => exact ⟨rest, h.arrive⟩
    | receive => exact h.receive hisconn
    | timeout => exact ⟨rest, h.timeout (hwhole rfl)⟩
    | close => exact ⟨rest, h.close⟩
  . next hisconn => exact ⟨rest, h.sent, by simp [hisconn], by simp [hisconn]⟩

end InStep

theorem after_inStep {payloads : List Payload} {actions : List Action}
    (hwhole : Throughout (fun past action => Whole (after past) action) actions)
    : ∀ future, arrived actions ++ future = Frame.encode payloads →
      ∃ rest, InStep payloads future (after actions) rest := by
  refine Throughout.induction (Q := fun actions => ∀ future, arrived actions ++ future
    = Frame.encode payloads → ∃ rest, InStep payloads future (after actions) rest) ?_ ?_ hwhole
  . intro future hfuture
    refine ⟨payloads, ⟨[], by simp, rfl⟩, ?_, by simp [after, init]⟩
    intro _ _
    exact hfuture
  . intro past action ih hwhole future hfuture
    have harrived : arrived past ++ (action.bytes ++ future) = Frame.encode payloads := by
      rw [← hfuture]
      simp [arrived]
    obtain ⟨rest, h⟩ := ih _ harrived
    have := h.step hwhole
    unfold after at this ⊢
    rw [List.foldl_append]
    exact this

theorem sent_prefix_of_whole (payloads : List Payload) (actions : List Action)
    (harrived : arrived actions <+: Frame.encode payloads)
    (hwhole : Throughout (fun past action => Whole (after past) action) actions)
    : (after actions).sent <+: payloads.map Payload.body := by
  obtain ⟨future, hfuture⟩ := harrived
  obtain ⟨rest, h⟩ := after_inStep hwhole future hfuture
  obtain ⟨done, hdone, hsent⟩ := h.sent
  rw [hsent, hdone, List.map_append]
  exact List.prefix_append _ _

def samplePayload : Payload where
  body := List.replicate 256 1
  length_lt := by
    rw [List.length_replicate]
    decide

def late : List Action :=
  [.arrive [1], .timeout, .arrive (0 :: List.replicate 256 1), .receive, .receive]

def inTime : List Action :=
  [.timeout, .arrive [1], .arrive (0 :: List.replicate 255 1), .receive, .arrive [1], .receive,
    .timeout]

theorem sent_prefix_of_whole_inTime
    : arrived inTime <+: Frame.encode [samplePayload]
        ∧ (after inTime).sent <+: [samplePayload].map Payload.body := by
  have harrived : arrived inTime <+: Frame.encode [samplePayload] := by decide +kernel
  refine ⟨harrived, sent_prefix_of_whole _ _ harrived ?_⟩
  apply Throughout.of_take
  have : ∀ n < inTime.length, ∀ action ∈ inTime[n]?,
      action = .timeout → (after (inTime.take n)).len = none →
        (after (inTime.take n)).buffer.length ≠ 1 := by
    decide +kernel
  exact this

theorem late_not_forwarded
    : arrived late <+: Frame.encode [samplePayload]
        ∧ ¬(after late).sent <+: [samplePayload].map Payload.body := by
  decide +kernel

end Recv1

end Gate
