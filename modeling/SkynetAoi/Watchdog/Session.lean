import SkynetAoi.Watchdog.Lemmas

/-!
This module contains how many sessions and agents a user has. `SOCKET.data` looks for neither, so
that it takes the right order of the requests to have one of each.
-/

namespace Watchdog

variable {Fd : Type} [DecidableEq Fd]

namespace State

def SessionOf (s : State Fd) (fd : Fd) (uid : Bytes) : Prop :=
  ∃ v, s.sessionMap.lookup fd = some v ∧ v.userid = uid

def OneSession (s : State Fd) : Prop :=
  ∀ fd fd' uid, s.SessionOf fd uid → s.SessionOf fd' uid → fd = fd'

def OneAgent (s : State Fd) : Prop :=
  ∀ a a' uid, s.Live a uid → s.Live a' uid → a = a'

end State

/--
A login of a user is accepted only where no other client has a session of that user, and an agent is
started only where every agent started for that user was told to disconnect.
-/
def Alone (config : Config) (s : State Fd) (action : Action Fd) : Prop :=
  match action with
  | .socketData fd msg =>
    ∀ uid subid, Verdict.ofMsg config s msg = .login uid subid →
      ∀ fd', s.SessionOf fd' uid → fd' = fd
  | .resume n .value _ =>
    ∀ fd uid, s.threads[n]? = some (.newservice fd uid) → ∀ a, ¬s.Live a uid
  | _ => True

section

variable {config : Config} {s s' : State Fd} {action : Action Fd}

theorem sessionOf_login {fd fd' : Fd} {uid uid' : Bytes} {subid : Value}
    : (State.call { s with sessionMap := s.sessionMap.insert fd ⟨uid, subid⟩ } .newservice
        (.newservice fd uid)).SessionOf fd' uid'
        ↔
      if fd' = fd then uid = uid' else s.SessionOf fd' uid' := by
  unfold State.SessionOf
  rw [State.call_sessionMap]
  by_cases hfd : fd' = fd
  . subst hfd
    simp
  . simp [hfd]

theorem live_start {n : Nat} {fd : Fd} {uid uid' : Bytes} {a : Nat} (hfresh : s.Fresh)
    : (State.call
        { s with
          threads := s.threads.eraseIdx n
          launched := s.launched + 1
          agent := Function.update s.agent fd (some s.launched)
        }
        (.start s.launched fd uid) .last).Live a uid'
        ↔
      s.Live a uid' ∨ (a = s.launched ∧ uid = uid') := by
  have hnew : .disconnect s.launched ∉ s.sent := by
    intro h
    exact lt_irrefl _ (hfresh _ (.disconnected h))
  simp only [State.Live, State.Started, State.call_sent, List.mem_append, List.mem_singleton,
    reduceCtorEq, or_false, Msg.start.injEq]
  constructor
  . rintro ⟨⟨fd', hstart | ⟨rfl, rfl, rfl⟩⟩, hdisconnect⟩
    . exact .inl ⟨⟨fd', hstart⟩, hdisconnect⟩
    . exact .inr ⟨rfl, rfl⟩
  . rintro (⟨⟨fd', hstart⟩, hdisconnect⟩ | ⟨rfl, rfl⟩)
    . exact ⟨⟨fd', .inl hstart⟩, hdisconnect⟩
    . exact ⟨⟨fd, .inr ⟨rfl, rfl, rfl⟩⟩, hnew⟩

theorem Quiet.sessionOf (h : Quiet s s') {fd : Fd} {uid : Bytes} (hsession : s'.SessionOf fd uid)
    : s.SessionOf fd uid := by
  obtain ⟨v, hv, huid⟩ := hsession
  exact ⟨v, h.sessions fd v hv, huid⟩

theorem oneSession_step (h : Stepped config s action s') (hone : s.OneSession)
    (halone : Alone config s action) : s'.OneSession := by
  intro fd1 fd2 uid' h1 h2
  cases h with
  | quiet _ _ h => exact hone fd1 fd2 uid' (h.sessionOf h1) (h.sessionOf h2)
  | login fd msg uid subid hverdict =>
    have hother := halone uid subid hverdict
    rw [sessionOf_login] at h1 h2
    by_cases hfd1 : fd1 = fd
    . by_cases hfd2 : fd2 = fd
      . rw [hfd1, hfd2]
      . rw [if_pos hfd1] at h1
        rw [if_neg hfd2] at h2
        subst h1
        exact absurd (hother fd2 h2) hfd2
    . rw [if_neg hfd1] at h1
      by_cases hfd2 : fd2 = fd
      . rw [if_pos hfd2] at h2
        subst h2
        exact absurd (hother fd1 h1) hfd1
      . rw [if_neg hfd2] at h2
        exact hone fd1 fd2 uid' h1 h2
  | start n order fd uid h => exact hone fd1 fd2 uid' h1 h2

theorem oneAgent_step (h : Stepped config s action s') (hfresh : s.Fresh) (hone : s.OneAgent)
    (halone : Alone config s action) : s'.OneAgent := by
  intro a1 a2 uid' h1 h2
  cases h with
  | quiet _ _ h => exact hone a1 a2 uid' (h.live h1) (h.live h2)
  | login fd msg uid subid hverdict =>
    apply hone a1 a2 uid'
    . simpa [State.Live, State.Started] using h1
    . simpa [State.Live, State.Started] using h2
  | start n order fd uid h =>
    have hother := halone fd uid h
    rw [live_start hfresh] at h1 h2
    rcases h1 with h1 | ⟨rfl, rfl⟩
    . rcases h2 with h2 | ⟨rfl, rfl⟩
      . exact hone a1 a2 uid' h1 h2
      . exact absurd h1 (hother a1)
    . rcases h2 with h2 | ⟨rfl, -⟩
      . exact absurd h2 (hother a2)
      . rfl

theorem alone_of_step (hfresh : s.Fresh) (hsession : (step config s action).OneSession)
    (hagent : (step config s action).OneAgent) : Alone config s action := by
  cases action with
  | socketData fd msg =>
    intro uid subid hverdict fd' hfd'
    by_contra hne
    simp only [step, socketData, hverdict] at hsession
    apply hne
    apply hsession fd' fd uid
    . rw [sessionOf_login, if_neg hne]
      exact hfd'
    . rw [sessionOf_login, if_pos rfl]
  | resume n reply order =>
    cases reply with
    | value =>
      intro fd uid hthread a hlive
      simp only [step, resume, hthread, Thread.resume] at hagent
      have heq : a = s.launched := by
        apply hagent a s.launched uid
        . exact (live_start hfresh).mpr (.inl hlive)
        . exact (live_start hfresh).mpr (.inr ⟨rfl, rfl⟩)
      have hlt := hfresh a hlive.1.known
      omega
    | empty => trivial
    | error => trivial
  | login uid secret => trivial
  | kick uid lastSubid => trivial
  | close fd => trivial
  | socketOpen fd => trivial
  | socketClose fd => trivial
  | socketError fd => trivial

end

theorem oneSession_iff_alone (config : Config) (actions : List (Action Fd))
    : (∀ past, past <+: actions →
        (after config past).OneSession ∧ (after config past).OneAgent)
        ↔
      Throughout (fun past action => Alone config (after config past) action) actions := by
  have hinit : (State.init : State Fd).OneSession ∧ (State.init : State Fd).OneAgent := by
    constructor
    . rintro fd fd' uid ⟨v, hv, -⟩
      simp [State.init] at hv
    . rintro a a' uid ⟨⟨fd, h⟩, -⟩
      simp [State.init] at h
  unfold after
  apply Throughout.foldl_iff (I := State.Fresh) (Q := fun s => s.OneSession ∧ s.OneAgent)
    (C := Alone config) (W := fun _ => True) hinit _ (fun past _ => after_fresh config past) (by simp)
  intro s action hfresh hone _
  have hstep := step_spec config s action
  constructor
  . intro h
    exact alone_of_step hfresh h.1 h.2
  . intro h
    exact ⟨oneSession_step hstep hone.1 h, oneAgent_step hstep hfresh hone.2 h⟩

/--
A login of a user is accepted only where the user is gone: without a session elsewhere, an agent on
its way or one that was not told to disconnect.
-/
def Vacant (config : Config) (s : State Fd) (action : Action Fd) : Prop :=
  match action with
  | .socketData fd msg =>
    ∀ uid subid, Verdict.ofMsg config s msg = .login uid subid →
      (∀ fd', s.SessionOf fd' uid → fd' = fd)
        ∧ (∀ thread ∈ s.threads, thread.launches uid = false)
        ∧ ∀ a, ¬s.Live a uid
  | _ => True

structure Reserved (s : State Fd) : Prop where
  one : ∀ uid, (s.threads.filter (·.launches uid)).length ≤ 1
  idle : ∀ uid thread, thread ∈ s.threads → thread.launches uid = true → ∀ a, ¬s.Live a uid

namespace Reserved

variable {config : Config} {s s' : State Fd} {action : Action Fd}

theorem quiet (h : Reserved s) (hquiet : Quiet s s') : Reserved s' where
  one := fun uid => le_trans (hquiet.launches uid).length_le (h.one uid)
  idle := by
    intro uid thread hthread hlaunches a hlive
    have hmem : thread ∈ s'.threads.filter (·.launches uid) := by simp [hthread, hlaunches]
    have := (hquiet.launches uid).subset hmem
    rw [List.mem_filter] at this
    exact h.idle uid thread this.1 this.2 a (hquiet.live hlive)

theorem step (h : Reserved s) (hfresh : s.Fresh) (hvacant : Vacant config s action)
    (hstep : Stepped config s action s') : Reserved s' := by
  cases hstep with
  | quiet _ _ hquiet => exact h.quiet hquiet
  | login fd msg uid subid hverdict =>
    obtain ⟨-, hthreads, hlive⟩ := hvacant uid subid hverdict
    constructor
    . intro uid'
      have hone := h.one uid'
      rw [State.call_threads, List.filter_append, List.length_append]
      by_cases huid : uid = uid'
      . subst huid
        rw [List.filter_eq_nil_iff.mpr (by
          intro thread hthread
          simp [hthreads thread hthread])]
        simp [Thread.launches]
      . simpa [Thread.launches, huid] using hone
    . intro uid' thread hthread hlaunches a hlive'
      have hlive' : s.Live a uid' := by simpa [State.Live, State.Started] using hlive'
      rw [State.call_threads, List.mem_append, List.mem_singleton] at hthread
      rcases hthread with hthread | rfl
      . exact h.idle uid' thread hthread hlaunches a hlive'
      . have huid : uid = uid' := by simpa [Thread.launches] using hlaunches
        subst huid
        exact hlive a hlive'
  | start n order fd uid hthread =>
    have hgone := launches_eraseIdx (h.one uid) hthread
    have herase := h.quiet (quiet_eraseIdx s n)
    constructor
    . intro uid'
      simpa [Thread.launches] using herase.one uid'
    . intro uid' thread hthread' hlaunches a hlive
      rw [State.call_threads, List.mem_append, List.mem_singleton] at hthread'
      rcases hthread' with hthread' | rfl
      . rcases (live_start hfresh).mp hlive with hlive | ⟨-, rfl⟩
        . exact herase.idle uid' thread hthread' hlaunches a hlive
        . rw [hgone thread hthread'] at hlaunches
          simp at hlaunches
      . simp [Thread.launches] at hlaunches

theorem alone (h : Reserved s) (hvacant : Vacant config s action) : Alone config s action := by
  cases action with
  | socketData fd msg => exact fun uid subid hverdict => (hvacant uid subid hverdict).1
  | resume n reply order =>
    cases reply with
    | value =>
      intro fd uid hthread
      exact h.idle uid _ (List.mem_of_getElem? hthread) (by simp [Thread.launches])
    | empty => trivial
    | error => trivial
  | _ => trivial

end Reserved

theorem after_reserved {config : Config} {actions : List (Action Fd)}
    (h : Throughout (fun past action => Vacant config (after config past) action) actions)
    : Reserved (after config actions) := by
  have hinit : Reserved (State.init : State Fd) := ⟨by simp [State.init], by simp [State.init]⟩
  unfold after at h ⊢
  apply (Throughout.foldl_invariant (Q := fun s => s.Fresh ∧ Reserved s) (W := fun _ => True)
    ⟨State.fresh_init, hinit⟩ _ (by simp) h).2
  rintro s action ⟨hfresh, hreserved⟩ _ hvacant
  exact ⟨hfresh.step config action, hreserved.step hfresh hvacant (step_spec config s action)⟩

theorem alone_of_vacant (config : Config) (actions : List (Action Fd))
    (h : Throughout (fun past action => Vacant config (after config past) action) actions)
    : Throughout (fun past action => Alone config (after config past) action) actions := by
  rintro past action rest rfl
  have hpast := (Throughout.append_iff past _).mp h
  exact (after_reserved hpast.1).alone (h past action rest rfl)

section

open Verdict

def samplePacket : Bytes :=
  [0x81, 0xa4] ++ keyData.map Char.toUInt8 ++ [0x83, 0xa2] ++ keyId.map Char.toUInt8
    ++ [0xa1, 'u'.toUInt8, 0xa5] ++ keySubid.map Char.toUInt8
    ++ [0xa1, '1'.toUInt8, 0xa5] ++ keyToken.map Char.toUInt8
    ++ [0xac] ++ ['c', '3', 'D', '8', 'V', '4', 's', '+', '6', 'f', 'U', '='].map Char.toUInt8

def sampleData (key : List Char) : Value :=
  if key = keyId then
    .string ['u'.toUInt8]
  else if key = keySubid then
    .string ['1'.toUInt8]
  else if key = keyToken then
    .string (['c', '3', 'D', '8', 'V', '4', 's', '+', '6', 'f', 'U', '='].map Char.toUInt8)
  else
    .nil

def sampleConfig : Config where
  name := ['s', 'a', 'm', 'p', 'l', 'e'].map Char.toUInt8
  unpack := fun msg =>
    if msg = samplePacket then
      some (.table fun key => if key = keyData then .table sampleData else .nil)
    else
      none
  encodes := fun _ => true

def replayed : List (Action Nat) :=
  [.login ['u'.toUInt8] [1, 2, 3, 4, 5, 6, 7, 8], .socketOpen 1, .socketOpen 2,
    .socketData 1 samplePacket, .socketData 2 samplePacket,
    .resume 2 .value (PairsOrder.inserted Nat), .resume 2 .value (PairsOrder.inserted Nat)]

end

theorem replayed_sessions
    : ((after sampleConfig replayed).sessionMap.lookup 1).map Session.userid = some ['u'.toUInt8]
        ∧ ((after sampleConfig replayed).sessionMap.lookup 2).map Session.userid
          = some ['u'.toUInt8] := by
  decide +kernel

theorem replayed_sent
    : (after sampleConfig replayed).sent
        = [.accept 1, .accept 2, .newservice, .newservice, .start 0 1 ['u'.toUInt8],
          .start 1 2 ['u'.toUInt8]] := by
  decide +kernel

theorem replayed_not_one
    : ¬(after sampleConfig replayed).OneSession ∧ ¬(after sampleConfig replayed).OneAgent := by
  constructor
  . intro h
    have hsessions := replayed_sessions
    simp only [Option.map_eq_some_iff] at hsessions
    have := h 1 2 _ hsessions.1 hsessions.2
    simp at this
  . intro h
    have hlive : (after sampleConfig replayed).Live 0 ['u'.toUInt8]
        ∧ (after sampleConfig replayed).Live 1 ['u'.toUInt8] := by
      unfold State.Live State.Started
      rw [replayed_sent]
      exact ⟨⟨⟨1, by simp⟩, by simp⟩, ⟨2, by simp⟩, by simp⟩
    have := h 0 1 _ hlive.1 hlive.2
    simp at this

end Watchdog
