import SkynetAoi.Lib.History
import SkynetAoi.Lib.Threads
import SkynetAoi.Watchdog.Basic

/-!
This module contains what one step of the watchdog can do: accept a login, start an agent, or neither
of them. An agent that turns up anywhere has been launched before.
-/

namespace Watchdog

variable {Fd : Type}

namespace State

inductive Known (s : State Fd) (a : Nat) : Prop where
  | agent (fd : Fd) (h : s.agent fd = some a)
  | closing (h : .closing a ∈ s.threads)
  | started (fd : Fd) (uid : Bytes) (h : .start a fd uid ∈ s.sent)
  | disconnected (h : .disconnect a ∈ s.sent)

def Started (s : State Fd) (a : Nat) (uid : Bytes) : Prop :=
  ∃ fd, .start a fd uid ∈ s.sent

def Live (s : State Fd) (a : Nat) (uid : Bytes) : Prop :=
  s.Started a uid ∧ .disconnect a ∉ s.sent

theorem Started.known {s : State Fd} {a : Nat} {uid : Bytes} (h : s.Started a uid) : s.Known a := by
  obtain ⟨fd, h⟩ := h
  exact .started fd uid h

def Fresh (s : State Fd) : Prop :=
  ∀ a, s.Known a → a < s.launched

theorem fresh_init : (init : State Fd).Fresh := by
  intro a ha
  cases ha with
  | agent fd h => simp [init] at h
  | closing h => simp [init] at h
  | started fd uid h => simp [init] at h
  | disconnected h => simp [init] at h

@[simp]
theorem call_sessionMap (s : State Fd) (msg : Msg Fd) (rest : Thread Fd)
    : (s.call msg rest).sessionMap = s.sessionMap := rfl

@[simp]
theorem call_agent (s : State Fd) (msg : Msg Fd) (rest : Thread Fd)
    : (s.call msg rest).agent = s.agent := rfl

@[simp]
theorem call_launched (s : State Fd) (msg : Msg Fd) (rest : Thread Fd)
    : (s.call msg rest).launched = s.launched := rfl

@[simp]
theorem call_threads (s : State Fd) (msg : Msg Fd) (rest : Thread Fd)
    : (s.call msg rest).threads = s.threads ++ [rest] := rfl

@[simp]
theorem call_sent (s : State Fd) (msg : Msg Fd) (rest : Thread Fd)
    : (s.call msg rest).sent = s.sent ++ [msg] := rfl

end State

def Thread.launches (uid : Bytes) (thread : Thread Fd) : Bool :=
  match thread with
  | .newservice _ uid' => uid' = uid
  | _ => false

theorem launches_eraseIdx {threads : List (Thread Fd)} {uid : Bytes} {n : Nat} {fd : Fd}
    (hone : (threads.filter (·.launches uid)).length ≤ 1)
    (h : threads[n]? = some (.newservice fd uid))
    : ∀ thread ∈ threads.eraseIdx n, thread.launches uid = false := by
  intro thread hthread
  by_contra hlaunches
  rw [Bool.not_eq_false] at hlaunches
  have hperm := (perm_of_getElem? h).filter (·.launches uid)
  have hmem : thread ∈ (threads.eraseIdx n).filter (·.launches uid) := by simp [hthread, hlaunches]
  have hlen := hperm.length_eq
  rw [List.filter_cons_of_pos (by simp [Thread.launches]), List.length_cons] at hlen
  have := List.length_pos_of_mem hmem
  omega

def Msg.isStart (msg : Msg Fd) : Bool :=
  match msg with
  | .start _ _ _ => true
  | _ => false

def OneStart (sent : List (Msg Fd)) : Prop :=
  ∀ a fd fd' uid uid', .start a fd uid ∈ sent → .start a fd' uid' ∈ sent → uid = uid'

variable [DecidableEq Fd]

structure Quiet (s s' : State Fd) : Prop where
  sessions : ∀ fd v, s'.sessionMap.lookup fd = some v → s.sessionMap.lookup fd = some v
  launches : ∀ uid, (s'.threads.filter (·.launches uid)).Sublist (s.threads.filter (·.launches uid))
  launched : s'.launched = s.launched
  known : ∀ a, s'.Known a → s.Known a
  sent : ∃ msgs, s'.sent = s.sent ++ msgs ∧ ∀ msg ∈ msgs, msg.isStart = false

namespace Quiet

variable {s s' s'' : State Fd}

theorem refl (s : State Fd) : Quiet s s where
  sessions := fun _ _ h => h
  launches := fun _ => List.Sublist.refl _
  launched := rfl
  known := fun _ h => h
  sent := ⟨[], by simp, by simp⟩

theorem trans (h : Quiet s s') (h' : Quiet s' s'') : Quiet s s'' where
  sessions := fun fd v hv => h.sessions fd v (h'.sessions fd v hv)
  launches := fun uid => (h'.launches uid).trans (h.launches uid)
  launched := h'.launched.trans h.launched
  known := fun a ha => h.known a (h'.known a ha)
  sent := by
    obtain ⟨msgs, hsent, hmsgs⟩ := h.sent
    obtain ⟨msgs', hsent', hmsgs'⟩ := h'.sent
    refine ⟨msgs ++ msgs', ?_, ?_⟩
    . rw [hsent', hsent, List.append_assoc]
    . intro msg hmsg
      rw [List.mem_append] at hmsg
      rcases hmsg with hmsg | hmsg
      . exact hmsgs msg hmsg
      . exact hmsgs' msg hmsg

theorem started_iff (h : Quiet s s') (a : Nat) (uid : Bytes) : s'.Started a uid ↔ s.Started a uid := by
  obtain ⟨msgs, hsent, hmsgs⟩ := h.sent
  unfold State.Started
  rw [hsent]
  constructor
  . rintro ⟨fd, hstart⟩
    rw [List.mem_append] at hstart
    rcases hstart with hstart | hstart
    . exact ⟨fd, hstart⟩
    . have := hmsgs _ hstart
      simp [Msg.isStart] at this
  . rintro ⟨fd, hstart⟩
    exact ⟨fd, by simp [hstart]⟩

theorem live (h : Quiet s s') {a : Nat} {uid : Bytes} (hlive : s'.Live a uid) : s.Live a uid := by
  obtain ⟨msgs, hsent, -⟩ := h.sent
  refine ⟨(h.started_iff a uid).mp hlive.1, ?_⟩
  intro hdisconnect
  apply hlive.2
  simp [hsent, hdisconnect]

end Quiet

theorem quiet_userSecret (s : State Fd) (userSecret : Bytes → Option UserSecret) (subid : Nat)
    : Quiet s { s with userSecret := userSecret, subid := subid } where
  sessions := fun _ _ h => h
  launches := fun _ => List.Sublist.refl _
  launched := rfl
  known := by
    intro a ha
    cases ha with
    | agent fd h => exact .agent fd h
    | closing h => exact .closing h
    | started fd uid h => exact .started fd uid h
    | disconnected h => exact .disconnected h
  sent := ⟨[], by simp, by simp⟩

theorem quiet_eraseIdx (s : State Fd) (n : Nat)
    : Quiet s { s with threads := s.threads.eraseIdx n } where
  sessions := fun _ _ h => h
  launches := fun _ => (List.eraseIdx_sublist s.threads n).filter _
  launched := rfl
  known := by
    intro a ha
    cases ha with
    | agent fd h => exact .agent fd h
    | closing h => exact .closing ((List.eraseIdx_sublist s.threads n).subset h)
    | started fd uid h => exact .started fd uid h
    | disconnected h => exact .disconnected h
  sent := ⟨[], by simp, by simp⟩

theorem quiet_send (s : State Fd) {msg : Msg Fd} (hstart : msg.isStart = false)
    (hknown : ∀ a, msg = .disconnect a → s.Known a) : Quiet s (s.send msg) where
  sessions := fun _ _ h => h
  launches := fun _ => List.Sublist.refl _
  launched := rfl
  known := by
    intro a ha
    cases ha with
    | agent fd h => exact .agent fd h
    | closing h => exact .closing h
    | started fd uid h =>
      rw [State.send, List.mem_append, List.mem_singleton] at h
      rcases h with h | rfl
      . exact .started fd uid h
      . simp [Msg.isStart] at hstart
    | disconnected h =>
      rw [State.send, List.mem_append, List.mem_singleton] at h
      rcases h with h | h
      . exact .disconnected h
      . exact hknown a h.symm
  sent := ⟨[msg], rfl, by simp [hstart]⟩

theorem quiet_wait (s : State Fd) {rest : Thread Fd} (hlaunches : ∀ uid, rest.launches uid = false)
    (hknown : ∀ a, rest = .closing a → s.Known a)
    : Quiet s { s with threads := s.threads ++ [rest] } where
  sessions := fun _ _ h => h
  launches := by
    intro uid
    simp [List.filter_append, hlaunches uid]
  launched := rfl
  known := by
    intro a ha
    cases ha with
    | agent fd h => exact .agent fd h
    | closing h =>
      rw [List.mem_append, List.mem_singleton] at h
      rcases h with h | h
      . exact .closing h
      . exact hknown a h.symm
    | started fd uid h => exact .started fd uid h
    | disconnected h => exact .disconnected h
  sent := ⟨[], by simp, by simp⟩

theorem quiet_call (s : State Fd) {msg : Msg Fd} {rest : Thread Fd} (hstart : msg.isStart = false)
    (hlaunches : ∀ uid, rest.launches uid = false) (hmsg : ∀ a, msg ≠ .disconnect a)
    (hknown : ∀ a, rest = .closing a → s.Known a) : Quiet s (s.call msg rest) := by
  have hwait := quiet_wait s hlaunches hknown
  exact hwait.trans (quiet_send _ hstart (by
    intro a ha
    exact absurd ha (hmsg a)))

theorem quiet_forget (s : State Fd) (fd : Fd)
    : Quiet s { s with
        sessionMap := s.sessionMap.erase fd
        agent := Function.update s.agent fd none
      } where
  sessions := by
    intro fd' v hv
    by_cases hfd : fd' = fd
    . subst hfd
      simp at hv
    . rwa [AList.lookup_erase_ne hfd] at hv
  launches := fun _ => List.Sublist.refl _
  launched := rfl
  known := by
    intro a ha
    cases ha with
    | agent fd' h =>
      by_cases hfd : fd' = fd
      . simp [hfd] at h
      . exact .agent fd' (by simpa [hfd] using h)
    | closing h => exact .closing h
    | started fd uid h => exact .started fd uid h
    | disconnected h => exact .disconnected h
  sent := ⟨[], by simp, by simp⟩

theorem quiet_closeAgent (s : State Fd) (fd : Fd) : Quiet s (closeAgent fd s) := by
  have hforget := quiet_forget s fd
  unfold closeAgent
  cases ha : s.agent fd with
  | none => exact hforget
  | some a =>
    have hwait : Quiet s { s with threads := s.threads ++ [.closing a] } :=
      quiet_wait s (by intro uid; rfl) (by
        rintro a' ⟨⟩
        exact .agent fd ha)
    exact hwait.trans ((quiet_forget _ fd).trans (quiet_send _ rfl (by rintro a' ⟨⟩)))

theorem quiet_socketData (config : Config) (s : State Fd) (fd : Fd) (msg : Bytes)
    (h : ∀ uid subid, Verdict.ofMsg config s msg ≠ .login uid subid)
    : Quiet s (socketData config fd msg s) := by
  unfold socketData
  cases hverdict : Verdict.ofMsg config s msg with
  | raise => exact .refl s
  | kick => exact quiet_call s rfl (by intro uid; rfl) (by rintro a ⟨⟩) (by rintro a ⟨⟩)
  | login uid subid => exact absurd hverdict (h uid subid)

theorem quiet_clear (s : State Fd) (fd : Fd)
    : Quiet s { s with agent := Function.update s.agent fd none } where
  sessions := fun _ _ h => h
  launches := fun _ => List.Sublist.refl _
  launched := rfl
  known := fun a ha => by
    cases ha with
    | agent fd' h =>
      by_cases hfd : fd' = fd
      . simp [hfd] at h
      . exact .agent fd' (by simpa [hfd] using h)
    | closing h => exact .closing h
    | started fd uid h => exact .started fd uid h
    | disconnected h => exact .disconnected h
  sent := ⟨[], by simp, by simp⟩

theorem quiet_resume (s : State Fd) (n : Nat) (reply : Reply) (order : PairsOrder Fd)
    (h : reply = .value → ∀ fd uid, s.threads[n]? ≠ some (.newservice fd uid))
    : Quiet s (resume n reply order s) := by
  unfold resume
  cases hthread : s.threads[n]? with
  | none => exact .refl s
  | some thread =>
    have herase := quiet_eraseIdx s n
    cases thread with
    | newservice fd uid =>
      cases reply with
      | value => exact absurd hthread (h rfl fd uid)
      | empty => exact herase.trans (quiet_clear _ fd)
      | error => exact herase
    | closing a =>
      have hsend : Quiet s (State.send { s with threads := s.threads.eraseIdx n } (.disconnect a)) := by
        have hknown : s.Known a := .closing (List.mem_of_getElem? hthread)
        exact (quiet_send s rfl (by rintro a' ⟨⟩; exact hknown)).trans (quiet_eraseIdx _ n)
      cases reply with
      | value => exact hsend
      | empty => exact hsend
      | error => exact herase
    | kick uid =>
      have hsecret := herase.trans
        (quiet_userSecret _ (Function.update s.userSecret uid none) s.subid)
      simp only [Thread.resume]
      split
      . exact hsecret.trans (quiet_closeAgent _ _)
      . exact hsecret
    | last => exact herase

inductive Stepped (config : Config) (s : State Fd) : Action Fd → State Fd → Prop where
  | quiet (action : Action Fd) (s' : State Fd) (h : Quiet s s') : Stepped config s action s'
  | login (fd : Fd) (msg uid : Bytes) (subid : Value)
      (h : Verdict.ofMsg config s msg = .login uid subid)
    : Stepped config s (.socketData fd msg)
        (State.call { s with sessionMap := s.sessionMap.insert fd ⟨uid, subid⟩ } .newservice
          (.newservice fd uid))
  | start (n : Nat) (order : PairsOrder Fd) (fd : Fd) (uid : Bytes)
      (h : s.threads[n]? = some (.newservice fd uid))
    : Stepped config s (.resume n .value order)
        (State.call
          { s with
            threads := s.threads.eraseIdx n
            launched := s.launched + 1
            agent := Function.update s.agent fd (some s.launched)
          }
          (.start s.launched fd uid) .last)

theorem step_spec (config : Config) (s : State Fd) (action : Action Fd)
    : Stepped config s action (step config s action) := by
  cases action with
  | login uid secret => exact .quiet _ _ (quiet_userSecret s _ _)
  | kick uid lastSubid =>
    exact .quiet _ _ (quiet_call s rfl (by intro uid; rfl) (by rintro a ⟨⟩) (by rintro a ⟨⟩))
  | close fd => exact .quiet _ _ (quiet_closeAgent s fd)
  | socketOpen fd =>
    exact .quiet _ _ (quiet_call s rfl (by intro uid; rfl) (by rintro a ⟨⟩) (by rintro a ⟨⟩))
  | socketData fd msg =>
    by_cases h : ∃ uid subid, Verdict.ofMsg config s msg = .login uid subid
    . obtain ⟨uid, subid, h⟩ := h
      simp only [step, socketData, h]
      exact .login fd msg uid subid h
    . rw [not_exists] at h
      exact .quiet _ _ (quiet_socketData config s fd msg (by
        intro uid subid hverdict
        exact h uid ⟨subid, hverdict⟩))
  | socketClose fd => exact .quiet _ _ (quiet_closeAgent s fd)
  | socketError fd => exact .quiet _ _ (quiet_closeAgent s fd)
  | resume n reply order =>
    by_cases h : reply = .value ∧ ∃ fd uid, s.threads[n]? = some (.newservice fd uid)
    . obtain ⟨rfl, fd, uid, h⟩ := h
      simp only [step, resume, h]
      exact .start n order fd uid h
    . exact .quiet _ _ (quiet_resume s n reply order (by
        intro hreply fd uid hthread
        exact h ⟨hreply, fd, uid, hthread⟩))

namespace Stepped

variable {config : Config} {s s' : State Fd} {action : Action Fd}

theorem launched_le (h : Stepped config s action s') : s.launched ≤ s'.launched := by
  cases h with
  | quiet _ _ h => rw [h.launched]
  | login => exact le_refl _
  | start => exact Nat.le_succ _

theorem known (h : Stepped config s action s') {a : Nat} (ha : s'.Known a)
    : s.Known a ∨ a + 1 = s'.launched := by
  cases h with
  | quiet _ _ h => exact .inl (h.known a ha)
  | login fd msg uid subid h =>
    apply Or.inl
    cases ha with
    | agent fd h => exact .agent fd h
    | closing h => exact .closing (by simpa using h)
    | started fd uid h => exact .started fd uid (by simpa using h)
    | disconnected h => exact .disconnected (by simpa using h)
  | start n order fd uid h =>
    cases ha with
    | agent fd' h =>
      by_cases hfd : fd' = fd
      . apply Or.inr
        simpa [hfd, eq_comm] using h
      . exact .inl (.agent fd' (by simpa [hfd] using h))
    | closing h =>
      have : .closing a ∈ s.threads.eraseIdx n := by simpa using h
      exact .inl (.closing ((List.eraseIdx_sublist s.threads n).subset this))
    | started fd' uid' h =>
      rw [State.call_sent, List.mem_append, List.mem_singleton] at h
      rcases h with h | h
      . exact .inl (.started fd' uid' h)
      . cases h
        exact .inr rfl
    | disconnected h => exact .inl (.disconnected (by simpa using h))

end Stepped

theorem State.Fresh.step {s : State Fd} (h : s.Fresh) (config : Config) (action : Action Fd)
    : (Watchdog.step config s action).Fresh := by
  have hstep := step_spec config s action
  intro a ha
  rcases hstep.known ha with ha | ha
  . exact lt_of_lt_of_le (h a ha) hstep.launched_le
  . omega

theorem Stepped.sent {config : Config} {s s' : State Fd} {action : Action Fd}
    (h : Stepped config s action s')
    : ∃ msgs, s'.sent = s.sent ++ msgs
        ∧ ((∀ msg ∈ msgs, msg.isStart = false) ∨ ∃ fd uid, msgs = [.start s.launched fd uid]) := by
  cases h with
  | quiet _ _ h =>
    obtain ⟨msgs, hsent, hmsgs⟩ := h.sent
    exact ⟨msgs, hsent, .inl hmsgs⟩
  | login fd msg uid subid h => exact ⟨[.newservice], rfl, .inl (by simp [Msg.isStart])⟩
  | start n order fd uid h => exact ⟨[.start s.launched fd uid], rfl, .inr ⟨fd, uid, rfl⟩⟩

theorem OneStart.step {config : Config} {s : State Fd} (h : OneStart s.sent) (hfresh : s.Fresh)
    (action : Action Fd) : OneStart (step config s action).sent := by
  obtain ⟨msgs, hsent, hmsgs⟩ := (step_spec config s action).sent
  have hnew : ∀ fd uid, .start s.launched fd uid ∉ s.sent := by
    intro fd uid hstart
    exact lt_irrefl _ (hfresh _ (.started fd uid hstart))
  rw [hsent]
  intro a fd fd' uid uid' h1 h2
  rcases hmsgs with hquiet | ⟨fd0, uid0, rfl⟩
  . have hold : ∀ fd uid, .start a fd uid ∈ s.sent ++ msgs → .start a fd uid ∈ s.sent := by
      intro fd uid hstart
      rw [List.mem_append] at hstart
      rcases hstart with hstart | hstart
      . exact hstart
      . have := hquiet _ hstart
        simp [Msg.isStart] at this
    exact h a fd fd' uid uid' (hold fd uid h1) (hold fd' uid' h2)
  . rw [List.mem_append, List.mem_singleton, Msg.start.injEq] at h1 h2
    rcases h1 with h1 | ⟨rfl, -, rfl⟩
    . rcases h2 with h2 | ⟨rfl, -, -⟩
      . exact h a fd fd' uid uid' h1 h2
      . exact absurd h1 (hnew fd uid)
    . rcases h2 with h2 | ⟨-, -, rfl⟩
      . exact absurd h2 (hnew fd' uid')
      . rfl

theorem after_fresh (config : Config) (actions : List (Action Fd))
    : (after config actions).Fresh := by
  apply Throughout.foldl_invariant (C := fun _ _ => True) (W := fun _ => True) State.fresh_init
  . intro s action h _ _
    exact h.step config action
  . simp
  . intro past action rest heq
    trivial

end Watchdog
