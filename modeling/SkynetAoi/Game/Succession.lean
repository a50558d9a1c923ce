import SkynetAoi.Game.Agents
import SkynetAoi.Lib.History
import SkynetAoi.Watchdog.Session

/-!
This module contains who is on the map after a user has logged in again. The `leave` of the earlier
agent takes its time, and the map service does not look at whose it is.
-/

namespace Game

open Lua (Value Arith)

variable {Id Fd Num : Type}

def Request.Registers (a : Nat) (u : Id) (request : Request Id Num) : Prop :=
  ∃ order req, request = .proper (.enter order req) ∧ req.agent = a ∧ req.tempid = u
    ∧ Aoi.Raw.asserted req.pos = true

def Request.WF (u : Id) (request : Request Id Num) : Prop :=
  match request with
  | .proper (.enterMonster _ req) => req.tempid ≠ u
  | .proper (.leaveMonster _ req) => req.tempid ≠ u
  | _ => True

def Action.WF (loadid : Bytes → Id) (action : Action Id Fd Num) : Prop :=
  match action with
  | .enterMonster _ req => ∀ uid, req.tempid ≠ loadid uid
  | .leaveMonster _ req => ∀ uid, req.tempid ≠ loadid uid
  | _ => True

variable [DecidableEq Id]

def Request.Reports (arith : Arith Num) (u : Id) (s : Aoi.Raw.State Id Nat Num)
    (request : Request Id Num) : Prop :=
  ∃ order req, request = .proper (.enter order req) ∧ req.tempid = u ∧ req.Reports arith s

section

variable {arith : Arith Num} {s : Aoi.Raw.State Id Nat Num} {u : Id} {request : Request Id Num}

variable (arith s) in
theorem Request.Registers.handle {a : Nat} (h : request.Registers a u)
    : ∃ o, (Request.handle arith s request).OBJ u = some o ∧ o.agent = a := by
  obtain ⟨order, req, rfl, rfl, rfl, hassert⟩ := h
  refine ⟨req.obj s.refs, ?_, rfl⟩
  have hobj := Aoi.Raw.enter_obj arith order req s
  rw [if_pos hassert] at hobj
  exact (congrFun hobj req.tempid).trans (Function.update_self ..)

theorem Request.LeavesFor.handle (h : request.LeavesFor u)
    : (Request.handle arith s request).OBJ u = none
        ∧ Aoi.Raw.lastMode (Request.handle arith s request).texts u = some ['d'] := by
  obtain ⟨order, req, rfl, rfl, hwritable⟩ := h
  exact Aoi.Raw.leave_writable order .player hwritable s

variable (arith s) in
theorem Request.WF.untouched (h : request.WF u)
    : (∃ a, request.Registers a u) ∨ request.LeavesFor u
        ∨ Aoi.Raw.Untouched u s (Request.handle arith s request) := by
  cases request with
  | leaveNobody a => exact .inr (.inr ⟨rfl, rfl⟩)
  | proper action =>
    by_cases habout : action.about u
    . cases action with
      | enter order req =>
        by_cases hassert : Aoi.Raw.asserted req.pos = true
        . exact .inl ⟨req.agent, order, req, rfl, rfl, habout, hassert⟩
        . refine .inr (.inr ?_)
          unfold Request.handle Aoi.Raw.handle Aoi.Raw.enter
          dsimp only
          rw [if_neg hassert]
          exact ⟨rfl, rfl⟩
      | leave order req =>
        rcases Aoi.Raw.leave_cases order .player req s with ⟨hwritable, -⟩ | ⟨-, hsame⟩
        . exact .inr (.inl ⟨order, req, rfl, habout, hwritable⟩)
        . refine .inr (.inr ?_)
          unfold Request.handle Aoi.Raw.handle
          dsimp only
          rw [hsame]
          exact ⟨rfl, rfl⟩
      | enterMonster order req => exact absurd habout h
      | leaveMonster order req => exact absurd habout h
      | aoicallback w m => exact absurd habout not_false
      | messageUpdate => exact absurd habout not_false
    . exact .inr (.inr (Aoi.Raw.handle_untouched arith habout s))

omit [DecidableEq Id] in
theorem Request.LeavesFor.not_registers (h : request.LeavesFor u) (a : Nat)
    : ¬request.Registers a u := by
  obtain ⟨order, req, rfl, -⟩ := h
  rintro ⟨order', req', heq, -⟩
  simp at heq

theorem Request.Reports.registers (h : request.Reports arith u s) : ∃ a, request.Registers a u := by
  obtain ⟨order, req, heq, htempid, hreports⟩ := h
  exact ⟨req.agent, order, req, heq, rfl, htempid, hreports.1⟩

theorem Request.WF.obj_iff (h : request.WF u) (b : Nat)
    : (∃ o, (Request.handle arith s request).OBJ u = some o ∧ o.agent = b)
        ↔
      request.Registers b u
        ∨ (∃ o, s.OBJ u = some o ∧ o.agent = b)
          ∧ ¬(request.LeavesFor u ∨ ∃ a, a ≠ b ∧ request.Registers a u) := by
  by_cases hregisters : ∃ a, request.Registers a u
  . obtain ⟨a, ha⟩ := hregisters
    obtain ⟨o, ho, hagent⟩ := ha.handle arith s
    constructor
    . rintro ⟨o', ho', hb⟩
      rw [ho, Option.some.injEq] at ho'
      rw [← ho', hagent] at hb
      rw [← hb]
      exact .inl ha
    . rintro (hb | ⟨-, hnot⟩)
      . exact hb.handle arith s
      . have hab : a = b := by
          by_contra hne
          exact hnot (.inr ⟨a, hne, ha⟩)
        exact ⟨o, ho, hagent.trans hab⟩
  . have hb : ¬request.Registers b u := fun hb => hregisters ⟨b, hb⟩
    have hnone : ¬∃ a, a ≠ b ∧ request.Registers a u := by
      rintro ⟨a, -, ha⟩
      exact hregisters ⟨a, ha⟩
    rcases h.untouched arith s with hsome | hleaves | hsame
    . exact absurd hsome hregisters
    . rw [hleaves.handle.1]
      simp [hb, hleaves]
    . have hobj := hsame.obj
      by_cases hleaves : request.LeavesFor u
      . rw [hleaves.handle.1]
        simp [hb, hleaves]
      . rw [hobj]
        simp [hb, hnone, hleaves]

theorem Request.WF.mode_iff (h : request.WF u)
    : (∃ mode, Aoi.Raw.lastMode (Request.handle arith s request).texts u = some mode
          ∧ mode ≠ ['d'])
        ↔
      request.Reports arith u s
        ∨ (∃ mode, Aoi.Raw.lastMode s.texts u = some mode ∧ mode ≠ ['d'])
          ∧ ¬request.LeavesFor u := by
  by_cases hleaves : request.LeavesFor u
  . have hnot : ¬request.Reports arith u s := by
      intro hreports
      obtain ⟨a, ha⟩ := hreports.registers
      exact hleaves.not_registers a ha
    rw [hleaves.handle.2]
    simp [hleaves, hnot]
  . by_cases hregisters : ∃ a, request.Registers a u
    . obtain ⟨a, order, req, rfl, -, rfl, -⟩ := hregisters
      have hiff : Request.Reports arith req.tempid s (.proper (.enter order req))
          ↔ req.Reports arith s := by
        constructor
        . rintro ⟨order', req', heq, -, hreports⟩
          simp only [Request.proper.injEq, Aoi.Raw.Action.enter.injEq] at heq
          rwa [heq.2]
        . intro hreports
          exact ⟨order, req, rfl, rfl, hreports⟩
      rw [hiff]
      rcases Aoi.Raw.enter_mode arith order req s with ⟨hreports, hmode⟩ | ⟨hnot, htexts⟩
      . refine ⟨fun _ => .inl hreports, fun _ => ⟨_, hmode, by simp⟩⟩
      . have htexts' : (Request.handle arith s (.proper (.enter order req))).texts = s.texts :=
          htexts
        rw [htexts']
        simp [hnot, hleaves]
    . have hnot : ¬request.Reports arith u s := fun hreports => hregisters hreports.registers
      rcases h.untouched arith s with hsome | hleaves' | hsame
      . exact absurd hsome hregisters
      . exact absurd hleaves' hleaves
      . rw [hsame.mode]
        simp [hnot, hleaves]

end

structure Inv (arith : Arith Num) (loadid : Bytes → Id) (s : Game Id Fd Num) : Prop where
  fresh : s.watchdog.Fresh
  oneStart : Watchdog.OneStart s.watchdog.sent
  wf : ∀ request ∈ s.requests, ∀ uid, request.WF (loadid uid)
  aoi : s.aoi = s.log.foldl (Request.handle arith) .init
  agents : ∀ a, AgentInv loadid s.watchdog.sent s.requests a (s.agents a)

section

variable {arith : Arith Num} {loadid : Bytes → Id}

omit [DecidableEq Id] in
theorem wf_leaveRequest {order : PairsOrder Id} {a : Nat} {agent : Agent Id Fd Num}
    {request : Request Id Num} (h : leaveRequest order a agent = some request) (u : Id)
    : request.WF u := by
  rcases leaveRequest_cases h with ⟨_, req, -, rfl, -⟩ | ⟨-, rfl⟩
  . trivial
  . trivial

namespace Inv

variable {s : Game Id Fd Num}

theorem init : Inv arith loadid (.init : Game Id Fd Num) where
  fresh := Watchdog.State.fresh_init
  oneStart := by
    intro a fd fd' uid uid' h
    simp [Game.init, Watchdog.State.init] at h
  wf := by simp [Game.init, requests]
  aoi := rfl
  agents := fun _ => AgentInv.init

theorem setAgent (h : Inv arith loadid s) {a : Nat} {agent : Agent Id Fd Num}
    (hagent : AgentInv loadid s.watchdog.sent s.requests a agent)
    : Inv arith loadid (s.setAgent a agent) where
  fresh := h.fresh
  oneStart := h.oneStart
  wf := h.wf
  aoi := h.aoi
  agents := by
    intro a'
    simp only [Game.setAgent]
    rw [Function.update_apply]
    split
    . next heq =>
      subst heq
      exact hagent
    . exact h.agents a'

theorem post (h : Inv arith loadid s) {request : Request Id Num}
    (hwf : ∀ uid, request.WF (loadid uid)) {a : Nat} {agent : Agent Id Fd Num}
    (hagent : AgentInv loadid s.watchdog.sent (s.requests ++ [request]) a agent)
    (hother : ∀ a' tempid, a' ≠ a → ¬request.EntersFor a' tempid)
    : Inv arith loadid ((s.setAgent a agent).post request) := by
  have hrequests : ((s.setAgent a agent).post request).requests = s.requests ++ [request] := by
    simp [requests, Game.post, Game.setAgent]
  refine ⟨h.fresh, h.oneStart, ?_, h.aoi, ?_⟩
  . rw [hrequests]
    intro request' hmem
    rw [List.mem_append, List.mem_singleton] at hmem
    rcases hmem with hmem | rfl
    . exact h.wf request' hmem
    . exact hwf
  . intro a'
    rw [hrequests]
    simp only [Game.setAgent, Game.post]
    rw [Function.update_apply]
    split
    . next heq =>
      subst heq
      exact hagent
    . next hne => exact (h.agents a').post fun tempid => hother a' tempid hne

theorem postOther (h : Inv arith loadid s) {request : Request Id Num}
    (hwf : ∀ uid, request.WF (loadid uid)) (hother : ∀ a tempid, ¬request.EntersFor a tempid)
    : Inv arith loadid (s.post request) := by
  have := h.post hwf ((h.agents 0).post (hother 0)) fun a tempid _ => hother a tempid
  simpa [Game.setAgent] using this

theorem recv (h : Inv arith loadid s) (order : PairsOrder Id) (a : Nat)
    : Inv arith loadid (Game.recv loadid order a s) := by
  have hagent := h.agents a
  unfold Game.recv
  cases hmailbox : (s.agents a).mailbox with
  | nil => simpa [hmailbox] using h
  | cons letter mailbox =>
    simp only [hmailbox]
    cases letter with
    | start client uid =>
      have htail := hagent.tail hmailbox (by simp)
      have hload := htail.load (hagent.start client uid (by simp [hmailbox]))
      simpa [dispatch, Game.setAgent] using h.setAgent hload
    | move pos =>
      have htail := hagent.tail hmailbox (by simp)
      cases huid : (s.agents a).UID with
      | none => simpa [dispatch, Game.move, Game.setAgent, huid] using h.setAgent htail
      | some tempid =>
        have hstage : (s.agents a).stage = .serving := by
          by_contra hstage
          have := hagent.still hstage (.move pos) (by simp [hmailbox])
          simp [Letter.isMove] at this
        have hkeep := htail.keep hstage pos
        by_cases hdepth : 2 + pos.depth ≤ Aoi.Raw.maxDepth
        . let req : Aoi.Raw.Request Id Nat Num := ⟨tempid, a, pos, hdepth⟩
          have hmove := hkeep.move huid hstage order req rfl
          have hwf : ∀ uid, Request.WF (loadid uid) (.proper (.enter order req)) := fun _ => trivial
          have := h.post hwf hmove (by
            rintro a' tempid' hne ⟨order', req', heq, hagent', -⟩
            simp only [Request.proper.injEq, Aoi.Raw.Action.enter.injEq] at heq
            apply hne
            rw [← hagent', ← heq.2])
          simpa [dispatch, Game.move, Game.setAgent, huid, hdepth] using this
        . simpa [dispatch, Game.move, Game.setAgent, huid, hdepth] using h.setAgent hkeep
    | disconnect => simpa [dispatch, Game.setAgent] using h.setAgent (hagent.closing hmailbox)

theorem answer (h : Inv arith loadid s) (order : PairsOrder Id) (a : Nat)
    : Inv arith loadid (Game.answer order a s) := by
  unfold Game.answer
  simp only
  split
  . next hstage =>
    cases hrequest : leaveRequest order a (s.agents a) with
    | some request =>
      exact h.post (fun uid => wf_leaveRequest hrequest (loadid uid))
        ((h.agents a).left hstage h.oneStart hrequest)
        fun a' tempid _ => leaveRequest_not_enters hrequest a' tempid
    | none => exact h.setAgent ((h.agents a).stay hstage hrequest)
  . exact h

theorem handle (h : Inv arith loadid s) : Inv arith loadid (s.handle arith) := by
  unfold Game.handle
  split
  . exact h
  . next request mail hmail =>
    have hrequests : s.requests = s.log ++ [request] ++ mail := by simp [requests, hmail]
    refine ⟨h.fresh, h.oneStart, ?_, ?_, ?_⟩
    . have := h.wf
      rwa [hrequests] at this
    . rw [List.foldl_append, ← h.aoi]
      rfl
    . have := h.agents
      rwa [hrequests] at this

variable [DecidableEq Fd]

theorem redirect (h : Inv arith loadid s) (a : Nat) (pos : Value Num)
    : Inv arith loadid (s.redirect a pos) := by
  unfold Game.redirect
  simp only
  split
  . next hcond =>
    apply h.setAgent
    apply (h.agents a).letter
    . rintro client uid ⟨⟩
    . simp
    . intro _
      exact hcond.2
  . exact h

theorem watch (h : Inv arith loadid s) (config : Watchdog.Config) (action : Watchdog.Action Fd)
    : Inv arith loadid (Game.watch config action s) := by
  obtain ⟨msgs, hsent, -⟩ := (Watchdog.step_spec config s.watchdog action).sent
  refine ⟨h.fresh.step config action, h.oneStart.step h.fresh action, h.wf, h.aoi, ?_⟩
  intro a
  simp only [Game.watch, hsent, List.drop_left]
  exact AgentInv.deliverAll h.agents msgs a

theorem close (h : Inv arith loadid s) (config : Watchdog.Config) (a : Nat)
    : Inv arith loadid (Game.close config a s) := by
  unfold Game.close
  simp only
  split
  . next fd hstage hfd =>
    apply watch
    apply h.setAgent
    exact (h.agents a).setStage (by simp [hstage]) (by simp) (by simp)
  . exact h

theorem step (h : Inv arith loadid s) (config : Watchdog.Config) {action : Action Id Fd Num}
    (hwf : action.WF loadid) : Inv arith loadid (Game.step arith config loadid s action) := by
  cases action with
  | watchdog action => exact h.watch config action
  | redirect a pos => exact h.redirect a pos
  | recv order a => exact h.recv order a
  | close a => exact h.close config a
  | answer order a => exact h.answer order a
  | handle => exact h.handle
  | enterMonster order req =>
    refine h.postOther hwf ?_
    rintro a tempid ⟨order', req', heq, -⟩
    simp at heq
  | leaveMonster order req =>
    refine h.postOther hwf ?_
    rintro a tempid ⟨order', req', heq, -⟩
    simp at heq
  | aoicallback w m =>
    refine h.postOther (fun _ => trivial) ?_
    rintro a tempid ⟨order', req', heq, -⟩
    simp at heq
  | messageUpdate =>
    refine h.postOther (fun _ => trivial) ?_
    rintro a tempid ⟨order', req', heq, -⟩
    simp at heq

end Inv

structure Quiet (s : Game Id Fd Num) : Prop where
  mail : s.mail = []
  mailbox : ∀ a < s.watchdog.launched, (s.agents a).mailbox = []
  stage : ∀ a < s.watchdog.launched,
    (s.agents a).stage = .serving ∨ (s.agents a).stage = .left

/--
The user is on the map with this agent, and was not dropped since.
-/
def Succeeds (s : Game Id Fd Num) (u : Id) (b : Nat) : Prop :=
  (∃ o, s.aoi.OBJ u = some o ∧ o.agent = b)
    ∧ ∃ mode, Aoi.Raw.lastMode s.aoi.texts u = some mode ∧ mode ≠ ['d']

/--
The new agent gets a position to the map service that passes the asserts, and does so once more after
everything that the map service carries out for the other agents of the user: a `leave`, and the
`enter` of an agent whose `leave` cannot be carried out. An `enter` has got as far as its text since
the last `leave`.
-/
structure LeavesFirst (arith : Arith Num) (s : Game Id Fd Num) (u : Id) (b : Nat) : Prop where
  registers : ∃ enter ∈ s.log, enter.Registers b u
  leaves : ∀ before leave after, s.log = before ++ leave :: after → leave.LeavesFor u →
    ∃ enter ∈ after, enter.Registers b u
  stays : ∀ a, a ≠ b → ¬(s.agents a).Drops → ∀ before enter after,
    s.log = before ++ enter :: after → enter.Registers a u →
      ∃ enter' ∈ after, enter'.Registers b u
  reports : Standing (Request.LeavesFor u)
    (fun past => Request.Reports arith u (past.foldl (Request.handle arith) .init)) s.log

/--
A user that has logged in again, after whom every other agent of the user was told to disconnect, and
whose client has moved.
-/
structure LoggedInAgain (loadid : Bytes → Id) (s : Game Id Fd Num) (u : Id) (b : Nat)
    : Prop where
  entered : ∃ request ∈ s.log, request.EntersFor b u
  stays : .disconnect b ∉ s.watchdog.sent
  kicked : ∀ a client uid, a ≠ b → .start a client uid ∈ s.watchdog.sent → loadid uid = u →
    .disconnect a ∈ s.watchdog.sent

omit [DecidableEq Id] in
theorem Request.Registers.entersFor {request : Request Id Num} {a : Nat} {u : Id}
    (h : request.Registers a u) : request.EntersFor a u := by
  obtain ⟨order, req, heq, hagent, htempid, -⟩ := h
  exact ⟨order, req, heq, hagent, htempid⟩

omit [DecidableEq Id] in
theorem Request.Registers.agent_eq {request : Request Id Num} {a b : Nat} {u : Id}
    (ha : request.Registers a u) (hb : request.Registers b u) : a = b := by
  obtain ⟨order, req, rfl, rfl, -⟩ := ha
  obtain ⟨order', req', heq, rfl, -⟩ := hb
  simp only [Request.proper.injEq, Aoi.Raw.Action.enter.injEq] at heq
  rw [heq.2]

variable [DecidableEq Fd]

theorem after_inv (config : Watchdog.Config) {actions : List (Action Id Fd Num)}
    (hwf : ∀ action ∈ actions, action.WF loadid)
    : Inv arith loadid (after arith config loadid actions) := by
  unfold after
  apply Throughout.foldl_invariant (C := fun _ _ => True) Inv.init _ hwf
  . intro past action rest heq
    trivial
  . intro s action h hwf _
    exact h.step config hwf

section

variable {s : Game Id Fd Num} {u : Id} {b : Nat}

omit [DecidableEq Fd] in
theorem Inv.registered_iff (h : Inv arith loadid s) (hwf : ∀ request ∈ s.log, request.WF u)
    : (∃ o, s.aoi.OBJ u = some o ∧ o.agent = b)
        ↔
      Standing (fun request => request.LeavesFor u ∨ ∃ a, a ≠ b ∧ request.Registers a u)
        (fun _ => Request.Registers b u) s.log := by
  rw [h.aoi]
  exact Standing.foldl_iff
    (Q := fun s : Aoi.Raw.State Id Nat Num => ∃ o, s.OBJ u = some o ∧ o.agent = b)
    (R := fun _ => Request.Registers b u) (by simp [Aoi.Raw.State.init])
    (fun _ _ hrequest => Request.WF.obj_iff hrequest b) hwf

omit [DecidableEq Fd] in
theorem Inv.reported_iff (h : Inv arith loadid s) (hwf : ∀ request ∈ s.log, request.WF u)
    : (∃ mode, Aoi.Raw.lastMode s.aoi.texts u = some mode ∧ mode ≠ ['d'])
        ↔
      Standing (Request.LeavesFor u)
        (fun past => Request.Reports arith u (past.foldl (Request.handle arith) .init)) s.log := by
  have hinit : ¬∃ mode, Aoi.Raw.lastMode (.init : Aoi.Raw.State Id Nat Num).texts u = some mode
      ∧ mode ≠ ['d'] := by
    rintro ⟨mode, hmode, -⟩
    simp [Aoi.Raw.State.init, Aoi.Raw.lastMode] at hmode
  rw [h.aoi]
  exact Standing.foldl_iff
    (Q := fun s : Aoi.Raw.State Id Nat Num =>
      ∃ mode, Aoi.Raw.lastMode s.texts u = some mode ∧ mode ≠ ['d'])
    (R := fun s request => request.Reports arith u s) hinit
    (fun _ _ hrequest => Request.WF.mode_iff hrequest) hwf

omit [DecidableEq Fd] in
theorem Inv.left_of_registers (h : Inv arith loadid s) (hquiet : s.Quiet)
    (hagain : LoggedInAgain loadid s u b) {a : Nat} (hne : a ≠ b) (hdrops : (s.agents a).Drops)
    {before after : List (Request Id Num)} {enter : Request Id Num}
    (hlog : s.log = before ++ enter :: after) (henter : enter.Registers a u)
    : ∃ leave ∈ after, leave.LeavesFor u := by
  have hrequests : s.requests = s.log := by simp [requests, hquiet.mail]
  have hmem : enter ∈ s.requests := by simp [hrequests, hlog]
  obtain ⟨-, client, uid, hstart, hid⟩ := (h.agents a).moved enter hmem u henter.entersFor
  have ha := h.fresh a (.started client uid hstart)
  have hstage : (s.agents a).stage = .left := by
    rcases (h.agents a).told (hagain.kicked a client uid hne hstart hid) with htold | htold
    . rw [hquiet.mailbox a ha] at htold
      simp at htold
    . exact (hquiet.stage a ha).resolve_left htold
  have hfollowed := (h.agents a).followed hstage hdrops
  rw [hrequests] at hfollowed
  exact hfollowed before enter after u hlog henter.entersFor

end

end

theorem succeeds_iff_leavesFirst [DecidableEq Fd] (arith : Arith Num) (loadid : Bytes → Id)
    (config : Watchdog.Config) (actions : List (Action Id Fd Num))
    (hwf : ∀ action ∈ actions, action.WF loadid)
    (hquiet : (after arith config loadid actions).Quiet) (u : Id) (b : Nat)
    (hagain : LoggedInAgain loadid (after arith config loadid actions) u b)
    : Succeeds (after arith config loadid actions) u b
        ↔
      LeavesFirst arith (after arith config loadid actions) u b := by
  have hinv : Inv arith loadid (after arith config loadid actions) := after_inv config hwf
  generalize after arith config loadid actions = s at hquiet hagain hinv
  obtain ⟨uid, rfl⟩ : ∃ uid, loadid uid = u := by
    obtain ⟨enter, henter, henters⟩ := hagain.entered
    obtain ⟨-, client, uid, -, hid⟩ :=
      (hinv.agents b).moved enter (by simp [requests, henter]) u henters
    exact ⟨uid, hid⟩
  have hlogwf : ∀ request ∈ s.log, request.WF (loadid uid) :=
    fun request hrequest => hinv.wf request (by simp [requests, hrequest]) uid
  unfold Succeeds
  rw [hinv.registered_iff hlogwf, hinv.reported_iff hlogwf]
  constructor
  . rintro ⟨⟨before, enter, after, hlog, henter, hafter⟩, hreports⟩
    refine ⟨⟨enter, by simp [hlog], henter⟩, ?_, ?_, hreports⟩
    . intro before' leave after' hlog' hleaves
      refine ⟨enter, ?_, henter⟩
      rw [hlog] at hlog'
      apply mem_of_last hlog'
      . rintro rfl
        exact hleaves.not_registers b henter
      . intro hmem
        exact hafter leave hmem (.inl hleaves)
    . intro a hne _ before' enter' after' hlog' henter'
      refine ⟨enter, ?_, henter⟩
      rw [hlog] at hlog'
      apply mem_of_last hlog'
      . rintro rfl
        exact hne (henter'.agent_eq henter)
      . intro hmem
        exact hafter enter' hmem (.inr ⟨a, hne, henter'⟩)
  . intro hfirst
    refine ⟨?_, hfirst.reports⟩
    obtain ⟨enter, henter, hregisters⟩ := hfirst.registers
    obtain ⟨before, last, after, hlog, hlast, hafter⟩ := exists_last
      (P := fun request => request.LeavesFor (loadid uid)
        ∨ ∃ a, request.Registers a (loadid uid)) ⟨enter, henter, .inr ⟨b, hregisters⟩⟩
    rcases hlast with hleaves | ⟨a, ha⟩
    . obtain ⟨enter', henter', hregisters'⟩ := hfirst.leaves before last after hlog hleaves
      exact absurd (.inr ⟨b, hregisters'⟩) (hafter enter' henter')
    . by_cases heq : a = b
      . subst heq
        refine ⟨before, last, after, hlog, ha, ?_⟩
        rintro later hlater (hleaves | ⟨a', -, ha'⟩)
        . exact hafter later hlater (.inl hleaves)
        . exact hafter later hlater (.inr ⟨a', ha'⟩)
      . by_cases hdrops : (s.agents a).Drops
        . obtain ⟨leave, hleave, hleaves⟩ :=
            hinv.left_of_registers hquiet hagain heq hdrops hlog ha
          exact absurd (.inl hleaves) (hafter leave hleave)
        . obtain ⟨enter', henter', hregisters'⟩ :=
            hfirst.stays a heq hdrops before last after hlog ha
          exact absurd (.inr ⟨b, hregisters'⟩) (hafter enter' henter')

instance decidableEntersFor (a : Nat) (u : Id) (request : Request Id Num)
    : Decidable (request.EntersFor a u) :=
  match request with
  | .proper (.enter order req) =>
    decidable_of_iff (req.agent = a ∧ req.tempid = u) (by
      constructor
      . intro h
        exact ⟨order, req, rfl, h⟩
      . rintro ⟨order', req', heq, h⟩
        simp only [Request.proper.injEq, Aoi.Raw.Action.enter.injEq] at heq
        rwa [heq.2])
  | .proper (.leave _ _) => isFalse (by rintro ⟨order, req, ⟨⟩, -⟩)
  | .proper (.enterMonster _ _) => isFalse (by rintro ⟨order, req, ⟨⟩, -⟩)
  | .proper (.leaveMonster _ _) => isFalse (by rintro ⟨order, req, ⟨⟩, -⟩)
  | .proper (.aoicallback _ _) => isFalse (by rintro ⟨order, req, ⟨⟩, -⟩)
  | .proper .messageUpdate => isFalse (by rintro ⟨order, req, ⟨⟩, -⟩)
  | .leaveNobody _ => isFalse (by rintro ⟨order, req, ⟨⟩, -⟩)

section

def sampleArith : Arith ℚ := .exact fun _ => none

def sampleLoadid (uid : Bytes) : Nat :=
  if uid = ['u'.toUInt8] then 1000001 else 1000002

def samplePos : Value ℚ :=
  .table (.cons (.string ['x']) (.number 1) (.cons (.string ['y']) (.number 1)
    (.cons (.string ['z']) (.number 0) .nil)))

def relogin : List (Action Nat Nat ℚ) :=
  [.watchdog (.login ['u'.toUInt8] [1, 2, 3, 4, 5, 6, 7, 8]), .watchdog (.socketOpen 1),
    .watchdog (.socketData 1 Watchdog.samplePacket),
    .watchdog (.resume 1 .value (.inserted Nat)), .recv (.inserted Nat) 0, .redirect 0 samplePos,
    .recv (.inserted Nat) 0, .handle, .watchdog (.kick ['u'.toUInt8] ['1'.toUInt8]),
    .watchdog (.resume 2 .value (.inserted Nat)), .watchdog (.resume 2 .value (.inserted Nat)),
    .watchdog (.login ['u'.toUInt8] [1, 2, 3, 4, 5, 6, 7, 8]), .watchdog (.socketOpen 2),
    .watchdog (.socketData 2 Watchdog.samplePacket),
    .watchdog (.resume 3 .value (.inserted Nat)), .recv (.inserted Nat) 1]

def leaves : List (Action Nat Nat ℚ) :=
  [.recv (.inserted Nat) 0, .close 0, .answer (.inserted Nat) 0, .handle]

def moves : List (Action Nat Nat ℚ) :=
  [.redirect 1 samplePos, .recv (.inserted Nat) 1, .handle]

def sampleAfter (actions : List (Action Nat Nat ℚ)) : Game Nat Nat ℚ :=
  after sampleArith Watchdog.sampleConfig sampleLoadid actions

theorem relogin_wf : ∀ action ∈ relogin ++ leaves ++ moves, action.WF sampleLoadid := by
  simp [relogin, leaves, moves, Action.WF]

theorem quiet_of_decide {s : Game Nat Nat ℚ} (hmail : s.mail.isEmpty = true)
    (hagents : ∀ a < s.watchdog.launched, (s.agents a).mailbox.isEmpty = true
      ∧ ((s.agents a).stage = .serving ∨ (s.agents a).stage = .left))
    : s.Quiet where
  mail := List.isEmpty_iff.mp hmail
  mailbox := fun a ha => List.isEmpty_iff.mp (hagents a ha).1
  stage := fun a ha => (hagents a ha).2

theorem loggedInAgain_of_sent {s : Game Nat Nat ℚ}
    (hsent : s.watchdog.sent
      = [.accept 1, .newservice, .start 0 1 ['u'.toUInt8], .logout ['u'.toUInt8] ['1'.toUInt8],
        .kick 1, .disconnect 0, .accept 2, .newservice, .start 1 2 ['u'.toUInt8]])
    (hentered : ∃ request ∈ s.log, request.EntersFor 1 1000001)
    : LoggedInAgain sampleLoadid s 1000001 1 where
  entered := hentered
  stays := by simp [hsent]
  kicked := by
    intro a client uid hne hstart _
    simp only [hsent, List.mem_cons, Watchdog.Msg.start.injEq, reduceCtorEq, false_or,
      List.not_mem_nil, or_false] at hstart
    rcases hstart with ⟨rfl, -, -⟩ | ⟨rfl, -, -⟩
    . simp [hsent]
    . exact absurd rfl hne

theorem succeeds_iff_leavesFirst_relogin
    : (sampleAfter (relogin ++ leaves ++ moves)).Quiet
        ∧ (Succeeds (sampleAfter (relogin ++ leaves ++ moves)) 1000001 1
            ↔
          LeavesFirst sampleArith (sampleAfter (relogin ++ leaves ++ moves)) 1000001 1) := by
  have hquiet : (sampleAfter (relogin ++ leaves ++ moves)).Quiet :=
    quiet_of_decide (by decide +kernel) (by decide +kernel)
  refine ⟨hquiet, ?_⟩
  apply succeeds_iff_leavesFirst sampleArith sampleLoadid _ _ relogin_wf hquiet
  exact loggedInAgain_of_sent (by decide +kernel) (by decide +kernel)

theorem relogin_not_succeeds
    : (sampleAfter (relogin ++ moves ++ leaves)).Quiet
        ∧ LoggedInAgain sampleLoadid (sampleAfter (relogin ++ moves ++ leaves)) 1000001 1
        ∧ ¬Succeeds (sampleAfter (relogin ++ moves ++ leaves)) 1000001 1 := by
  refine ⟨?_, ?_, ?_⟩
  . exact quiet_of_decide (by decide +kernel) (by decide +kernel)
  . exact loggedInAgain_of_sent (by decide +kernel) (by decide +kernel)
  . rintro ⟨⟨o, hobj, -⟩, -⟩
    have hnone : ((sampleAfter (relogin ++ moves ++ leaves)).aoi.OBJ 1000001).isNone = true := by
      decide +kernel
    rw [hobj] at hnone
    simp at hnone

end

end Game
