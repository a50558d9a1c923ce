import SkynetAoi.Aoi.Registry
import SkynetAoi.Game.Basic
import SkynetAoi.Watchdog.Lemmas

/-!
This module contains what one agent does: it lets its client come to the map until it is told to
disconnect, and then it leaves.
-/

namespace Game

open Lua (Value Arith)

variable {Id Fd Num : Type}

def Letter.isMove (letter : Letter Fd Num) : Bool :=
  match letter with
  | .move _ => true
  | _ => false

def Request.EntersFor (a : Nat) (tempid : Id) (request : Request Id Num) : Prop :=
  ∃ order req, request = .proper (.enter order req) ∧ req.agent = a ∧ req.tempid = tempid

def Request.LeavesFor (tempid : Id) (request : Request Id Num) : Prop :=
  ∃ order req, request = .proper (.leave order req) ∧ req.tempid = tempid
    ∧ Aoi.Raw.writable req.pos = true

/--
The position that the agent has kept can be packed for its `leave`, and written there.
-/
def Agent.Drops (agent : Agent Id Fd Num) : Prop :=
  2 + agent.POS.depth ≤ Aoi.Raw.maxDepth ∧ Aoi.Raw.writable agent.POS = true

def requests (s : Game Id Fd Num) : List (Request Id Num) := s.log ++ s.mail

/--
Whatever the agent has let come to the map is followed by a `leave`.
-/
def Followed (requests : List (Request Id Num)) (a : Nat) : Prop :=
  ∀ before request after tempid, requests = before ++ request :: after →
    request.EntersFor a tempid → ∃ request' ∈ after, request'.LeavesFor tempid

theorem Followed.append {requests : List (Request Id Num)} {a : Nat} (h : Followed requests a)
    {request : Request Id Num} (hother : ∀ tempid, ¬request.EntersFor a tempid)
    : Followed (requests ++ [request]) a := by
  intro before enter after tempid heq henters
  rcases append_singleton_eq_append_cons heq with ⟨-, rfl, -⟩ | ⟨after, rfl, hrequests⟩
  . exact absurd henters (hother tempid)
  . obtain ⟨leave, hleave, hleaves⟩ := h before enter after tempid hrequests henters
    exact ⟨leave, by simp [hleave], hleaves⟩

theorem Followed.leave {requests : List (Request Id Num)} {a : Nat} {request : Request Id Num}
    (h : ∀ enter ∈ requests, ∀ tempid, enter.EntersFor a tempid → request.LeavesFor tempid)
    (hother : ∀ tempid, ¬request.EntersFor a tempid) : Followed (requests ++ [request]) a := by
  intro before enter after tempid heq henters
  rcases append_singleton_eq_append_cons heq with ⟨-, rfl, -⟩ | ⟨after, rfl, hrequests⟩
  . exact absurd henters (hother tempid)
  . refine ⟨request, by simp, h enter ?_ tempid henters⟩
    rw [hrequests]
    simp

theorem leaveRequest_cases {order : PairsOrder Id} {a : Nat} {agent : Agent Id Fd Num}
    {request : Request Id Num} (h : leaveRequest order a agent = some request)
    : (∃ tempid req, agent.UID = some tempid ∧ request = .proper (.leave order req)
          ∧ req.tempid = tempid ∧ req.pos = agent.POS)
        ∨ agent.UID = none ∧ request = .leaveNobody a := by
  unfold leaveRequest at h
  split at h
  . split at h
    . next tempid huid =>
      rw [Option.some.injEq] at h
      exact .inl ⟨tempid, _, huid, h.symm, rfl, rfl⟩
    . next huid =>
      rw [Option.some.injEq] at h
      exact .inr ⟨huid, h.symm⟩
  . simp at h

theorem leaveRequest_not_enters {order : PairsOrder Id} {a : Nat} {agent : Agent Id Fd Num}
    {request : Request Id Num} (h : leaveRequest order a agent = some request) (a' : Nat)
    (tempid : Id) : ¬request.EntersFor a' tempid := by
  rintro ⟨order', req', heq, -⟩
  rcases leaveRequest_cases h with ⟨_, req, -, rfl, -⟩ | ⟨-, rfl⟩
  . simp at heq
  . simp at heq

/--
What holds of one agent, with the messages that the watchdog has sent and the requests to the map
service.
-/
structure AgentInv (loadid : Bytes → Id) (sent : List (Watchdog.Msg Fd))
    (requests : List (Request Id Num)) (a : Nat) (agent : Agent Id Fd Num) : Prop where
  uid : ∀ tempid, agent.UID = some tempid →
    ∃ client uid, .start a client uid ∈ sent ∧ loadid uid = tempid
  start : ∀ client uid, .start client uid ∈ agent.mailbox → .start a client uid ∈ sent
  told : .disconnect a ∈ sent → .disconnect ∈ agent.mailbox ∨ agent.stage ≠ .serving
  untold : .disconnect a ∉ sent → .disconnect ∉ agent.mailbox ∧ agent.stage = .serving
  ordered : agent.mailbox.Pairwise fun letter later =>
    letter = .disconnect → Letter.isMove later = false
  still : agent.stage ≠ .serving → ∀ letter ∈ agent.mailbox, Letter.isMove letter = false
  moved : ∀ request ∈ requests, ∀ tempid, request.EntersFor a tempid →
    agent.UID.isSome = true
      ∧ ∃ client uid, .start a client uid ∈ sent ∧ loadid uid = tempid
  followed : agent.stage = .left → agent.Drops → Followed requests a

namespace AgentInv

variable {loadid : Bytes → Id} {sent : List (Watchdog.Msg Fd)} {requests : List (Request Id Num)}
variable {a : Nat} {agent : Agent Id Fd Num}

theorem init : AgentInv loadid [] [] a (⟨none, .nil, none, .serving, []⟩ : Agent Id Fd Num) where
  uid := by simp
  start := by simp
  told := by simp
  untold := by simp
  ordered := .nil
  still := by simp
  moved := by simp
  followed := by simp

theorem send (h : AgentInv loadid sent requests a agent) {msg : Watchdog.Msg Fd}
    (hother : msg ≠ .disconnect a) : AgentInv loadid (sent ++ [msg]) requests a agent where
  uid := by
    intro tempid htempid
    obtain ⟨client, uid, hstart, hid⟩ := h.uid tempid htempid
    exact ⟨client, uid, by simp [hstart], hid⟩
  start := by
    intro client uid hletter
    simp [h.start client uid hletter]
  told := by
    intro htold
    rw [List.mem_append, List.mem_singleton] at htold
    rcases htold with htold | htold
    . exact h.told htold
    . exact absurd htold.symm hother
  untold := by
    intro huntold
    rw [List.mem_append, not_or] at huntold
    exact h.untold huntold.1
  ordered := h.ordered
  still := h.still
  moved := by
    intro request hrequest tempid henters
    obtain ⟨huid, client, uid, hstart, hid⟩ := h.moved request hrequest tempid henters
    exact ⟨huid, client, uid, by simp [hstart], hid⟩
  followed := h.followed

theorem letter (h : AgentInv loadid sent requests a agent) {letter : Letter Fd Num}
    (hstart : ∀ client uid, letter = .start client uid → .start a client uid ∈ sent)
    (hdisconnect : letter ≠ .disconnect) (hmove : letter.isMove = true → .disconnect a ∉ sent)
    : AgentInv loadid sent requests a
        { agent with mailbox := agent.mailbox ++ [letter] } where
  uid := h.uid
  start := by
    intro client uid hletter
    rw [List.mem_append, List.mem_singleton] at hletter
    rcases hletter with hletter | hletter
    . exact h.start client uid hletter
    . exact hstart client uid hletter.symm
  told := by
    intro htold
    rcases h.told htold with hmailbox | hstage
    . exact .inl (by simp [hmailbox])
    . exact .inr hstage
  untold := by
    intro huntold
    obtain ⟨hmailbox, hstage⟩ := h.untold huntold
    refine ⟨?_, hstage⟩
    rw [List.mem_append, List.mem_singleton, not_or]
    exact ⟨hmailbox, Ne.symm hdisconnect⟩
  ordered := by
    rw [List.pairwise_append]
    refine ⟨h.ordered, List.pairwise_singleton _ _, ?_⟩
    intro earlier hearlier later hlater heq
    rw [List.mem_singleton] at hlater
    rw [hlater, ← Bool.not_eq_true]
    intro hmoves
    rw [heq] at hearlier
    exact (h.untold (hmove hmoves)).1 hearlier
  still := by
    intro hstage later hlater
    rw [List.mem_append, List.mem_singleton] at hlater
    rcases hlater with hlater | hlater
    . exact h.still hstage later hlater
    . rw [hlater, ← Bool.not_eq_true]
      intro hmoves
      exact hstage (h.untold (hmove hmoves)).2
  moved := h.moved
  followed := h.followed

theorem disconnect (h : AgentInv loadid sent requests a agent)
    : AgentInv loadid (sent ++ [.disconnect a]) requests a
        { agent with mailbox := agent.mailbox ++ [.disconnect] } where
  uid := by
    intro tempid htempid
    obtain ⟨client, uid, hstart, hid⟩ := h.uid tempid htempid
    exact ⟨client, uid, by simp [hstart], hid⟩
  start := by
    intro client uid hletter
    have : .start client uid ∈ agent.mailbox := by simpa using hletter
    simp [h.start client uid this]
  told := fun _ => .inl (by simp)
  untold := by
    intro huntold
    simp at huntold
  ordered := by
    rw [List.pairwise_append]
    refine ⟨h.ordered, List.pairwise_singleton _ _, ?_⟩
    intro earlier _ later hlater _
    rw [List.mem_singleton] at hlater
    rw [hlater]
    rfl
  still := by
    intro hstage later hlater
    rw [List.mem_append, List.mem_singleton] at hlater
    rcases hlater with hlater | hlater
    . exact h.still hstage later hlater
    . rw [hlater]
      rfl
  moved := by
    intro request hrequest tempid henters
    obtain ⟨huid, client, uid, hstart, hid⟩ := h.moved request hrequest tempid henters
    exact ⟨huid, client, uid, by simp [hstart], hid⟩
  followed := h.followed

theorem deliver {agents : Nat → Agent Id Fd Num} (h : ∀ a, AgentInv loadid sent requests a (agents a))
    (msg : Watchdog.Msg Fd) (a : Nat)
    : AgentInv loadid (sent ++ [msg]) requests a (Game.deliver agents msg a) := by
  cases msg with
  | start a' client uid =>
    have hother : Watchdog.Msg.start a' client uid ≠ .disconnect a := by simp
    have hsend := (h a).send hother
    simp only [Game.deliver]
    rw [Function.update_apply]
    split
    . next heq =>
      subst heq
      apply hsend.letter
      . rintro client' uid' ⟨⟩
        simp
      . simp
      . simp [Letter.isMove]
    . exact hsend
  | disconnect a' =>
    simp only [Game.deliver]
    rw [Function.update_apply]
    split
    . next heq =>
      subst heq
      exact (h a).disconnect
    . next hne => exact (h a).send (by simpa using Ne.symm hne)
  | accept fd => exact (h a).send (by simp)
  | kick fd => exact (h a).send (by simp)
  | logout uid lastSubid => exact (h a).send (by simp)
  | newservice => exact (h a).send (by simp)

theorem deliverAll {agents : Nat → Agent Id Fd Num}
    (h : ∀ a, AgentInv loadid sent requests a (agents a)) (msgs : List (Watchdog.Msg Fd)) (a : Nat)
    : AgentInv loadid (sent ++ msgs) requests a (msgs.foldl Game.deliver agents a) := by
  induction msgs generalizing sent agents with
  | nil => simpa using h a
  | cons msg msgs ih =>
    rw [List.append_cons]
    exact ih (deliver h msg)

theorem post (h : AgentInv loadid sent requests a agent) {request : Request Id Num}
    (hother : ∀ tempid, ¬request.EntersFor a tempid)
    : AgentInv loadid sent (requests ++ [request]) a agent where
  uid := h.uid
  start := h.start
  told := h.told
  untold := h.untold
  ordered := h.ordered
  still := h.still
  moved := by
    intro request' hrequest tempid henters
    rw [List.mem_append, List.mem_singleton] at hrequest
    rcases hrequest with hrequest | rfl
    . exact h.moved request' hrequest tempid henters
    . exact absurd henters (hother tempid)
  followed := fun hleft hdrops => (h.followed hleft hdrops).append hother

theorem tail (h : AgentInv loadid sent requests a agent) {letter : Letter Fd Num}
    {mailbox : List (Letter Fd Num)} (hmailbox : agent.mailbox = letter :: mailbox)
    (hdisconnect : letter ≠ .disconnect)
    : AgentInv loadid sent requests a { agent with mailbox := mailbox } where
  uid := h.uid
  start := by
    intro client' uid' hletter
    exact h.start client' uid' (by simp [hmailbox, hletter])
  told := by
    intro htold
    simpa [hmailbox, Ne.symm hdisconnect] using h.told htold
  untold := by
    intro huntold
    simpa [hmailbox, Ne.symm hdisconnect] using h.untold huntold
  ordered := by
    have := h.ordered
    rw [hmailbox] at this
    exact this.of_cons
  still := by
    intro hstage letter hletter
    exact h.still hstage letter (by simp [hmailbox, hletter])
  moved := h.moved
  followed := h.followed

theorem load (h : AgentInv loadid sent requests a agent) {client : Fd} {uid : Bytes}
    (hstart : .start a client uid ∈ sent)
    : AgentInv loadid sent requests a
        { agent with UID := some (loadid uid), clientFd := some client } where
  uid := by
    rintro tempid ⟨⟩
    exact ⟨client, uid, hstart, rfl⟩
  start := h.start
  told := h.told
  untold := h.untold
  ordered := h.ordered
  still := h.still
  moved := by
    intro request hrequest tempid henters
    exact ⟨rfl, (h.moved request hrequest tempid henters).2⟩
  followed := h.followed

theorem keep (h : AgentInv loadid sent requests a agent) (hstage : agent.stage = .serving)
    (pos : Value Num) : AgentInv loadid sent requests a { agent with POS := pos } where
  uid := h.uid
  start := h.start
  told := h.told
  untold := h.untold
  ordered := h.ordered
  still := h.still
  moved := h.moved
  followed := by simp [hstage]

theorem move (h : AgentInv loadid sent requests a agent) {tempid : Id}
    (huid : agent.UID = some tempid) (hstage : agent.stage = .serving) (order : PairsOrder Id)
    (req : Aoi.Raw.Request Id Nat Num) (hreq : req.tempid = tempid)
    : AgentInv loadid sent (requests ++ [.proper (.enter order req)]) a agent where
  uid := h.uid
  start := h.start
  told := h.told
  untold := h.untold
  ordered := h.ordered
  still := h.still
  moved := by
    intro request hmem tempid' henters
    refine ⟨by simp [huid], ?_⟩
    rw [List.mem_append, List.mem_singleton] at hmem
    rcases hmem with hmem | rfl
    . exact (h.moved request hmem tempid' henters).2
    . obtain ⟨order', req', heq, -, htempid⟩ := henters
      simp only [Request.proper.injEq, Aoi.Raw.Action.enter.injEq] at heq
      rw [← htempid, ← heq.2, hreq]
      exact h.uid tempid huid
  followed := by simp [hstage]

theorem closing (h : AgentInv loadid sent requests a agent) {mailbox : List (Letter Fd Num)}
    (hmailbox : agent.mailbox = .disconnect :: mailbox)
    : AgentInv loadid sent requests a { agent with mailbox := mailbox, stage := .closing } where
  uid := h.uid
  start := by
    intro client' uid' hletter
    exact h.start client' uid' (by simp [hmailbox, hletter])
  told := fun _ => .inr (by simp)
  untold := by
    intro huntold
    have := (h.untold huntold).1
    simp [hmailbox] at this
  ordered := by
    have := h.ordered
    rw [hmailbox] at this
    exact this.of_cons
  still := by
    intro _ letter hletter
    have := h.ordered
    rw [hmailbox, List.pairwise_cons] at this
    exact this.1 letter hletter rfl
  moved := h.moved
  followed := by simp

theorem setStage (h : AgentInv loadid sent requests a agent) (hstage : agent.stage ≠ .serving)
    {stage : Stage} (hnew : stage ≠ .serving)
    (hfollowed : stage = .left → agent.Drops → Followed requests a)
    : AgentInv loadid sent requests a { agent with stage := stage } where
  uid := h.uid
  start := h.start
  told := fun _ => .inr hnew
  untold := fun huntold => absurd (h.untold huntold).2 hstage
  ordered := h.ordered
  still := fun _ => h.still hstage
  moved := h.moved
  followed := hfollowed

theorem left (h : AgentInv loadid sent requests a agent) (hstage : agent.stage = .closed)
    (hone : Watchdog.OneStart sent) {order : PairsOrder Id} {request : Request Id Num}
    (hrequest : leaveRequest order a agent = some request)
    : AgentInv loadid sent (requests ++ [request]) a { agent with stage := .left } := by
  have hpost := h.post (leaveRequest_not_enters hrequest a)
  refine hpost.setStage (by simp [hstage]) (by simp) fun _ hdrops => ?_
  apply Followed.leave _ (leaveRequest_not_enters hrequest a)
  intro enter hmem tempid henters
  obtain ⟨huid, client, uid, hstart, hid⟩ := h.moved enter hmem tempid henters
  rcases leaveRequest_cases hrequest with ⟨tempid', req, huid', rfl, htempid, hpos⟩ | ⟨hnone, -⟩
  . obtain ⟨client', uid', hstart', hid'⟩ := h.uid tempid' huid'
    refine ⟨order, req, rfl, ?_, ?_⟩
    . rw [htempid, ← hid, ← hid', hone a client client' uid uid' hstart hstart']
    . rw [hpos]
      exact hdrops.2
  . rw [hnone] at huid
    simp at huid

theorem stay (h : AgentInv loadid sent requests a agent) (hstage : agent.stage = .closed)
    {order : PairsOrder Id} (hrequest : leaveRequest order a agent = none)
    : AgentInv loadid sent requests a { agent with stage := .left } := by
  refine h.setStage (by simp [hstage]) (by simp) fun _ hdrops => ?_
  unfold leaveRequest at hrequest
  rw [dif_pos hdrops.1] at hrequest
  split at hrequest
  . simp at hrequest
  . simp at hrequest

end AgentInv

end Game
