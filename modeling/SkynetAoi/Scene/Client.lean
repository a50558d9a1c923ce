import SkynetAoi.Aoi.Notify
import SkynetAoi.Scene.Near

/-!
This module contains when the client of a player knows exactly who the player has in sight. An
`aoicallback` between two players tells only one of them and relies on the callback the other way
round, which must not be gone by then.
-/

namespace Scene

variable {Agent : Type} {kind : UInt32 → Aoi.CharType} {owner : Agent → Option UInt32}

def OwnedObj (owner : Agent → Option UInt32) (obj : Aoi.Obj UInt32 Agent) : Prop :=
  owner obj.agent = if obj.type = .player then some obj.tempid else none

def Action.Owned (owner : Agent → Option UInt32) (action : Action Agent) : Prop :=
  match action with
  | .enter _ obj => OwnedObj owner obj
  | _ => True

def RequestOwned (owner : Agent → Option UInt32) (request : Aoi.Action UInt32 Agent) : Prop :=
  match request with
  | .enter _ obj => OwnedObj owner obj
  | _ => True

/--
The marker of a callback between two players has the watcher in sight or is about to learn of it by
the callback the other way round, and no monster changes flags in a walk that raises.
-/
def Mirrored (s : Scene Agent) (request : Aoi.Action UInt32 Agent) : Prop :=
  match request with
  | .aoicallback w m =>
    ∀ ow om, s.aoi.OBJ w = some ow → s.aoi.OBJ m = some om → om.type = .player →
      s.aoi.getView .player m w = some true ∨ s.Coming m w
  | .enter _ obj => Aoi.MonsterStays s.aoi obj
  | _ => True

variable [DecidableEq Agent]

def known (s : Scene Agent) (agent : Agent) (since : Nat) : Finset UInt32 :=
  Aoi.client agent ∅ (s.aoi.sent.drop since)

def ClientAgrees (s : Scene Agent) : Prop :=
  ∀ (p : UInt32) (o : Aoi.Obj UInt32 Agent) (since : Nat) (k : UInt32), s.aoi.OBJ p = some o →
    o.type = .player → s.arrival p = some (o.agent, since) →
    (k ∈ s.known o.agent since ↔ s.aoi.getView .player p k = some true)

/--
The client of a player knows nobody who is not in sight, and of whoever is in sight and not known it
will learn by a callback on its way.
-/
structure Informed (owner : Agent → Option UInt32) (s : Scene Agent) : Prop where
  requests : ∀ request ∈ s.mail, RequestOwned owner request
  owned : Aoi.Owned owner s.aoi
  arrival : ∀ (p : UInt32) (agent : Agent) (since : Nat), s.arrival p = some (agent, since) →
    since ≤ s.aoi.sent.length ∧ ∃ o, s.aoi.OBJ p = some o ∧ o.agent = agent
  client : ∀ (p : UInt32) (o : Aoi.Obj UInt32 Agent) (since : Nat) (k : UInt32),
    s.aoi.OBJ p = some o → o.type = .player → s.arrival p = some (o.agent, since) →
    (k ∈ s.known o.agent since → s.aoi.getView .player p k = some true)
      ∧ (s.aoi.getView .player p k = some true → k ∉ s.known o.agent since →
        s.Coming p k)

namespace Informed

variable {s : Scene Agent}

theorem init : Informed owner (Scene.init : Scene Agent) where
  requests := by simp [Scene.init]
  owned := by
    intro id o ho
    simp [Scene.init, Aoi.State.init] at ho
  arrival := by simp [Scene.init]
  client := by
    intro p o since k ho
    simp [Scene.init, Aoi.State.init] at ho

theorem agrees (h : Informed owner s) (hq : Quiescent s) : ClientAgrees s := by
  intro p o since k hp htype harrival
  obtain ⟨hsound, hpending⟩ := h.client p o since k hp htype harrival
  refine ⟨hsound, ?_⟩
  intro hget
  by_contra hnot
  exact hq.not_coming p k (hpending hget hnot)

theorem known_append {s' : Scene Agent} {since : Nat} (hsince : since ≤ s.aoi.sent.length)
    {msgs : List (Aoi.Dest Agent × Aoi.Msg UInt32 Agent)} (hsent : s'.aoi.sent = s.aoi.sent ++ msgs)
    (agent : Agent) : s'.known agent since = Aoi.client agent (s.known agent since) msgs := by
  unfold known
  rw [hsent, List.drop_append_of_le_length hsince, Aoi.client_append]

theorem mono (h : Informed owner s) (s' : Scene Agent) (haoi : s'.aoi = s.aoi)
    (harrival : s'.arrival = s.arrival)
    (hrequests : ∀ request ∈ s'.mail, RequestOwned owner request)
    (hcoming : ∀ w m, s.Coming w m → s'.Coming w m) : Informed owner s' where
  requests := hrequests
  owned := by
    rw [haoi]
    exact h.owned
  arrival := by
    rw [haoi, harrival]
    exact h.arrival
  client := by
    intro p o since k
    unfold known
    rw [haoi, harrival]
    intro hp htype hsince
    obtain ⟨hsound, hpending⟩ := h.client p o since k hp htype hsince
    exact ⟨hsound, fun hget hnot => hcoming p k (hpending hget hnot)⟩

theorem receive_tells (h : Informed owner s) (hinv : Inv kind s)
    {request : Aoi.Action UInt32 Agent} {mail : List (Aoi.Action UInt32 Agent)}
    (hmail : s.mail = request :: mail) (hrequest : ∀ w m, request ≠ .aoicallback w m)
    (hown : Aoi.Owned owner (s.receive request mail).aoi)
    (harrive : ∀ p agent since, s.arrive request p = some (agent, since) →
      (∃ o, (s.receive request mail).aoi.OBJ p = some o ∧ o.agent = agent)
        ∧ (s.arrival p = some (agent, since)
          ∨ since = (s.receive request mail).aoi.sent.length
            ∧ ∀ k, (s.receive request mail).aoi.getView .player p k = none))
    (htells : Aoi.TellsAll s.aoi (s.receive request mail).aoi)
    : Informed owner (s.receive request mail) := by
  have hinv' := hinv.receive hmail
  obtain ⟨msgs, hsent, htells⟩ := htells
  refine ⟨?_, hown, ?_, ?_⟩
  . intro request' hmem
    apply h.requests
    rw [hmail]
    exact List.mem_cons_of_mem request hmem
  . intro p agent since hsince
    obtain ⟨hobj, hcase⟩ := harrive p agent since hsince
    refine ⟨?_, hobj⟩
    rcases hcase with hold | ⟨hfresh, -⟩
    . have := (h.arrival p agent since hold).1
      rw [hsent, List.length_append]
      omega
    . omega
  . intro p o since k hp htype hsince
    rcases (harrive p o.agent since hsince).2 with hold | ⟨hfresh, hnone⟩
    . obtain ⟨hle, o0, hp0, hagent⟩ := h.arrival p o.agent since hold
      have htype0 : o0.type = .player := by
        rw [(hinv.tables.obj p o0 hp0).2.1, ← (hinv'.tables.obj p o hp).2.1, htype]
      rw [← hagent] at hold
      obtain ⟨hsound, hpending⟩ := h.client p o0 since k hp0 htype0 hold
      rw [hagent] at hsound hpending
      rw [known_append hle hsent]
      obtain ⟨hsound', hpending'⟩ :=
        (htells p o k (by rw [hp0]; rfl) hp htype).client hsound
      refine ⟨hsound', ?_⟩
      intro hget hnot
      obtain ⟨hgetold, hnotold⟩ := hpending' hget hnot
      -- The callback that is to come is not the one request that was taken out.
      rcases (hpending hgetold hnotold).receive hmail with heq | hcoming
      . exact absurd heq (hrequest p k)
      . exact hcoming
    . unfold known
      rw [hfresh, List.drop_length, hnone]
      simp [Aoi.client]

theorem receive_aoicallback (h : Informed owner s) (hinv : Inv kind s) {w m : UInt32}
    {mail : List (Aoi.Action UInt32 Agent)} (hmail : s.mail = .aoicallback w m :: mail)
    (hmirrored : Mirrored s (.aoicallback w m))
    : Informed owner (s.receive (.aoicallback w m) mail) := by
  have hwf := hinv.head hmail
  obtain ⟨aoi, hcallback, -, hresult⟩ := Aoi.aoicallback_spec hinv.tables hwf.1.1 hwf.1.2
  have haoi := s.receive_of_ok (.aoicallback w m) mail hcallback
  have harrival : (s.receive (.aoicallback w m) mail).arrival = s.arrival := rfl
  have hrequests : ∀ request ∈ mail, RequestOwned owner request := by
    intro request hmem
    apply h.requests
    rw [hmail]
    exact List.mem_cons_of_mem _ hmem
  cases hresult with
  | ignored hnone =>
    refine ⟨hrequests, ?_, ?_, ?_⟩
    . rw [haoi]
      exact h.owned
    . rw [haoi]
      exact h.arrival
    . intro p o since k hp htype hsince
      unfold known
      rw [haoi] at hp ⊢
      obtain ⟨hsound, hpending⟩ := h.client p o since k hp htype hsince
      refine ⟨hsound, ?_⟩
      intro hget hnot
      rcases (hpending hget hnot).receive hmail with heq | hcoming
      . -- Whoever is in sight is there.
        rw [Aoi.Action.aoicallback.injEq] at heq
        rw [heq.1, heq.2, hp] at hnone
        have hlive := (hinv.tables.mirror p k true hget).2.1
        rcases hnone with hnone | hnone
        . simp at hnone
        . rw [hnone] at hlive
          simp at hlive
      . exact hcoming
  | sighted _ ow om how hom hs =>
    obtain ⟨msgs, hsent, htells⟩ := hs.tells hinv.tables h.owned hwf.1.1 how hom
    have hsent' : (s.receive (.aoicallback w m) mail).aoi.sent = s.aoi.sent ++ msgs := by
      rw [haoi]
      exact hsent
    refine ⟨hrequests, ?_, ?_, ?_⟩
    . rw [haoi]
      intro id o ho
      rw [hs.OBJ] at ho
      exact h.owned id o ho
    . rw [haoi, hs.OBJ, hsent, List.length_append]
      intro p agent since hsince
      obtain ⟨hle, hobj⟩ := h.arrival p agent since hsince
      exact ⟨by omega, hobj⟩
    . intro p o since k hp htype hsince
      have hle := (h.arrival p o.agent since hsince).1
      rw [known_append hle hsent', haoi]
      rw [haoi, hs.OBJ] at hp
      obtain ⟨hsound, hpending⟩ := h.client p o since k hp htype hsince
      obtain ⟨hadds, htells⟩ := htells p o k hp htype
      by_cases hmarker : p = m ∧ k = w ∧ s.aoi.getView .player m w ≠ some true
      . -- The marker is not told, the callback the other way round is still to come.
        obtain ⟨rfl, rfl, hget⟩ := hmarker
        have hkindp : kind p = .player := by rw [← (hinv.tables.obj p o hp).2.1, htype]
        have hnew : aoi.getView .player p k = some true := by
          rw [hs.get, if_pos]
          rw [hkindp]
          exact ⟨rfl, Or.inr ⟨rfl, rfl⟩⟩
        refine ⟨fun _ => hnew, ?_⟩
        intro _ _
        rcases hmirrored ow o how hp htype with hseen | hcoming
        . exact absurd hseen hget
        . rcases hcoming.receive hmail with heq | hcoming
          . rw [Aoi.Action.aoicallback.injEq] at heq
            exact absurd heq.1 hwf.1.2
          . exact hcoming
      . have htells := htells (by
          intro hpm hkw
          by_contra hget
          exact hmarker ⟨hpm, hkw, hget⟩)
        obtain ⟨hsound', hpending'⟩ := htells.client hsound
        refine ⟨hsound', ?_⟩
        intro hget hnot
        obtain ⟨hgetold, hnotold⟩ := hpending' hget hnot
        rcases (hpending hgetold hnotold).receive hmail with heq | hcoming
        . -- The watcher has just been told.
          rw [Aoi.Action.aoicallback.injEq] at heq
          exfalso
          apply hnot
          rw [Aoi.mem_client_of_no_removes (fun hremoves => htells.removes hremoves hget)]
          exact Or.inr (hadds heq.1.symm heq.2.symm)
        . exact hcoming

theorem receive_enter (h : Informed owner s) (hinv : Inv kind s) {order : PairsOrder UInt32}
    {obj : Aoi.Obj UInt32 Agent} {mail : List (Aoi.Action UInt32 Agent)}
    (hmail : s.mail = .enter order obj :: mail) (hstays : Aoi.MonsterStays s.aoi obj)
    : Informed owner (s.receive (.enter order obj) mail) := by
  have hmem : .enter order obj ∈ s.mail := by
    rw [hmail]
    simp
  have hwf := hinv.mail _ hmem
  have hobj : OwnedObj owner obj := h.requests _ hmem
  have hresult := (Aoi.enter_spec hinv.tables order hwf.1).2
  have htells := hresult.tellsAll hinv.tables h.owned hwf.1 hobj hstays
  have hstored := hresult.obj
  have hfresh : s.aoi.OBJ obj.tempid = none →
      (Aoi.outcome (Aoi.enter order obj s.aoi)).sent = s.aoi.sent
        ∧ ∀ k, (Aoi.outcome (Aoi.enter order obj s.aoi)).getView .player obj.tempid k = none := by
    intro hnone
    generalize Aoi.enter order obj s.aoi = result at hresult
    cases hresult with
    | fresh s' hnew hobj hget htexts hneed hsent =>
      refine ⟨hsent, ?_⟩
      intro k
      simp only [Aoi.outcome]
      rw [hget]
      cases hv : s.aoi.getView .player obj.tempid k with
      | none => rfl
      | some v =>
        rw [← hinv.tables.player_of_getView hv] at hv
        have hlive := hinv.tables.live_of_getView hv
        rw [hnone] at hlive
        simp at hlive
    | player s1 hold htype hmoved => simp [hnone] at hold
    | unseen hold htype hview => simp [hnone] at hold
    | monster s1 done hold htype hdone hlive hmoved htells => simp [hnone] at hold
    | raised s1 done hold htype hlost hdone hmoved hsent => simp [hnone] at hold
  apply h.receive_tells hinv hmail (by simp)
  . intro id o ho
    exact h.owned.store hobj id o (hstored ▸ ho)
  . intro p agent since hsince
    have hother : p ≠ obj.tempid → s.arrival p = some (agent, since) →
        (∃ o, (s.receive (.enter order obj) mail).aoi.OBJ p = some o ∧ o.agent = agent)
          ∧ (s.arrival p = some (agent, since)
            ∨ since = (s.receive (.enter order obj) mail).aoi.sent.length
              ∧ ∀ k, (s.receive (.enter order obj) mail).aoi.getView .player p k = none) := by
      intro hne hold
      obtain ⟨-, o, hp, hagent⟩ := h.arrival p agent since hold
      refine ⟨⟨o, ?_, hagent⟩, Or.inl hold⟩
      have : (Aoi.outcome (Aoi.enter order obj s.aoi)).OBJ p = some o := by
        rw [hstored, Aoi.State.store_obj, if_neg hne]
        exact hp
      exact this
    have hself : (Aoi.outcome (Aoi.enter order obj s.aoi)).OBJ obj.tempid = some obj := by
      rw [hstored, Aoi.State.store_obj, if_pos rfl]
    unfold arrive at hsince
    dsimp only at hsince
    cases hold : s.aoi.OBJ obj.tempid with
    | none =>
      rw [hold] at hsince
      dsimp only at hsince
      rw [Function.update_apply] at hsince
      split at hsince
      . next heq =>
        rw [Option.some.injEq, Prod.mk.injEq] at hsince
        rw [heq]
        refine ⟨⟨obj, hself, hsince.1⟩, Or.inr ⟨?_, (hfresh hold).2⟩⟩
        rw [← hsince.2, ← (hfresh hold).1]
        rfl
      . next hne => exact hother hne hsince
    | some old =>
      rw [hold] at hsince
      dsimp only at hsince
      rw [Function.update_apply] at hsince
      split at hsince
      . next heq =>
        rw [Option.filter_eq_some_iff, decide_eq_true_eq] at hsince
        rw [heq]
        exact ⟨⟨obj, hself, hsince.2.symm⟩, Or.inl hsince.1⟩
      . next hne => exact hother hne hsince
  . exact htells

theorem receive_leave (h : Informed owner s) (hinv : Inv kind s) {order : PairsOrder UInt32}
    {obj : Aoi.Obj UInt32 Agent} {mail : List (Aoi.Action UInt32 Agent)}
    (hmail : s.mail = .leave order obj :: mail) : Informed owner (s.receive (.leave order obj) mail) := by
  have hwf := hinv.head hmail
  obtain ⟨aoi, hleave, -, hleft⟩ := Aoi.leave_spec hinv.tables order hwf.1
  have haoi := s.receive_of_ok (.leave order obj) mail hleave
  apply h.receive_tells hinv hmail (by simp)
  . rw [haoi]
    intro id o ho
    rw [hleft.OBJ] at ho
    split at ho
    . simp at ho
    . exact h.owned id o ho
  . intro p agent since hsince
    unfold arrive at hsince
    dsimp only at hsince
    rw [Function.update_apply] at hsince
    split at hsince
    . simp at hsince
    . next hne =>
      obtain ⟨-, o, hp, hagent⟩ := h.arrival p agent since hsince
      refine ⟨⟨o, ?_, hagent⟩, Or.inl hsince⟩
      rw [haoi, hleft.OBJ, if_neg hne]
      exact hp
  . rw [haoi]
    exact hleft.tellsAll h.owned

theorem receive_messageUpdate (h : Informed owner s) (hinv : Inv kind s)
    {mail : List (Aoi.Action UInt32 Agent)} (hmail : s.mail = .messageUpdate :: mail)
    : Informed owner (s.receive .messageUpdate mail) := by
  have hsame : (s.receive .messageUpdate mail).aoi.OBJ = s.aoi.OBJ
      ∧ (s.receive .messageUpdate mail).aoi.sent = s.aoi.sent
      ∧ ∀ p k, (s.receive .messageUpdate mail).aoi.getView .player p k
        = s.aoi.getView .player p k := by
    unfold receive Aoi.handle Aoi.messageUpdate Aoi.outcome
    dsimp only
    split
    . exact ⟨rfl, rfl, fun _ _ => rfl⟩
    . exact ⟨rfl, rfl, fun _ _ => rfl⟩
  obtain ⟨hobj, hsent, hget⟩ := hsame
  apply h.receive_tells hinv hmail (by simp)
  . intro id o ho
    rw [hobj] at ho
    exact h.owned id o ho
  . intro p agent since hsince
    rw [hobj]
    exact ⟨(h.arrival p agent since hsince).2, Or.inl hsince⟩
  . exact .of_same hsent hget

end Informed

theorem informed_step {s s' : Scene Agent} {action : Action Agent} (hinv : Inv kind s)
    (h : Informed owner s) (howned : action.Owned owner)
    (hmirrored : action = .aoiRecv → ∀ request mail, s.mail = request :: mail → Mirrored s request)
    (hstep : Stepped kind s action s') : Informed owner s' := by
  cases hstep with
  | idle => exact h
  | post _ request hrequest =>
    have hown : RequestOwned owner request := by
      cases action with
      | enter order obj =>
        simp only [Action.request, Option.some.injEq] at hrequest
        rw [← hrequest]
        exact howned
      | leave order obj =>
        simp only [Action.request, Option.some.injEq] at hrequest
        rw [← hrequest]
        trivial
      | tick =>
        simp only [Action.request, Option.some.injEq] at hrequest
        rw [← hrequest]
        trivial
      | aoiRecv => simp [Action.request] at hrequest
      | caoiRecv => simp [Action.request] at hrequest
      | caoiSend => simp [Action.request] at hrequest
    apply h.mono (s.post request) rfl rfl
    . intro request' hmem
      unfold post at hmem
      rw [List.mem_append, List.mem_singleton] at hmem
      rcases hmem with hmem | rfl
      . exact h.requests request' hmem
      . exact hown
    . intro w m hcoming
      exact hcoming.post request
  | receive request mail hmail hwf =>
    have hmirrored := hmirrored rfl request mail hmail
    cases request with
    | enter order obj => exact h.receive_enter hinv hmail hmirrored
    | leave order obj => exact h.receive_leave hinv hmail
    | aoicallback w m => exact h.receive_aoicallback hinv hmail hmirrored
    | messageUpdate => exact h.receive_messageUpdate hinv hmail
  | report event caoi cbs hsending hevent hcbs =>
    apply h.mono (s.report caoi cbs) rfl rfl h.requests
    intro w m hcoming
    exact hcoming.report hsending caoi cbs
  | callbackmessage watcher marker rest hsending =>
    apply h.mono (s.callbackmessage watcher marker rest) rfl rfl
    . intro request hmem
      unfold callbackmessage at hmem
      rw [List.mem_append, List.mem_singleton] at hmem
      rcases hmem with hmem | rfl
      . exact h.requests request hmem
      . trivial
    . intro w m hcoming
      exact hcoming.callbackmessage hsending

theorem clientAgrees_of_mirrored (kind : UInt32 → Aoi.CharType) (owner : Agent → Option UInt32)
    (actions : List (Action Agent)) (hwf : ∀ action ∈ actions, action.WF kind)
    (howned : ∀ action ∈ actions, action.Owned owner) (hmirrored : OnReceive Mirrored actions)
    : ∀ past, past <+: actions →
        ∃ s, after past = some s ∧ (Quiescent s → ClientAgrees s) := by
  intro past hpre
  obtain ⟨s, hafter, -, h⟩ := after_invariant (P := Informed owner) Informed.init
    (fun s action s' hmem hinv hP hC hstep => informed_step hinv hP (howned action hmem) hC hstep)
    hwf hmirrored hpre
  exact ⟨s, hafter, h.agrees⟩

def sampleOwner (agent : Nat) : Option UInt32 :=
  if agent = 3 then none else some (UInt32.ofNat agent)

theorem sampleEnter_owned (id : UInt32) (x : ℚ) : (sampleEnter id x).Owned sampleOwner := by
  unfold sampleEnter Action.Owned OwnedObj sampleOwner sampleObj sampleKind
  dsimp only
  by_cases h : id = 3
  . simp [h]
  . have hnat : id.toNat ≠ 3 := by
      intro heq
      apply h
      apply UInt32.toNat_inj.mp
      rw [heq]
      rfl
    simp [h, hnat]

def mirroredNext (s : Scene Agent) : Bool :=
  match s.mail with
  | .aoicallback w m :: mail =>
    s.aoi.getView .player m w = some true
      || s.sending.contains (m, w)
      || mail.any fun request =>
        match request with
        | .aoicallback w' m' => w' = m && m' = w
        | _ => false
  | .enter _ obj :: _ => obj.type = .player
  | _ => true

omit [DecidableEq Agent] in
theorem mirrored_of_mirroredNext {s : Scene Agent} {request : Aoi.Action UInt32 Agent}
    {mail : List (Aoi.Action UInt32 Agent)} (h : s.mirroredNext = true)
    (hmail : s.mail = request :: mail) : Mirrored s request := by
  unfold mirroredNext at h
  rw [hmail] at h
  cases request with
  | enter order obj =>
    intro htype
    simp [htype] at h
  | leave order obj => trivial
  | messageUpdate => trivial
  | aoicallback w m =>
    intro ow om _ _ _
    simp only [Bool.or_eq_true, decide_eq_true_eq, List.contains_iff_mem, List.any_eq_true] at h
    rcases h with (hget | hsending) | ⟨request, hmem, hrequest⟩
    . exact Or.inl hget
    . exact Or.inr (Or.inr hsending)
    . right
      left
      rw [hmail]
      cases request with
      | aoicallback w' m' =>
        simp only [Bool.and_eq_true, decide_eq_true_eq] at hrequest
        rw [hrequest.1, hrequest.2] at hmem
        exact List.mem_cons_of_mem _ hmem
      | enter order obj => simp at hrequest
      | leave order obj => simp at hrequest
      | messageUpdate => simp at hrequest

def meeting : List (Action Nat) :=
  [sampleEnter 1 0, sampleEnter 2 0, .aoiRecv, .aoiRecv, .tick, .aoiRecv, .caoiRecv, .caoiRecv,
    .caoiRecv, .caoiSend, .caoiSend, .aoiRecv, .aoiRecv]

theorem meeting_mirrored : OnReceive Mirrored meeting := by
  apply Throughout.of_take
  intro n hn action haction _ s request mail hafter hmail
  apply mirrored_of_mirroredNext _ hmail
  have hcheck : ∀ n < 13, (after (meeting.take n)).all mirroredNext = true := by
    decide +kernel
  have := hcheck n hn
  rw [hafter] at this
  exact this

theorem meeting_wf
    : (∀ action ∈ meeting, action.WF sampleKind)
        ∧ ∀ action ∈ meeting, action.Owned sampleOwner := by
  have hvalid : ValidId 1 ∧ ValidId 2 := by
    unfold ValidId
    decide
  constructor
  . simp [meeting, sampleEnter_wf hvalid.1, sampleEnter_wf hvalid.2]
  . simp only [meeting, List.forall_mem_cons, sampleEnter_owned, true_and]
    simp [Action.Owned]

theorem clientAgrees_of_mirrored_meeting
    : OnReceive Mirrored meeting
        ∧ ∃ s, after meeting = some s ∧ (Quiescent s → ClientAgrees s) :=
  ⟨meeting_mirrored, clientAgrees_of_mirrored sampleKind sampleOwner meeting meeting_wf.1
    meeting_wf.2 meeting_mirrored meeting (List.prefix_refl meeting)⟩

def lateMirror : List (Action Nat) :=
  [sampleEnter 1 0, sampleEnter 2 0, .aoiRecv, .aoiRecv, .tick, .aoiRecv, .caoiRecv, .caoiRecv,
    .caoiRecv, .caoiSend, sampleEnter 2 10000, .caoiSend, .aoiRecv, .aoiRecv, .aoiRecv, .caoiRecv]

theorem lateMirror_wf
    : (∀ action ∈ lateMirror, action.WF sampleKind)
        ∧ ∀ action ∈ lateMirror, action.Owned sampleOwner := by
  have hvalid : ValidId 1 ∧ ValidId 2 := by
    unfold ValidId
    decide
  constructor
  . simp [lateMirror, sampleEnter_wf hvalid.1, sampleEnter_wf hvalid.2]
  . simp only [lateMirror, List.forall_mem_cons, sampleEnter_owned, true_and]
    simp [Action.Owned]

theorem lateMirror_not_agrees
    : ¬∀ (actions : List (Action Nat)), (∀ action ∈ actions, action.WF sampleKind) →
        (∀ action ∈ actions, action.Owned sampleOwner) →
        ∀ past, past <+: actions →
          ∃ s, after past = some s ∧ (Quiescent s → ClientAgrees s) := by
  intro h
  obtain ⟨s, hafter, hagrees⟩ :=
    h lateMirror lateMirror_wf.1 lateMirror_wf.2 lateMirror (List.prefix_refl lateMirror)
  have hstate : (after lateMirror).map
      (fun s => (s.mail.isEmpty, s.sending, decide (s.handled = s.aoi.texts.length), s.aoi.OBJ 1))
      = some (true, [], true, some (sampleObj 1 0)) := by
    decide +kernel
  have hview : (after lateMirror).map
      (fun s => (s.arrival 1, decide (2 ∈ s.known 1 0), s.aoi.getView .player 1 2))
      = some (some (1, 0), false, some true) := by
    decide +kernel
  rw [hafter] at hstate hview
  simp only [Option.map_some, Option.some.injEq, Prod.mk.injEq, List.isEmpty_iff,
    decide_eq_true_eq, decide_eq_false_iff_not] at hstate hview
  obtain ⟨hmail, hsending, hhandled, hobj⟩ := hstate
  obtain ⟨harrival, hunknown, hget⟩ := hview
  apply hunknown
  exact (hagrees ⟨hmail, hsending, hhandled⟩ 1 (sampleObj 1 0) 0 2 hobj rfl harrival).mpr hget

end Scene
