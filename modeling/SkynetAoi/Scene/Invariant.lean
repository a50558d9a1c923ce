import SkynetAoi.Scene.Basic

/-!
This module contains what one action of the scene comes to and that its invariant holds after every
run, which always comes to its end.
-/

namespace Scene

variable {Agent : Type} {kind : UInt32 → Aoi.CharType}

def requestText (request : Aoi.Action UInt32 Agent) : Option (Aoi.Text UInt32) :=
  match request with
  | .enter _ obj => some (.update obj.tempid obj.mode (Aoi.scaled obj.pos))
  | .leave _ obj => some (.update obj.tempid ['d'] obj.pos)
  | .aoicallback _ _ => none
  | .messageUpdate => some .message

theorem handle_requestText {aoi : Aoi.State UInt32 Agent} (hinv : Aoi.Inv kind aoi)
    {request : Aoi.Action UInt32 Agent} (hwf : request.WF kind)
    : ∃ new, (Aoi.outcome (Aoi.handle request aoi)).texts = aoi.texts ++ new
        ∧ ∀ text ∈ new, requestText request = some text := by
  have hresult := (Aoi.handle_spec hinv hwf).2
  generalize Aoi.handle request aoi = result at hresult
  cases hresult with
  | enter order obj _ hresult =>
    rcases hresult.texts_cases with htexts | ⟨htexts, -⟩
    . exact ⟨_, htexts, by simp [requestText]⟩
    . refine ⟨[], ?_, by simp⟩
      rw [List.append_nil]
      exact htexts
  | leave order obj s' hleft => exact ⟨_, hleft.texts, by simp [requestText]⟩
  | aoicallback w m s' hresult =>
    refine ⟨[], ?_, by simp⟩
    rw [List.append_nil]
    cases hresult with
    | ignored _ => rfl
    | sighted _ ow om how hom hs => exact hs.texts
  | messageUpdate =>
    unfold Aoi.messageUpdate Aoi.outcome
    dsimp only
    split
    . exact ⟨[.message], rfl, by simp [requestText]⟩
    . exact ⟨[], by simp, by simp⟩

theorem textWF_of_request {request : Aoi.Action UInt32 Agent} (hwf : RequestWF kind request)
    {text : Aoi.Text UInt32} (h : requestText request = some text) : TextWF kind text := by
  cases request with
  | enter order obj =>
    cases h
    refine ⟨hwf.2, .inl ?_⟩
    rw [hwf.1.mode, hwf.1.type]
  | leave order obj =>
    cases h
    exact ⟨hwf.2, .inr rfl⟩
  | aoicallback w m => cases h
  | messageUpdate =>
    cases h
    trivial

theorem handle_texts {aoi : Aoi.State UInt32 Agent} (hinv : Aoi.Inv kind aoi)
    {request : Aoi.Action UInt32 Agent} (hwf : RequestWF kind request)
    : ∃ new, (Aoi.outcome (Aoi.handle request aoi)).texts = aoi.texts ++ new
        ∧ ∀ text ∈ new, TextWF kind text := by
  obtain ⟨new, htexts, hnew⟩ := handle_requestText hinv hwf.1
  exact ⟨new, htexts, fun text htext => textWF_of_request hwf (hnew text htext)⟩

theorem textWF_of_event {texts : List (Aoi.Text UInt32)} (h : ∀ text ∈ texts, TextWF kind text)
    {id : UInt32} {mode : List Char} {pos : Point} (hmem : .update id mode pos ∈ texts.map event)
    : TextWF kind (.update id mode pos) := by
  obtain ⟨text, htext, heq⟩ := List.mem_map.mp hmem
  cases text with
  | message => cases heq
  | update id' mode' pos' =>
    cases heq
    exact h _ htext

theorem kind_of_watcher {texts : List (Aoi.Text UInt32)} (h : ∀ text ∈ texts, TextWF kind text)
    {id : UInt32} {t : Caoi.Track} (ht : Caoi.track (texts.map event) id = some t)
    (hw : t.watcher = true) : kind id = .player := by
  obtain ⟨mode, pos, hmem, hwatcher⟩ := Caoi.track_origin ht
  have hletter := hwatcher hw
  rcases (textWF_of_event h hmem).2 with hmode | hmode
  . rw [hmode] at hletter
    cases hkind : kind id with
    | player => rfl
    | monster => simp [hkind, Aoi.modeOf] at hletter
  . simp [hmode] at hletter

theorem history_eq (s : Scene Agent) : s.history = (s.aoi.texts.take s.handled).map event := by
  unfold history events
  rw [List.map_take]

namespace Inv

variable {s : Scene Agent}

theorem init : Inv kind (Scene.init : Scene Agent) where
  tables := Aoi.Inv.init
  mail := by simp [Scene.init]
  sending := by simp [Scene.init]
  texts := by simp [Scene.init, Aoi.State.init]
  handled := by simp [Scene.init]
  engine := Caoi.Sound.init

theorem post (h : Inv kind s) {request : Aoi.Action UInt32 Agent} (hwf : RequestWF kind request)
    : Inv kind (s.post request) where
  tables := h.tables
  mail := by
    intro request' hmem
    unfold Scene.post at hmem
    rw [List.mem_append, List.mem_singleton] at hmem
    rcases hmem with hmem | rfl
    . exact h.mail request' hmem
    . exact hwf
  sending := h.sending
  texts := h.texts
  handled := h.handled
  engine := h.engine

theorem head (h : Inv kind s) {request : Aoi.Action UInt32 Agent}
    {mail : List (Aoi.Action UInt32 Agent)} (hmail : s.mail = request :: mail)
    : RequestWF kind request := by
  apply h.mail
  rw [hmail]
  simp

theorem receive [DecidableEq Agent] (h : Inv kind s) {request : Aoi.Action UInt32 Agent}
    {mail : List (Aoi.Action UInt32 Agent)} (hmail : s.mail = request :: mail)
    : Inv kind (s.receive request mail) := by
  have hwf := h.head hmail
  obtain ⟨new, htexts, hnew⟩ := handle_texts h.tables hwf
  refine ⟨(Aoi.handle_spec h.tables hwf.1).1, ?_, h.sending, ?_, ?_, ?_⟩
  . intro request' hmem
    apply h.mail
    rw [hmail]
    exact List.mem_cons_of_mem request hmem
  . intro text hmem
    unfold Scene.receive at hmem
    dsimp only at hmem
    rw [htexts, List.mem_append] at hmem
    rcases hmem with hmem | hmem
    . exact h.texts text hmem
    . exact hnew text hmem
  . unfold Scene.receive
    dsimp only
    rw [htexts, List.length_append]
    have := h.handled
    omega
  . have hhistory : (s.receive request mail).history = s.history := by
      rw [history_eq, history_eq]
      unfold Scene.receive
      dsimp only
      rw [htexts, List.take_append_of_le_length h.handled]
    rw [hhistory]
    exact h.engine

theorem callbackmessage (h : Inv kind s) {watcher marker : UInt32} {rest : List (UInt32 × UInt32)}
    (hsending : s.sending = (watcher, marker) :: rest)
    : Inv kind (s.callbackmessage watcher marker rest) where
  tables := h.tables
  mail := by
    intro request hmem
    unfold Scene.callbackmessage at hmem
    rw [List.mem_append, List.mem_singleton] at hmem
    rcases hmem with hmem | rfl
    . exact h.mail request hmem
    . refine ⟨h.sending (watcher, marker) ?_, trivial⟩
      rw [hsending]
      simp
  sending := by
    intro pair hmem
    apply h.sending
    rw [hsending]
    exact List.mem_cons_of_mem _ hmem
  texts := h.texts
  handled := h.handled
  engine := h.engine

end Inv

inductive Stepped [DecidableEq Agent] (kind : UInt32 → Aoi.CharType) (s : Scene Agent)
    : Action Agent → Scene Agent → Prop where
  | idle (action : Action Agent) : Stepped kind s action s
  | post (action : Action Agent) (request : Aoi.Action UInt32 Agent)
      (hrequest : action.request = some request)
    : Stepped kind s action (s.post request)
  | receive (request : Aoi.Action UInt32 Agent) (mail : List (Aoi.Action UInt32 Agent))
      (hmail : s.mail = request :: mail)
      (hwf : RequestWF kind request)
    : Stepped kind s .aoiRecv (s.receive request mail)
  | report (event : Caoi.Event) (caoi : Caoi.AoiSpace) (cbs : List (UInt32 × UInt32))
      (hsending : s.sending = [])
      (hevent : s.events[s.handled]? = some event)
      (hcbs : ∀ w m, (w, m) ∈ cbs ↔ event = .message ∧ Caoi.Reportable s.history w m)
    : Stepped kind s .caoiRecv (s.report caoi cbs)
  | callbackmessage (watcher marker : UInt32) (rest : List (UInt32 × UInt32))
      (hsending : s.sending = (watcher, marker) :: rest)
    : Stepped kind s .caoiSend (s.callbackmessage watcher marker rest)

theorem step_caoiRecv [DecidableEq Agent] {s : Scene Agent} (h : Inv kind s)
    : ∃ s', step s .caoiRecv = some s' ∧ Inv kind s' ∧ Stepped kind s .caoiRecv s' := by
  unfold step
  dsimp only
  split
  . next e hsending hevent =>
    have hlen : s.handled < s.aoi.texts.length := by
      have := (List.getElem?_eq_some_iff.mp hevent).1
      simpa [events] using this
    obtain ⟨text, htext, heq⟩ : ∃ text ∈ s.aoi.texts, event text = e := by
      have := List.mem_of_getElem? hevent
      simpa [events] using this
    have hvalid : e.Valid := by
      have hwf := h.texts text htext
      rw [← heq]
      cases text with
      | update id mode pos => exact hwf.1.ne_invalidId
      | message => trivial
    obtain ⟨caoi, cbs, hstep, hsound, hcbs⟩ := h.engine.step hvalid
    rw [hstep]
    refine ⟨_, rfl, ?_, .report e caoi cbs hsending hevent hcbs⟩
    have hhistory : (s.report caoi cbs).history = s.history ++ [e] := by
      unfold history
      have : (s.report caoi cbs).events.take (s.handled + 1) = s.events.take s.handled ++ [e] := by
        rw [List.take_add_one]
        unfold Scene.report
        dsimp only [events] at hevent ⊢
        rw [hevent]
        rfl
      exact this
    refine ⟨h.tables, h.mail, ?_, h.texts, hlen, ?_⟩
    . rintro ⟨w, m⟩ hmem
      obtain ⟨-, tw, tm, hpair, -⟩ := (hcbs w m).mp hmem
      refine ⟨?_, hpair.ne⟩
      have htrack := hpair.watcher_track
      rw [history_eq] at htrack
      apply kind_of_watcher _ htrack hpair.watcher
      intro text' htext'
      exact h.texts text' (List.mem_of_mem_take htext')
    . rw [hhistory]
      exact hsound
  . exact ⟨s, rfl, h, .idle _⟩

theorem step_spec [DecidableEq Agent] {s : Scene Agent} (h : Inv kind s) {action : Action Agent}
    (hwf : action.WF kind)
    : ∃ s', step s action = some s' ∧ Inv kind s' ∧ Stepped kind s action s' := by
  cases action with
  | enter order obj => exact ⟨_, rfl, h.post ⟨hwf.1, hwf.2⟩, .post _ (.enter order obj) rfl⟩
  | leave order obj => exact ⟨_, rfl, h.post ⟨hwf.1, hwf.2⟩, .post _ (.leave order obj) rfl⟩
  | tick => exact ⟨_, rfl, h.post ⟨trivial, trivial⟩, .post _ .messageUpdate rfl⟩
  | aoiRecv =>
    unfold step
    dsimp only
    cases hmail : s.mail with
    | nil => exact ⟨s, rfl, h, .idle _⟩
    | cons request mail =>
      exact ⟨_, rfl, h.receive hmail, .receive request mail hmail (h.head hmail)⟩
  | caoiRecv => exact step_caoiRecv h
  | caoiSend =>
    unfold step
    dsimp only
    cases hsending : s.sending with
    | nil => exact ⟨s, rfl, h, .idle _⟩
    | cons pair rest =>
      obtain ⟨watcher, marker⟩ := pair
      exact ⟨_, rfl, h.callbackmessage hsending, .callbackmessage watcher marker rest hsending⟩

theorem receive_of_ok [DecidableEq Agent] (s : Scene Agent) (request : Aoi.Action UInt32 Agent)
    (mail : List (Aoi.Action UInt32 Agent)) {aoi : Aoi.State UInt32 Agent}
    (h : Aoi.handle request s.aoi = .ok () aoi) : (s.receive request mail).aoi = aoi := by
  unfold receive
  rw [h]
  rfl

def Coming (s : Scene Agent) (w m : UInt32) : Prop :=
  .aoicallback w m ∈ s.mail ∨ (w, m) ∈ s.sending

namespace Coming

variable {s : Scene Agent} {w m : UInt32}

theorem post (h : s.Coming w m) (request : Aoi.Action UInt32 Agent)
    : (s.post request).Coming w m := by
  rcases h with h | h
  . exact Or.inl (List.mem_append_left _ h)
  . exact Or.inr h

theorem receive [DecidableEq Agent] (h : s.Coming w m) {request : Aoi.Action UInt32 Agent}
    {mail : List (Aoi.Action UInt32 Agent)} (hmail : s.mail = request :: mail)
    : request = .aoicallback w m ∨ (s.receive request mail).Coming w m := by
  rcases h with h | h
  . rw [hmail, List.mem_cons] at h
    rcases h with heq | h
    . exact Or.inl heq.symm
    . exact Or.inr (Or.inl h)
  . exact Or.inr (Or.inr h)

theorem report (h : s.Coming w m) (hsending : s.sending = []) (caoi : Caoi.AoiSpace)
    (cbs : List (UInt32 × UInt32)) : (s.report caoi cbs).Coming w m := by
  rcases h with h | h
  . exact Or.inl h
  . rw [hsending] at h
    simp at h

theorem callbackmessage (h : s.Coming w m) {watcher marker : UInt32} {rest : List (UInt32 × UInt32)}
    (hsending : s.sending = (watcher, marker) :: rest)
    : (s.callbackmessage watcher marker rest).Coming w m := by
  rcases h with h | h
  . exact Or.inl (List.mem_append_left _ h)
  . rw [hsending, List.mem_cons, Prod.mk.injEq] at h
    rcases h with ⟨rfl, rfl⟩ | h
    . exact Or.inl (List.mem_append_right _ (by simp))
    . exact Or.inr h

end Coming

def Quiescent (s : Scene Agent) : Prop :=
  s.mail = [] ∧ s.sending = [] ∧ s.handled = s.aoi.texts.length

theorem Quiescent.not_coming {s : Scene Agent} (h : Quiescent s) (w m : UInt32) : ¬s.Coming w m := by
  unfold Coming
  rw [h.1, h.2.1]
  simp

variable [DecidableEq Agent]

theorem after_append {actions : List (Action Agent)} {action : Action Agent} {s s' : Scene Agent}
    (h : after actions = some s) (hstep : step s action = some s')
    : after (actions ++ [action]) = some s' := by
  unfold after at h ⊢
  rw [run.append h, run.cons hstep, run.nil]

def OnReceive (C : Scene Agent → Aoi.Action UInt32 Agent → Prop) (actions : List (Action Agent))
    : Prop :=
  Throughout
    (fun past action => action = .aoiRecv → ∀ s request mail, after past = some s →
      s.mail = request :: mail → C s request)
    actions

theorem after_invariant {P : Scene Agent → Prop} {C : Scene Agent → Aoi.Action UInt32 Agent → Prop}
    {actions : List (Action Agent)} (hinit : P init)
    (hstep : ∀ s action s', action ∈ actions → Inv kind s → P s →
      (action = .aoiRecv → ∀ request mail, s.mail = request :: mail → C s request) →
      Stepped kind s action s' → P s')
    (hwf : ∀ action ∈ actions, action.WF kind) (hC : OnReceive C actions) {past : List (Action Agent)}
    (hpre : past <+: actions) : ∃ s, after past = some s ∧ Inv kind s ∧ P s := by
  induction past using List.reverseRecOn with
  | nil => exact ⟨init, rfl, Inv.init, hinit⟩
  | append_singleton past action ih =>
    obtain ⟨s, hafter, hinv, hP⟩ := ih ((List.prefix_append past [action]).trans hpre)
    have hmem : action ∈ actions := hpre.subset (by simp)
    obtain ⟨s', hs', hinv', hstepped⟩ := step_spec hinv (hwf action hmem)
    refine ⟨s', after_append hafter hs', hinv', ?_⟩
    apply hstep s action s' hmem hinv hP _ hstepped
    intro haction request mail hmail
    obtain ⟨rest, hrest⟩ := hpre
    exact hC past action rest (by simp [← hrest]) haction s request mail hafter hmail

theorem after_inv {actions : List (Action Agent)} (hwf : ∀ action ∈ actions, action.WF kind)
    {past : List (Action Agent)} (hpre : past <+: actions)
    : ∃ s, after past = some s ∧ Inv kind s := by
  obtain ⟨s, hafter, hinv, -⟩ := after_invariant (P := fun _ => True) (C := fun _ _ => True) trivial
    (by
      intros
      trivial)
    hwf
    (by
      intro past action rest heq
      intros
      trivial)
    hpre
  exact ⟨s, hafter, hinv⟩

end Scene
