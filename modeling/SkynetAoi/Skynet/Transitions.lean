import SkynetAoi.Skynet.Ownership

/-!
This module contains one lemma for each call a thread can be in: it neither touches freed memory nor
breaks an assertion, and it keeps the invariant of the server.
-/

namespace SkynetServer

open SkynetMq

section

variable {s : Service} {n n' : Kind → Nat}

theorem Service.Phases.mono {n n' : Phase → Nat} (h : s.Phases n)
    (hstarting : n' .starting = n .starting) (hle : ∀ phase, n' phase ≤ n phase)
    : s.Phases n' where
  started := by
    rw [hstarting]
    exact h.started
  initialized := fun hpos => h.initialized (Nat.lt_of_lt_of_le hpos (hle .serving))
  launched := fun hpos => h.launched (Nat.lt_of_lt_of_le hpos (hle .launching))
  loaded := by
    intro hpos
    have hzero := h.loaded (Nat.lt_of_lt_of_le hpos (hle .loading))
    have := hle .launching
    omega

theorem Service.Good.setQueue (h : s.Good n) {queue : MessageQueue} (hwf : queue.ring.WF)
    (hrelease : queue.release = s.queue.release) (href : n' .reference = n .reference)
    (hdel : n' .deleter = n .deleter) (hdrop : 0 < n' .dropper → s.queue.release = true)
    (howner : n' .owner = if queue.release ∨ queue.inGlobal then 1 else 0)
    (hasleep : queue.inGlobal = false → queue.messages = [])
    (hfree : 0 < n' .freer → queue.messages = []) (hphases : s.Phases fun phase => n' (.phase phase))
    : ({ s with queue := queue } : Service).Good n' := by
  constructor
  . exact hwf
  . rw [href]
    exact h.references
  . rw [hdel, hrelease]
    exact h.alive
  . rw [hdel, hrelease]
    exact h.dead
  . exact howner
  . exact hasleep
  . rw [hrelease]
    exact hdrop
  . exact hfree
  . exact ⟨hphases.started, hphases.initialized, hphases.launched, hphases.loaded⟩

theorem Service.Good.owner_le (h : s.Good n) : n .owner ≤ 1 := by
  rw [h.owner]
  split
  . exact Nat.le_refl _
  . exact Nat.zero_le _

theorem Service.Good.setRef (h : s.Good n) {registered : Bool} {ref : Nat}
    (href : ref = (if registered then 1 else 0) + n' .reference) (hrelease : s.queue.release = false)
    (hdel : n' .deleter = if ref = 0 then 1 else 0) (howner : n' .owner = n .owner)
    (hdrop : n' .dropper = n .dropper) (hfree : n' .freer = n .freer)
    (hphases : ({ s with registered := registered, ref := ref } : Service).Phases
      fun phase => n' (.phase phase))
    : ({ s with registered := registered, ref := ref } : Service).Good n' := by
  constructor
  . exact h.wf
  . exact href
  . intro hpos
    refine ⟨hrelease, ?_⟩
    dsimp only at hpos
    rw [hdel, if_neg (by omega)]
  . intro hzero
    dsimp only at hzero ⊢
    rw [hdel, if_pos hzero, hrelease]
    rfl
  . rw [howner]
    exact h.owner
  . exact h.asleep
  . rw [hdrop]
    exact h.dropping
  . rw [hfree]
    exact h.emptied
  . exact hphases

end

namespace Node

def Advances (node : Node) (i : Nat) (rest : List Frame) (result : Option (Node × List Frame)) : Prop :=
  ∃ node' frames, result = some (node', frames) ∧ node'.threads = node.threads
    ∧ (node'.goOn i frames rest).Inv

section

variable {node : Node} {i : Nat} {rest : List Frame} {top : Frame} {q : UInt32}

theorem Inv.same (h : node.Inv) (hthread : node.threads[i]? = some (top :: rest)) {frames : List Frame}
    (hsame : ∀ kind handle, (frames.map (Frame.holds kind handle)).sum = top.holds kind handle)
    (hmessages : ∀ handle, frames.flatMap (Frame.message handle) = top.message handle)
    : node.Advances i rest (some (node, frames)) := by
  refine ⟨node, frames, rfl, rfl, h.goOn_same hthread rfl rfl ⟨rfl, rfl, rfl⟩ ?_
    (fun handle => Nat.le_of_eq (hsame _ handle)) hmessages⟩
  intro kind handle _
  rw [hsame]

theorem Inv.inHand_alone (h : node.Inv) (hthread : node.threads[i]? = some (top :: rest))
    (howner : top.holds .owner q = 1) (frames : List Frame)
    : node.inHand q = top.message q
        ∧ ∀ node' : Node, node'.threads = node.threads →
          (node'.goOn i frames rest).inHand q = frames.flatMap (Frame.message q) := by
  obtain ⟨s, -, -, hgood⟩ := h.service hthread (q := q) .owner (by omega)
  have hone := hgood.owner_le
  have halone : Stacks.total (Frame.holds .owner q) node.threads ≤ top.holds .owner q := by
    simp only [count] at hone
    omega
  have hmessage : ∀ frame : Frame, frame.holds .owner q = 0 → frame.message q = [] := by
    intro frame
    cases frame <;> simp [Frame.holds, Frame.owns, Frame.message, one]
  have hcollect := Stacks.collect_alone hmessage hthread halone frames
  refine ⟨hcollect.1, ?_⟩
  intro node' hthreads
  unfold inHand Node.goOn
  rw [hthreads]
  exact hcollect.2

theorem Inv.phases (h : node.Inv) {s : Service} (hs : node.services q = some s)
    {frames : List Frame} {global : List UInt32} {n : Kind → Nat}
    (hn : ∀ kind, n kind + top.holds kind q + listed node.global kind q
      = node.count kind q + (frames.map (Frame.holds kind q)).sum + listed global kind q)
    (hstarting : (frames.map (Frame.holds (.phase .starting) q)).sum
      = top.holds (.phase .starting) q)
    (hle : ∀ phase, (frames.map (Frame.holds (.phase phase) q)).sum ≤ top.holds (.phase phase) q)
    : s.Phases fun phase => n (.phase phase) := by
  refine (h.good q s hs).phases.mono ?_ ?_
  . have := hn (.phase .starting)
    simp only [listed] at this
    omega
  . intro phase
    have hphase := hn (.phase phase)
    have := hle phase
    simp only [listed] at hphase
    omega

theorem Inv.globalmqPop (h : node.Inv) (hthread : node.threads[i]? = some (top :: rest))
    (frames : Option UInt32 → List Frame)
    (hnone : ∀ kind handle, ((frames none).map (Frame.holds kind handle)).sum = top.holds kind handle)
    (hsome : ∀ nq kind handle, ((frames (some nq)).map (Frame.holds kind handle)).sum
      = top.holds kind handle + match kind with | .owner => one nq handle | _ => 0)
    (hmessages : ∀ nq handle, (frames nq).flatMap (Frame.message handle) = top.message handle)
    : node.Advances i rest (some (node.globalmqPop.2, frames node.globalmqPop.1)) := by
  refine ⟨_, _, rfl, ?_, ?_⟩
  . unfold Node.globalmqPop
    split
    . rfl
    . rfl
  . unfold Node.globalmqPop
    split
    . refine h.goOn_same hthread rfl rfl ⟨rfl, rfl, rfl⟩ ?_
        (fun handle => Nat.le_of_eq (hnone _ handle)) (hmessages none)
      intro kind handle _
      rw [hnone]
    . next nq global hglobal =>
      refine h.goOn_same hthread rfl rfl ⟨rfl, rfl, rfl⟩ ?_
        (fun handle => Nat.le_of_eq (hsome nq _ handle)) (hmessages (some nq))
      intro kind handle _
      rw [hsome]
      cases kind with
      | owner =>
        simp only [listed, hglobal, List.count_cons, one, beq_iff_eq]
        omega
      | reference => rfl
      | deleter => rfl
      | dropper => rfl
      | freer => rfl
      | phase phase => rfl

theorem Inv.not_listed (h : node.Inv) (hthread : node.threads[i]? = some (top :: rest))
    (hpos : 0 < top.holds .owner q) : node.global.contains q = false := by
  obtain ⟨s, -, -, hgood⟩ := h.service hthread .owner hpos
  have hle := Stacks.le_total (Frame.holds .owner q) hthread
  have hone := hgood.owner_le
  have hzero : node.global.count q = 0 := by
    simp only [count, listed] at hone
    omega
  rw [List.count_eq_zero] at hzero
  simpa using hzero

theorem Inv.globalmqPush (h : node.Inv) (hthread : node.threads[i]? = some (top :: rest))
    (hpos : 0 < top.holds .owner q) {frames : List Frame}
    (hsame : ∀ kind handle, (frames.map (Frame.holds kind handle)).sum
      + (match kind with | .owner => one q handle | _ => 0) = top.holds kind handle)
    (hmessages : ∀ handle, frames.flatMap (Frame.message handle) = top.message handle)
    : node.Advances i rest ((node.globalmqPush q).map fun node => (node, frames)) := by
  have hnot := h.not_listed hthread hpos
  unfold Node.globalmqPush
  rw [hnot]
  refine ⟨_, _, rfl, rfl, h.goOn_same hthread rfl rfl ⟨rfl, rfl, rfl⟩ ?_
    (fun handle => Nat.le_of_eq (hsame (.phase .serving) handle)) hmessages⟩
  intro kind handle _
  rw [← hsame]
  cases kind with
  | owner =>
    simp only [listed, List.count_append, List.count_singleton, one, beq_iff_eq]
    omega
  | reference => rfl
  | deleter => rfl
  | dropper => rfl
  | freer => rfl
  | phase phase => rfl

theorem Inv.initialized (h : node.Inv) (hthread : node.threads[i]? = some (top :: rest)) {s : Service}
    (hs : node.services q = some s) (howner : top.holds .owner q = 1)
    (hstarting : top.holds (.phase .starting) q = 0) (hregistered : s.registered = true)
    : s.init = true := by
  have hgood := h.good q s hs
  have hone := hgood.owner_le
  by_contra hinit
  rw [Bool.not_eq_true] at hinit
  have hpos := hgood.phases.started hregistered hinit
  have hle := Stacks.total_add_le (f := Frame.holds (.phase .starting) q) (g := Frame.holds .owner q)
    (fun frame => phase_le_owns .starting q frame (by simp)) hthread
  simp only [count, listed] at hpos hone
  omega

theorem Inv.setRef (h : node.Inv) (hthread : node.threads[i]? = some (top :: rest)) {s : Service}
    (hs : node.services q = some s) (hpos : 0 < s.ref) {registered : Bool} {ref : Nat}
    {frames : List Frame}
    (hothers : ∀ kind, ∀ handle ≠ q,
      (frames.map (Frame.holds kind handle)).sum = top.holds kind handle)
    (hmessages : ∀ handle, frames.flatMap (Frame.message handle) = top.message handle)
    (howns : ∀ kind, kind = .owner ∨ kind = .dropper ∨ kind = .freer →
      (frames.map (Frame.holds kind q)).sum = top.holds kind q)
    (hq : ∀ n : Kind → Nat,
      (∀ kind, n kind + top.holds kind q
        = node.count kind q + (frames.map (Frame.holds kind q)).sum) →
      ref = (if registered then 1 else 0) + n .reference
        ∧ n .deleter = (if ref = 0 then 1 else 0)
        ∧ ({ s with registered := registered, ref := ref } : Service).Phases
          fun phase => n (.phase phase))
    : node.Advances i rest
        (some (node.setService q { s with registered := registered, ref := ref }, frames)) := by
  have hgood := h.good q s hs
  have halive := hgood.alive hpos
  have hne : q ≠ 0 := by
    rintro rfl
    rw [h.reserved] at hs
    simp at hs
  refine ⟨_, _, rfl, rfl, h.goOn hthread q rfl ?_ ?_ ?_ ?_ ?_⟩
  . intro handle hneq
    simp [setService, hneq]
  . intro kind handle hneq
    rw [hothers kind handle hneq]
    rfl
  . intro handle _
    exact hmessages handle
  . intro n hn
    have hn' : ∀ kind, n kind + top.holds kind q
        = node.count kind q + (frames.map (Frame.holds kind q)).sum := by
      intro kind
      have := hn kind
      simp only [setService] at this
      omega
    have hsame : ∀ kind, kind = .owner ∨ kind = .dropper ∨ kind = .freer →
        n kind = node.count kind q := by
      intro kind hkind
      have := hn' kind
      rw [howns kind hkind] at this
      omega
    obtain ⟨href, hdel, hphases⟩ := hq n hn'
    refine .inl ⟨_, hne, by simp only [setService, Function.update_self]; rfl, ?_,
      fun _ => h.served q s hs halive.1⟩
    exact hgood.setRef href halive.1 hdel (hsame _ (by simp)) (hsame _ (by simp))
      (hsame _ (by simp)) hphases
  . have hlog := h.log q
    rw [hs] at hlog
    rw [inHand_goOn hthread (by rfl) (hmessages q)]
    simpa [setService, waiting] using hlog

theorem Inv.handleGrab (h : node.Inv) (hthread : node.threads[i]? = some (top :: rest))
    {found lost : List Frame} (serving : Nat)
    (hfound : ∀ kind handle, (found.map (Frame.holds kind handle)).sum
      = top.holds kind handle
        + match kind with
          | .reference => one q handle
          | .phase .serving => serving * one q handle
          | _ => 0)
    (hlost : ∀ kind handle, (lost.map (Frame.holds kind handle)).sum = top.holds kind handle)
    (hmessages : ∀ handle, found.flatMap (Frame.message handle) = top.message handle
      ∧ lost.flatMap (Frame.message handle) = top.message handle)
    (hserving : 0 < serving → top.holds .owner q = 1 ∧ top.holds (.phase .starting) q = 0)
    : node.Advances i rest
        (match node.handleGrab q with
        | none => none
        | some (true, node) => some (node, found)
        | some (false, node) => some (node, lost)) := by
  unfold Node.handleGrab
  cases hs : node.services q with
  | none => exact h.same hthread hlost fun handle => (hmessages handle).2
  | some s =>
    dsimp only
    cases hregistered : s.registered with
    | false => exact h.same hthread hlost fun handle => (hmessages handle).2
    | true =>
      have hgood := h.good q s hs
      have href := hgood.references
      simp only [hregistered, ↓reduceIte] at href
      have hpos : 0 < s.ref := by omega
      have hphases := hgood.phases
      have hinit : 0 < serving → s.init = true := by
        intro hserves
        obtain ⟨howner, hstarting⟩ := hserving hserves
        exact h.initialized hthread hs howner hstarting hregistered
      simp only [↓reduceIte, Nat.ne_of_gt hpos]
      apply h.setRef hthread hs hpos
      . intro kind handle hneq
        rw [hfound]
        cases kind with
        | reference => simp [hneq]
        | phase phase => cases phase <;> simp [hneq]
        | _ => rfl
      . intro handle
        exact (hmessages handle).1
      . rintro kind (rfl | rfl | rfl)
        . simp [hfound]
        . simp [hfound]
        . simp [hfound]
      . intro n hn
        simp only [hfound] at hn
        have hr := hn .reference
        have hd := hn .deleter
        have hstarting := hn (.phase .starting)
        have hloading := hn (.phase .loading)
        have hlaunching := hn (.phase .launching)
        have hserves := hn (.phase .serving)
        simp only [one_self, Nat.mul_one] at hr hd hstarting hloading hlaunching hserves
        have halive := hgood.alive hpos
        refine ⟨?_, ?_, ?_, ?_, fun _ => rfl, ?_⟩
        . simp only [↓reduceIte]
          omega
        . rw [if_neg (by omega)]
          omega
        . intro _ hfalse
          have := hphases.started hregistered hfalse
          omega
        . intro _
          by_cases hzero : serving = 0
          . apply hphases.initialized
            omega
          . exact hinit (Nat.pos_of_ne_zero hzero)
        . intro hpos
          have := hphases.loaded (by omega)
          omega

theorem Inv.setQueue (h : node.Inv) (hthread : node.threads[i]? = some (top :: rest)) {s : Service}
    (hs : node.services q = some s) {queue : MessageQueue} (hwf : queue.ring.WF)
    (hrelease : queue.release = s.queue.release) {frames : List Frame} (global : List UInt32)
    (sent : UInt32 → List SkynetMessage) (handled : UInt32 → List (SkynetMessage × Bool))
    (dropped : UInt32 → List SkynetMessage)
    (hlogs : ∀ handle ≠ q, sent handle = node.sent handle ∧ handled handle = node.handled handle
      ∧ dropped handle = node.dropped handle)
    (hothers : ∀ kind, ∀ handle ≠ q,
      (frames.map (Frame.holds kind handle)).sum + listed global kind handle
        = top.holds kind handle + listed node.global kind handle)
    (hmessages : ∀ handle ≠ q, frames.flatMap (Frame.message handle) = top.message handle)
    (hstarting : (frames.map (Frame.holds (.phase .starting) q)).sum
      = top.holds (.phase .starting) q)
    (hle : ∀ phase, (frames.map (Frame.holds (.phase phase) q)).sum ≤ top.holds (.phase phase) q)
    (hq : ∀ n : Kind → Nat,
      (∀ kind, n kind + top.holds kind q + listed node.global kind q
        = node.count kind q + (frames.map (Frame.holds kind q)).sum + listed global kind q) →
      n .reference = node.count .reference q
        ∧ n .deleter = node.count .deleter q
        ∧ (0 < n .dropper → s.queue.release = true)
        ∧ n .owner = (if queue.release ∨ queue.inGlobal then 1 else 0)
        ∧ (0 < n .freer → queue.messages = []))
    (hasleep : queue.inGlobal = false → queue.messages = [])
    (hserved : s.queue.release = false → dropped q = [])
    {hand : List SkynetMessage}
    (hhand : ∀ node' : Node, node'.threads = node.threads →
      (node'.goOn i frames rest).inHand q = hand)
    (hlog : sent q = (handled q).map Prod.fst ++ hand ++ dropped q ++ queue.messages)
    : ({ node.setService q { s with queue := queue } with
        global := global, sent := sent, handled := handled, dropped := dropped }.goOn i frames rest).Inv := by
  refine h.goOn hthread q rfl ?_ hothers hmessages ?_ ?_
  . intro handle hneq
    refine ⟨?_, hlogs handle hneq⟩
    simp [setService, hneq]
  . intro n hn
    obtain ⟨href, hdel, hdrop, howner, hfree⟩ := hq n hn
    refine .inl ⟨{ s with queue := queue }, ?_, ?_, ?_, ?_⟩
    . rintro rfl
      rw [h.reserved] at hs
      simp at hs
    . simp [setService]
    . exact (h.good q s hs).setQueue hwf hrelease href hdel hdrop howner hasleep hfree
        (h.phases hs hn hstarting hle)
    . rw [hrelease]
      exact hserved
  . rw [hhand _ (by rfl)]
    simpa [setService, waiting] using hlog

theorem Inv.popMessage (h : node.Inv) (hthread : node.threads[i]? = some (top :: rest)) {s : Service}
    (hs : node.services q = some s) {message : SkynetMessage}
    {queue : MessageQueue} (hpop : skynetMqPop s.queue = (some message, queue)) {frames : List Frame}
    (hsame : ∀ kind handle, (frames.map (Frame.holds kind handle)).sum = top.holds kind handle)
    (hmessages : ∀ handle ≠ q, frames.flatMap (Frame.message handle) = top.message handle)
    {dropped : UInt32 → List SkynetMessage}
    (hlogs : ∀ handle ≠ q, dropped handle = node.dropped handle)
    (hserved : s.queue.release = false → dropped q = []) {hand : List SkynetMessage}
    (hhand : ∀ node' : Node, node'.threads = node.threads →
      (node'.goOn i frames rest).inHand q = hand)
    (hlog : hand ++ dropped q = node.inHand q ++ node.dropped q ++ [message])
    : ({ node.setService q { s with queue := queue } with
        dropped := dropped }.goOn i frames rest).Inv := by
  have hgood := h.good q s hs
  obtain ⟨hwf, hqueue, hglobal, hrelease⟩ := skynetMqPop_some hgood.wf hpop
  refine h.setQueue hthread hs hwf hrelease node.global node.sent node.handled dropped ?_ ?_
    hmessages (hsame _ _) (fun phase => Nat.le_of_eq (hsame _ _)) ?_ ?_ hserved hhand ?_
  . intro handle hneq
    exact ⟨rfl, rfl, hlogs handle hneq⟩
  . intro kind handle _
    rw [hsame]
  . intro n hn
    have hcount : ∀ kind, n kind = node.count kind q := by
      intro kind
      have := hn kind
      rw [hsame] at this
      omega
    simp only [hcount]
    refine ⟨trivial, trivial, hgood.dropping, ?_, ?_⟩
    . rw [hrelease, hglobal]
      exact hgood.owner
    . intro hfreer
      have := hgood.emptied hfreer
      rw [hqueue] at this
      simp at this
  . intro hfalse
    rw [hglobal] at hfalse
    have := hgood.asleep hfalse
    rw [hqueue] at this
    simp at this
  . have := h.log q
    rw [hs, waiting, hqueue] at this
    rw [this, List.append_assoc, List.append_assoc _ hand, hlog]
    simp

theorem Inv.loop {k n : Nat} (h : node.Inv) (hthread : node.threads[i]? = some (.loop q k n :: rest))
    (w : Int) (choice : Choice) : node.Advances i rest (frameStep w node choice (.loop q k n)) := by
  obtain ⟨s, -, hs, hne, hgood, hpos, hrelease⟩ := h.referred hthread (q := q)
    (by simp [Frame.holds, Frame.refers])
  unfold frameStep
  dsimp only
  split
  . rw [hs]
    dsimp only
    cases hpop : skynetMqPop s.queue with
    | mk message queue =>
      cases message with
      | none =>
        obtain ⟨hnil, hempty, hwf, hglobal, hrel⟩ := skynetMqPop_none hgood.wf hpop
        refine ⟨_, _, rfl, rfl, h.setQueue hthread hs hwf hrel node.global
          node.sent node.handled node.dropped
          (fun _ _ => ⟨rfl, rfl, rfl⟩) ?_ (fun _ _ => rfl) rfl ?_ ?_ (fun _ => hempty)
          (h.served q s hs) (fun _ hthreads => inHand_goOn hthread hthreads rfl) ?_⟩
        . intro kind handle hneq
          exact congrArg (· + _) (sum_holds_eq (by simp) (by simp) kind hneq)
        . intro phase
          simp [Frame.holds, Frame.phase]
        . intro n hn
          have ho := hn .owner
          have hr := hn .reference
          have hd := hn .deleter
          have hp := hn .dropper
          have hf := hn .freer
          simp only [Frame.holds, Frame.owns, Frame.refers, List.map_cons, List.map_nil,
            List.sum_cons, List.sum_nil, one_self] at ho hr hd hp hf
          have hone := hgood.owner_le
          refine ⟨by omega, by omega, ?_, ?_, fun _ => hempty⟩
          . intro hpos
            apply hgood.dropping
            omega
          . rw [hrel, hrelease, hglobal, if_neg (by simp)]
            omega
        . have := h.log q
          rwa [hs, waiting, hnil, ← hempty] at this
      | some message =>
        have hdropped := h.served q s hs hrelease
        have hpopped : ∀ frame : Frame,
            (∀ kind handle, frame.holds kind handle = (Frame.loop q k n).holds kind handle) →
            (∀ handle, frame.message handle = if q = handle then [message] else []) →
            ((node.setService q { s with queue := queue }).goOn i [frame] rest).Inv := by
          intro frame hsame hmessage
          obtain ⟨hbefore, hafter⟩ := h.inHand_alone hthread (q := q)
            (by simp [Frame.holds, Frame.owns]) [frame]
          apply h.popMessage hthread hs hpop
          . intro kind handle
            simp [hsame]
          . intro handle hneq
            rw [List.flatMap_singleton, hmessage, if_neg (Ne.symm hneq)]
            rfl
          . intro handle hneq
            rfl
          . intro _
            exact hdropped
          . exact hafter
          . rw [List.flatMap_singleton, hmessage, if_pos rfl, hbefore, hdropped]
            rfl
        dsimp only
        split
        . exact ⟨_, _, rfl, rfl, hpopped _ (fun kind _ => by cases kind <;> rfl) fun _ => rfl⟩
        . exact ⟨_, _, rfl, rfl, hpopped _ (fun kind _ => by cases kind <;> rfl) fun _ => rfl⟩
  . refine ⟨_, _, rfl, rfl, h.goOn_same hthread rfl rfl ⟨rfl, rfl, rfl⟩ ?_ ?_ fun _ => rfl⟩
    . intro kind handle hkind
      cases kind with
      | phase phase =>
        cases phase with
        | serving => exact absurd rfl hkind
        | _ => rfl
      | _ => rfl
    . intro handle
      exact Nat.zero_le _

theorem Inv.mqRelease (h : node.Inv) (hthread : node.threads[i]? = some (.mqRelease q :: rest))
    (w : Int) (choice : Choice) : node.Advances i rest (frameStep w node choice (.mqRelease q)) := by
  have hpos : 0 < (Frame.mqRelease q).holds .owner q := by simp [Frame.holds, Frame.owns]
  obtain ⟨s, hs, hne, hgood⟩ := h.service hthread .owner hpos
  unfold frameStep
  simp only [hs]
  split
  . next hrelease =>
    refine ⟨_, _, rfl, rfl, h.goOn hthread q rfl (by simp) ?_ (fun _ _ => rfl) ?_ ?_⟩
    . intro kind handle hneq
      exact congrArg (· + _) (sum_holds_eq (by simp) (by simp) kind hneq)
    . intro n hn
      have ho := hn .owner
      have hr := hn .reference
      have hd := hn .deleter
      have hf := hn .freer
      simp only [Frame.holds, Frame.owns, Frame.refers, List.map_cons, List.map_nil, List.sum_cons,
        List.sum_nil, one_self] at ho hr hd hf
      refine .inl ⟨s, hne, hs, ?_, h.served q s hs⟩
      apply hgood.setQueue hgood.wf rfl
      . omega
      . omega
      . exact fun _ => hrelease
      . rw [← hgood.owner]
        omega
      . exact hgood.asleep
      . intro hpos
        apply hgood.emptied
        omega
      . exact h.phases hs hn rfl fun _ => Nat.le_refl _
    . rw [inHand_goOn hthread (by rfl) (by rfl)]
      exact h.log q
  . apply h.globalmqPush hthread hpos
    . intro kind handle
      cases kind <;> simp [Frame.holds, Frame.owns, Frame.refers, Frame.phase]
    . intro handle
      rfl

theorem Inv.drop (h : node.Inv) (hthread : node.threads[i]? = some (.drop q :: rest))
    (w : Int) (choice : Choice) : node.Advances i rest (frameStep w node choice (.drop q)) := by
  obtain ⟨s, hs, hne, hgood⟩ := h.service hthread (q := q) .owner (by simp [Frame.holds, Frame.owns])
  have hdropper := holds_le_count hthread .dropper q
  simp only [Frame.holds, one_self] at hdropper
  have hrelease := hgood.dropping hdropper
  unfold frameStep
  simp only [hs]
  cases hpop : skynetMqPop s.queue with
  | mk message queue =>
    cases message with
    | none =>
      obtain ⟨hnil, hempty, hwf, hglobal, hrel⟩ := skynetMqPop_none hgood.wf hpop
      refine ⟨_, _, rfl, rfl, h.setQueue hthread hs hwf hrel node.global
        node.sent node.handled node.dropped
        (fun _ _ => ⟨rfl, rfl, rfl⟩) ?_ (fun _ _ => rfl) rfl (fun _ => Nat.le_refl _) ?_
        (fun _ => hempty) (h.served q s hs) (fun _ hthreads => inHand_goOn hthread hthreads rfl) ?_⟩
      . intro kind handle hneq
        exact congrArg (· + _) (sum_holds_eq (by simp) (by simp) kind hneq)
      . intro n hn
        have ho := hn .owner
        have hr := hn .reference
        have hd := hn .deleter
        simp only [Frame.holds, Frame.owns, Frame.refers, List.map_cons, List.map_nil,
          List.sum_cons, List.sum_nil, one_self] at ho hr hd
        have howner := hgood.owner
        rw [hrelease, if_pos (by simp)] at howner
        refine ⟨by omega, by omega, fun _ => hrelease, ?_, fun _ => hempty⟩
        rw [hrel, hrelease, if_pos (by simp)]
        omega
      . have := h.log q
        rwa [hs, waiting, hnil, ← hempty] at this
    | some message =>
      have hdropped : ∀ frames : List Frame,
          (∀ kind handle, (frames.map (Frame.holds kind handle)).sum
            = (Frame.drop q).holds kind handle) →
          (∀ handle, frames.flatMap (Frame.message handle) = []) →
          ({ node.setService q { s with queue := queue } with
            dropped := Function.update node.dropped q (node.dropped q ++ [message])
          }.goOn i frames rest).Inv := by
        intro frames hsame hmessages
        apply h.popMessage hthread hs hpop hsame
        . intro handle _
          exact hmessages handle
        . intro handle hneq
          simp [hneq]
        . intro hfalse
          rw [hrelease] at hfalse
          simp at hfalse
        . exact fun _ hthreads => inHand_goOn hthread hthreads (hmessages q)
        . simp
      dsimp only
      rw [if_neg hne]
      split
      . refine ⟨_, _, rfl, rfl, hdropped _ ?_ fun _ => rfl⟩
        intro kind handle
        cases kind <;> rfl
      . refine ⟨_, _, rfl, rfl, hdropped _ ?_ fun _ => rfl⟩
        intro kind handle
        cases kind <;> simp [Frame.holds, Frame.owns, Frame.refers, Frame.phase]

theorem Inv.free (h : node.Inv) (hthread : node.threads[i]? = some (.free q :: rest))
    (w : Int) (choice : Choice) : node.Advances i rest (frameStep w node choice (.free q)) := by
  have hpos : 0 < (Frame.free q).holds .owner q := by simp [Frame.holds, Frame.owns]
  obtain ⟨s, hs, hne, hgood⟩ := h.service hthread .owner hpos
  have hnot := h.not_listed hthread hpos
  have hdropper := holds_le_count hthread .dropper q
  have hfreer := holds_le_count hthread .freer q
  simp only [Frame.holds, one_self] at hdropper hfreer
  have hrelease := hgood.dropping hdropper
  have hempty := hgood.emptied hfreer
  have href : s.ref = 0 := by
    by_contra hne
    have := (hgood.alive (Nat.pos_of_ne_zero hne)).1
    rw [hrelease] at this
    simp at this
  unfold frameStep
  simp only [hs, hnot]
  refine ⟨_, _, rfl, rfl, h.goOn hthread q rfl ?_ ?_ (fun _ _ => rfl) ?_ ?_⟩
  . intro handle hneq
    simp [hneq]
  . intro kind handle hneq
    exact congrArg (· + _) (sum_holds_eq (by simp) (by simp) kind hneq)
  . intro n hn
    refine .inr ⟨by simp, ?_⟩
    have hfrees := node.count_freer_le q
    have hdrops := node.count_dropper_le q
    have howner := hgood.owner_le
    have hreferences := hgood.references
    have hdead := hgood.dead href
    rw [hrelease, if_pos rfl] at hdead
    intro kind
    have hk := hn kind
    cases kind with
    | owner =>
      simp only [Frame.holds, Frame.owns, List.map_nil, List.sum_nil, one_self] at hk
      omega
    | reference =>
      simp only [Frame.holds, Frame.refers, List.map_nil, List.sum_nil] at hk
      omega
    | deleter =>
      simp only [Frame.holds, List.map_nil, List.sum_nil] at hk
      omega
    | dropper =>
      simp only [Frame.holds, List.map_nil, List.sum_nil, one_self] at hk
      omega
    | freer =>
      simp only [Frame.holds, List.map_nil, List.sum_nil, one_self] at hk
      omega
    | phase phase =>
      have hzero : node.count (.phase phase) q = 0 := by
        by_cases hphase : phase = .launching
        -- Who still uses its pointer can do so as long as the name is there.
        . subst hphase
          by_contra hpos
          have hregistered := hgood.phases.launched (Nat.pos_of_ne_zero hpos)
          rw [href, hregistered] at hreferences
          simp only [↓reduceIte] at hreferences
          omega
        . have hle := Stacks.total_add_le (f := Frame.holds (.phase phase) q)
            (g := Frame.holds .owner q) (fun frame => phase_le_owns phase q frame hphase) hthread
          simp only [Frame.holds, Frame.owns, Frame.phase, one_self] at hle
          simp only [count, listed] at howner ⊢
          omega
      simp only [Frame.holds, Frame.phase, List.map_nil, List.sum_nil, listed] at hk
      omega
  . have := h.log q
    rw [hs, waiting, hempty] at this
    rw [inHand_goOn hthread (by rfl) (by rfl)]
    simpa [waiting] using this

theorem Inv.release (h : node.Inv) (hthread : node.threads[i]? = some (.release q :: rest))
    (w : Int) (choice : Choice) : node.Advances i rest (frameStep w node choice (.release q)) := by
  obtain ⟨s, hcontext, hs, hne, hgood, hpos, hrelease⟩ := h.referred hthread (q := q)
    (by simp [Frame.holds, Frame.refers])
  have halive := (hgood.alive hpos).2
  have href := hgood.references
  unfold frameStep
  simp only [hcontext]
  apply h.setRef hthread hs hpos
  . intro kind handle hneq
    apply sum_holds_eq (by simp) _ kind hneq
    split <;> simp
  . intro handle
    split
    . rfl
    . rfl
  . rintro kind hkind
    split
    . rcases hkind with rfl | rfl | rfl <;> rfl
    . rcases hkind with rfl | rfl | rfl <;> rfl
  . intro n hn
    have hphases : s.Phases fun phase => n (.phase phase) := by
      have hsame : ∀ phase, n (.phase phase) = node.count (.phase phase) q := by
        intro phase
        have := hn (.phase phase)
        split at this
        . simpa [Frame.holds, Frame.phase] using this
        . simpa [Frame.holds, Frame.phase] using this
      simp only [hsame]
      exact hgood.phases
    have hr := hn .reference
    have hd := hn .deleter
    refine ⟨?_, ?_, hphases.started, hphases.initialized, hphases.launched, hphases.loaded⟩
    . split at hr
      . simp [Frame.holds, Frame.refers] at hr
        omega
      . simp [Frame.holds, Frame.refers] at hr
        omega
    . by_cases hone : s.ref = 1
      . simp [hone, Frame.holds] at hd ⊢
        omega
      . simp [hone, Frame.holds] at hd
        rw [if_neg (by omega)]
        omega

theorem Inv.pushIf (h : node.Inv) {s : Service} (hs : node.services q = some s)
    (hrelease : s.queue.release = false) (node' : Node) (hglobal : node'.global = node.global)
    : node'.pushIf (!s.queue.inGlobal) q
        = some { node' with
            global := if s.queue.inGlobal then node.global else node.global ++ [q] } := by
  unfold Node.pushIf
  cases hflag : s.queue.inGlobal with
  | true => simp only [Bool.not_true, Bool.false_eq_true, ↓reduceIte, ← hglobal]
  | false =>
    have howner := (h.good q s hs).owner
    rw [hrelease, hflag, if_neg (by simp)] at howner
    have hzero : node.global.count q = 0 := by
      simp only [count, listed] at howner
      omega
    rw [List.count_eq_zero] at hzero
    simp [Node.globalmqPush, hglobal, hzero]

-- Nobody pushes any more: a queue that sleeps goes to the global queue a last time.
theorem Inv.markRelease (h : node.Inv) (hthread : node.threads[i]? = some (.markRelease q :: rest))
    (w : Int) (choice : Choice) : node.Advances i rest (frameStep w node choice (.markRelease q)) := by
  obtain ⟨s, hs, hne, hgood⟩ := h.service hthread (q := q) .deleter (by simp [Frame.holds])
  have hdeleter := holds_le_count hthread .deleter q
  simp only [Frame.holds, one_self] at hdeleter
  have href : s.ref = 0 := by
    by_contra hpos
    have := (hgood.alive (Nat.pos_of_ne_zero hpos)).2
    omega
  have hdead := hgood.dead href
  have hrelease : s.queue.release = false := by
    by_contra htrue
    rw [Bool.not_eq_false] at htrue
    rw [htrue, if_pos rfl] at hdead
    omega
  rw [hrelease, if_neg (by simp)] at hdead
  have howner := hgood.owner
  rw [hrelease] at howner
  simp only [Bool.false_eq_true, false_or] at howner
  have hpush := h.pushIf hs hrelease
    (node.setService q { s with queue := { s.queue with release := true } }) rfl
  unfold frameStep
  simp only [hs, skynetMqMarkRelease, hrelease, Bool.false_eq_true, ↓reduceIte, hpush]
  refine ⟨_, _, rfl, rfl, h.goOn hthread q rfl ?_ ?_ (fun _ _ => rfl) ?_ ?_⟩
  . intro handle hneq
    simp [setService, hneq]
  . intro kind handle hneq
    cases kind with
    | owner =>
      simp only [Frame.holds, Frame.owns, List.map_nil, List.sum_nil, listed]
      split
      . rfl
      . simp [List.count_append, Ne.symm hneq]
    | reference => rfl
    | deleter => simp [Frame.holds, hneq, listed]
    | dropper => rfl
    | freer => rfl
    | phase phase => rfl
  . intro n hn
    refine .inl ⟨{ s with queue := { s.queue with release := true } }, hne, by simp [setService], ?_,
      by simp⟩
    have ho := hn .owner
    have hr := hn .reference
    have hd := hn .deleter
    have hf := hn .freer
    simp only [Frame.holds, Frame.owns, Frame.refers, List.map_nil, List.sum_nil, listed, one_self]
      at ho hr hd hf
    constructor
    . exact hgood.wf
    . have := hgood.references
      dsimp only
      omega
    . intro hpos
      dsimp only at hpos
      omega
    . intro _
      rw [if_pos rfl]
      omega
    . rw [if_pos (by simp)]
      cases hflag : s.queue.inGlobal with
      | true =>
        rw [hflag, if_pos rfl] at howner ho
        omega
      | false =>
        rw [hflag] at howner ho
        simp only [Bool.false_eq_true, ↓reduceIte, List.count_append, List.count_singleton_self]
          at howner ho
        omega
    . exact hgood.asleep
    . exact fun _ => rfl
    . intro hpos
      apply hgood.emptied
      omega
    . have hphases := h.phases hs hn rfl fun _ => Nat.le_refl _
      exact ⟨hphases.started, hphases.initialized, hphases.launched, hphases.loaded⟩
  . have := h.log q
    rw [hs] at this
    rw [inHand_goOn hthread (by rfl) (by rfl)]
    simpa [setService, waiting, MessageQueue.messages] using this

theorem Inv.pushQueue {message : SkynetMessage} (h : node.Inv)
    (hthread : node.threads[i]? = some (.pushQueue q message :: rest)) (w : Int) (choice : Choice)
    : node.Advances i rest (frameStep w node choice (.pushQueue q message)) := by
  obtain ⟨s, hcontext, hs, hne, hgood, hpos, hrelease⟩ := h.referred hthread (q := q)
    (by simp [Frame.holds, Frame.refers])
  obtain ⟨hflag, hwf, hmessages, hglobal, hrel⟩ := skynetMqPush_spec hgood.wf message
  unfold frameStep
  simp only [hcontext]
  generalize hpushed : skynetMqPush s.queue message = pushed at hflag hwf hmessages hglobal hrel
  obtain ⟨flag, queue⟩ := pushed
  dsimp only at hflag hwf hmessages hglobal hrel ⊢
  subst hflag
  rw [h.pushIf hs hrelease _ (by rfl)]
  refine ⟨_, _, rfl, rfl, h.setQueue hthread hs hwf hrel _
    (Function.update node.sent q (node.sent q ++ [message])) node.handled node.dropped
    ?_ ?_ (fun _ _ => rfl) rfl (fun _ => Nat.le_refl _) ?_ ?_ (h.served q s hs)
    (fun _ hthreads => inHand_goOn hthread hthreads rfl) ?_⟩
  . intro handle hneq
    simp [hneq]
  . intro kind handle hneq
    cases kind with
    | owner =>
      simp only [Frame.holds, Frame.owns, List.map_cons, List.map_nil, List.sum_cons, List.sum_nil,
        listed]
      split
      . rfl
      . simp [List.count_append, Ne.symm hneq]
    | reference => simp [Frame.holds, Frame.refers, listed]
    | deleter => rfl
    | dropper => rfl
    | freer => rfl
    | phase phase => rfl
  . intro n hn
    have ho := hn .owner
    have hr := hn .reference
    have hd := hn .deleter
    have hp := hn .dropper
    have hf := hn .freer
    simp only [Frame.holds, Frame.owns, Frame.refers, List.map_cons, List.map_nil, List.sum_cons,
      List.sum_nil, listed, one_self] at ho hr hd hp hf
    have howner := hgood.owner
    rw [hrelease] at howner
    simp only [Bool.false_eq_true, false_or] at howner
    have hdrop := hgood.dropping
    have hfrees := node.count_freer_le q
    refine ⟨by omega, by omega, ?_, ?_, ?_⟩
    . intro hpos
      apply hdrop
      omega
    . rw [hglobal, if_pos (by simp)]
      cases hflag : s.queue.inGlobal with
      | true =>
        rw [hflag, if_pos rfl] at howner ho
        omega
      | false =>
        rw [hflag] at howner ho
        simp only [Bool.false_eq_true, ↓reduceIte, List.count_append, List.count_singleton_self]
          at howner ho
        omega
    . intro hpos
      have := hdrop (by omega)
      rw [hrelease] at this
      simp at this
  . intro hfalse
    rw [hglobal] at hfalse
    simp at hfalse
  . have := h.log q
    rw [hs, waiting] at this
    rw [Function.update_self, hmessages, this, List.append_assoc]

theorem Inv.launch (h : node.Inv) (hthread : node.threads[i]? = some (top :: rest)) (hne : q ≠ 0)
    (hs : node.services q = none) {frames : List Frame}
    (hframes : ∀ kind handle, (frames.map (Frame.holds kind handle)).sum
      = (Frame.init q).holds kind handle + top.holds kind handle)
    (hmessages : ∀ handle, frames.flatMap (Frame.message handle) = top.message handle)
    : ((node.launch q).goOn i frames rest).Inv := by
  have hzero := h.gone q hs
  have hhand : node.inHand q = [] := by
    apply Stacks.collect_eq_nil (f := Frame.holds .owner q)
    . intro frame
      cases frame <;> simp [Frame.holds, Frame.owns, Frame.message, one]
    . have := hzero .owner
      simp only [count] at this
      omega
  refine h.goOn hthread q rfl ?_ ?_ (fun handle _ => hmessages handle) ?_ ?_
  . intro handle hneq
    simp [Node.launch, setService, hneq]
  . intro kind handle hneq
    rw [hframes]
    cases kind with
    | phase phase => cases phase <;> simp [Frame.holds, Frame.phase, listed, hneq]
    | _ => simp [Node.launch, setService, Frame.holds, Frame.owns, Frame.refers, hneq]
  . intro n hn
    simp only [hframes, hzero, Node.launch, setService] at hn
    have ho := hn .owner
    have hr := hn .reference
    have hd := hn .deleter
    have hp := hn .dropper
    have hphase := fun phase => hn (.phase phase)
    simp only [Frame.holds, Frame.owns, Frame.refers, one_self] at ho hr hd hp
    simp only [Frame.holds, Frame.phase, one_self, listed] at hphase
    have hstarting := hphase .starting
    have hloading := hphase .loading
    have hlaunching := hphase .launching
    have hserving := hphase .serving
    refine .inl ⟨⟨true, false, false, 2, skynetMqCreate⟩, hne, by simp [Node.launch, setService], ?_,
      fun _ => by simp [Node.launch]⟩
    constructor
    . exact wf_skynetMqCreate
    . simp only [↓reduceIte]
      omega
    . intro _
      exact ⟨rfl, by omega⟩
    . simp
    . rw [if_pos (.inr rfl)]
      omega
    . simp [skynetMqCreate]
    . intro hpos
      omega
    . exact fun _ => messages_skynetMqCreate
    . refine ⟨fun _ _ => ?_, fun hpos => ?_, fun _ => rfl, fun _ => ?_⟩
      . dsimp only at hstarting ⊢
        omega
      . dsimp only at hserving hpos
        omega
      . dsimp only at hlaunching ⊢
        omega
  . rw [inHand_goOn hthread (by rfl) (hmessages q), hhand]
    simp [Node.launch, setService, waiting]

theorem Inv.serviceCode (h : node.Inv) (hthread : node.threads[i]? = some (top :: rest))
    (choice : Choice) : node.Advances i rest (some (node.serviceCode choice top)) := by
  have hself : node.Advances i rest (some (node, [top])) := by
    apply h.same hthread
    . simp
    . simp
  have hcall : ∀ frame : Frame, (∀ kind handle, frame.holds kind handle = 0) →
      (∀ handle, frame.message handle = []) → node.Advances i rest (some (node, [frame, top])) := by
    intro frame hholds hmessage
    apply h.same hthread
    . simp [hholds]
    . simp [hmessage]
  cases choice with
  | go => exact hself
  | setCallback cb => exact hself
  | finish ok => exact hself
  | push handle message =>
    apply hcall
    . intro kind handle
      cases kind <;> rfl
    . intro handle
      rfl
  | retire handle =>
    apply hcall
    . intro kind handle
      cases kind <;> rfl
    . intro handle
      rfl
  | launch handle =>
    unfold Node.serviceCode
    dsimp only
    split
    . next hfree =>
      refine ⟨_, _, rfl, rfl, h.launch hthread hfree.1 ?_ ?_ ?_⟩
      . exact Option.isNone_iff_eq_none.mp hfree.2
      . simp
      . simp [Frame.message]
    . exact hself

theorem Inv.setContext (h : node.Inv) (hthread : node.threads[i]? = some (top :: rest)) {s : Service}
    (hs : node.services q = some s) (init cb : Bool) {frames : List Frame}
    (hothers : ∀ kind, ∀ handle ≠ q,
      (frames.map (Frame.holds kind handle)).sum = top.holds kind handle)
    (hmessages : ∀ handle, frames.flatMap (Frame.message handle) = top.message handle)
    (hsame : ∀ kind, (∀ phase, kind ≠ .phase phase) →
      (frames.map (Frame.holds kind q)).sum = top.holds kind q)
    (hphases : ∀ n : Phase → Nat,
      (∀ phase, n phase + top.holds (.phase phase) q
        = node.count (.phase phase) q + (frames.map (Frame.holds (.phase phase) q)).sum) →
      ({ s with init := init, cb := cb } : Service).Phases n)
    : node.Advances i rest
        (some (node.setService q { s with init := init, cb := cb }, frames)) := by
  have hgood := h.good q s hs
  have hne : q ≠ 0 := by
    rintro rfl
    rw [h.reserved] at hs
    simp at hs
  refine ⟨_, _, rfl, rfl, h.goOn hthread q rfl ?_ ?_ (fun handle _ => hmessages handle) ?_ ?_⟩
  . intro handle hneq
    simp [setService, hneq]
  . intro kind handle hneq
    rw [hothers kind handle hneq]
    rfl
  . intro n hn
    have hcount : ∀ kind, (∀ phase, kind ≠ .phase phase) → n kind = node.count kind q := by
      intro kind hkind
      have := hn kind
      rw [hsame kind hkind] at this
      simp only [setService] at this
      omega
    have ho := hcount .owner (by simp)
    have hr := hcount .reference (by simp)
    have hd := hcount .deleter (by simp)
    have hp := hcount .dropper (by simp)
    have hf := hcount .freer (by simp)
    refine .inl ⟨{ s with init := init, cb := cb }, hne, by simp [setService], ?_, h.served q s hs⟩
    refine ⟨hgood.wf, ?_, ?_, ?_, ?_, hgood.asleep, ?_, ?_, ?_⟩
    . rw [hr]
      exact hgood.references
    . rw [hd]
      exact hgood.alive
    . rw [hd]
      exact hgood.dead
    . rw [ho]
      exact hgood.owner
    . rw [hp]
      exact hgood.dropping
    . rw [hf]
      exact hgood.emptied
    . exact hphases _ fun phase => hn (.phase phase)
  . have hlog := h.log q
    rw [hs] at hlog
    rw [inHand_goOn hthread (by rfl) (hmessages q)]
    simpa [setService, waiting] using hlog

theorem Inv.proceed (h : node.Inv) (hthread : node.threads[i]? = some (top :: rest)) {s : Service}
    (hs : node.services q = some s) {frames : List Frame}
    (hothers : ∀ kind, ∀ handle ≠ q,
      (frames.map (Frame.holds kind handle)).sum = top.holds kind handle)
    (hmessages : ∀ handle, frames.flatMap (Frame.message handle) = top.message handle)
    (hsame : ∀ kind, (∀ phase, kind ≠ .phase phase) →
      (frames.map (Frame.holds kind q)).sum = top.holds kind q)
    (hle : ∀ phase, (frames.map (Frame.holds (.phase phase) q)).sum ≤ top.holds (.phase phase) q)
    (hstarting : s.registered = true → (frames.map (Frame.holds (.phase .starting) q)).sum
      = top.holds (.phase .starting) q)
    : node.Advances i rest (some (node, frames)) := by
  have hself : node.setService q { s with init := s.init, cb := s.cb } = node := by
    unfold setService
    rw [← hs, Function.update_eq_self]
  have hset := h.setContext hthread hs s.init s.cb hothers hmessages hsame (by
    intro n hn
    have hphases := (h.good q s hs).phases
    have hn' : ∀ phase, n phase ≤ node.count (.phase phase) q := by
      intro phase
      have := hn phase
      have := hle phase
      omega
    refine ⟨?_, ?_, ?_, ?_⟩
    . intro hregistered hinit
      have := hphases.started hregistered hinit
      have := hn .starting
      have := hstarting hregistered
      omega
    . exact fun hpos => hphases.initialized (Nat.lt_of_lt_of_le hpos (hn' .serving))
    . exact fun hpos => hphases.launched (Nat.lt_of_lt_of_le hpos (hn' .launching))
    . intro hpos
      have := hphases.loaded (Nat.lt_of_lt_of_le hpos (hn' .loading))
      have := hn' .launching
      omega)
  rwa [hself] at hset

theorem Inv.ownCode (h : node.Inv) (hthread : node.threads[i]? = some (top :: rest))
    (hpos : 0 < top.holds .reference q) (choice : Choice)
    : node.Advances i rest (node.ownCode choice q top) := by
  obtain ⟨s, hcontext, hs, -, hgood, -, -⟩ := h.referred hthread hpos
  cases choice with
  | setCallback cb =>
    unfold Node.ownCode
    simp only [hcontext]
    apply h.setContext hthread hs s.init cb
    . simp
    . simp
    . simp
    . intro n hn
      have hsame : ∀ phase, n phase = node.count (.phase phase) q := by
        intro phase
        simpa using hn phase
      have hphases := hgood.phases
      simp only [← hsame] at hphases
      exact ⟨hphases.started, hphases.initialized, hphases.launched, hphases.loaded⟩
  | go => exact h.serviceCode hthread .go
  | finish ok => exact h.serviceCode hthread (.finish ok)
  | push handle message => exact h.serviceCode hthread (.push handle message)
  | retire handle => exact h.serviceCode hthread (.retire handle)
  | launch handle => exact h.serviceCode hthread (.launch handle)

theorem Inv.trigger {k n : Nat} {message : SkynetMessage} (h : node.Inv)
    (hthread : node.threads[i]? = some (.trigger q k n message :: rest)) (w : Int) (choice : Choice)
    : node.Advances i rest (frameStep w node choice (.trigger q k n message)) := by
  obtain ⟨s, hcontext, hs, hne, hgood, -, -⟩ := h.referred hthread (q := q)
    (by simp [Frame.holds, Frame.refers])
  have hsame : (skynetMqOverload s.queue).2.ring = s.queue.ring
      ∧ (skynetMqOverload s.queue).2.release = s.queue.release
      ∧ (skynetMqOverload s.queue).2.inGlobal = s.queue.inGlobal := by
    unfold skynetMqOverload
    split
    . exact ⟨rfl, rfl, rfl⟩
    . exact ⟨rfl, rfl, rfl⟩
  obtain ⟨hring, hrelease, hglobal⟩ := hsame
  have hqueue : (skynetMqOverload s.queue).2.messages = s.queue.messages := by
    rw [MessageQueue.messages, MessageQueue.messages, hring]
  have hinv : ∀ frames : List Frame,
      (∀ kind handle, (frames.map (Frame.holds kind handle)).sum
        = (Frame.trigger q k n message).holds kind handle) →
      (∀ handle, frames.flatMap (Frame.message handle)
        = (Frame.trigger q k n message).message handle) →
      ((node.setService q { s with queue := (skynetMqOverload s.queue).2 }).goOn i frames rest).Inv := by
    intro frames hframes hmessages
    refine h.setQueue hthread hs ?_ hrelease node.global node.sent node.handled node.dropped
      (fun _ _ => ⟨rfl, rfl, rfl⟩) ?_ (fun handle _ => hmessages handle) (hframes _ _)
      (fun _ => Nat.le_of_eq (hframes _ _)) ?_ ?_ (h.served q s hs)
      (fun _ hthreads => inHand_goOn hthread hthreads (hmessages q)) ?_
    . rw [hring]
      exact hgood.wf
    . intro kind handle _
      rw [hframes]
    . intro n' hn
      have hcount : ∀ kind, n' kind = node.count kind q := by
        intro kind
        have := hn kind
        rw [hframes] at this
        omega
      simp only [hcount, hrelease, hglobal, hqueue]
      exact ⟨trivial, trivial, hgood.dropping, hgood.owner, hgood.emptied⟩
    . rw [hglobal, hqueue]
      exact hgood.asleep
    . have := h.log q
      rwa [hs, waiting, ← hqueue] at this
  unfold frameStep
  simp only [hcontext]
  split
  . refine ⟨_, _, rfl, rfl, hinv _ ?_ ?_⟩
    . intro kind handle
      cases choice <;> cases kind <;> simp [skynetError, Frame.holds, Frame.owns, Frame.refers,
        Frame.phase]
    . intro handle
      cases choice <;> simp [skynetError, Frame.message]
  . refine ⟨_, _, rfl, rfl, hinv _ ?_ ?_⟩
    . intro kind handle
      cases kind <;> rfl
    . intro handle
      exact List.flatMap_singleton ..

theorem Inv.handleMessage {k n : Nat} {message : SkynetMessage} (h : node.Inv)
    (hthread : node.threads[i]? = some (.dispatch q k n message :: rest)) (called : Bool)
    (frame : Frame)
    (hframe : ∀ kind handle, frame.holds kind handle
      = (Frame.dispatch q k n message).holds kind handle)
    (hmessage : ∀ handle, frame.message handle = [])
    : ({ node with
        handled := Function.update node.handled q (node.handled q ++ [(message, called)])
      }.goOn i [frame] rest).Inv := by
  obtain ⟨s, -, hs, hne, hgood, hpos, hrelease⟩ := h.referred hthread (q := q)
    (by simp [Frame.holds, Frame.refers])
  obtain ⟨hbefore, hafter⟩ := h.inHand_alone hthread (q := q) (by simp [Frame.holds, Frame.owns])
    [frame]
  have hdropped := h.served q s hs hrelease
  refine h.goOn hthread q rfl ?_ ?_ ?_ ?_ ?_
  . intro handle hneq
    simp [hneq]
  . intro kind handle _
    simp [hframe]
  . intro handle hneq
    rw [List.flatMap_singleton, hmessage]
    simp [Frame.message, Ne.symm hneq]
  . intro n' hn
    have hcount : ∀ kind, n' kind = node.count kind q := by
      intro kind
      have := hn kind
      simp only [List.map_cons, List.map_nil, List.sum_cons, List.sum_nil, hframe] at this
      omega
    refine .inl ⟨s, hne, hs, ?_, h.served q s hs⟩
    have hgood' := hgood
    simp only [← hcount] at hgood'
    exact hgood'
  . have hlog := h.log q
    rw [hbefore, hs, hdropped] at hlog
    rw [hafter _ (by rfl), List.flatMap_singleton, hmessage]
    simpa [hs, hdropped, Frame.message] using hlog

theorem Inv.dispatch {k n : Nat} {message : SkynetMessage} (h : node.Inv)
    (hthread : node.threads[i]? = some (.dispatch q k n message :: rest)) (w : Int) (choice : Choice)
    : node.Advances i rest (frameStep w node choice (.dispatch q k n message)) := by
  obtain ⟨s, hcontext, hs, hne, hgood, -, -⟩ := h.referred hthread (q := q)
    (by simp [Frame.holds, Frame.refers])
  have hinit : s.init = true := by
    apply hgood.phases.initialized
    have := holds_le_count hthread (.phase .serving) q
    simp only [Frame.holds, Frame.phase, one_self] at this
    exact this
  unfold frameStep
  simp only [hcontext, hinit]
  split
  . refine ⟨_, _, rfl, rfl, h.handleMessage hthread s.cb _ ?_ fun _ => rfl⟩
    intro kind handle
    cases kind <;> rfl
  . refine ⟨_, _, rfl, rfl, h.handleMessage hthread s.cb _ ?_ fun _ => rfl⟩
    intro kind handle
    cases kind <;> rfl

theorem Inv.worker (h : node.Inv) (hthread : node.threads[i]? = some (.worker none :: rest))
    (w : Int) (choice : Choice) : node.Advances i rest (frameStep w node choice (.worker none)) := by
  have heq : frameStep w node choice (.worker none) = some (node.globalmqPop.2,
      node.globalmqPop.1.elim [.worker none] fun q => [.grab q]) := by
    unfold Node.frameStep
    generalize node.globalmqPop = popped
    obtain ⟨q, node⟩ := popped
    cases q with
    | none => rfl
    | some q => rfl
  rw [heq]
  apply h.globalmqPop hthread fun q => q.elim [.worker none] fun q => [.grab q]
  . intro kind handle
    cases kind <;> rfl
  . intro nq kind handle
    cases kind <;> simp [Frame.holds, Frame.owns, Frame.refers, Frame.phase]
  . intro nq handle
    cases nq <;> rfl

theorem Inv.putBack (h : node.Inv) (hthread : node.threads[i]? = some (.putBack q :: rest))
    (w : Int) (choice : Choice) : node.Advances i rest (frameStep w node choice (.putBack q)) := by
  obtain ⟨s, hcontext, hs, -, -, -, -⟩ := h.referred hthread (q := q)
    (by simp [Frame.holds, Frame.refers])
  have heq : frameStep w node choice (.putBack q) = some (node.globalmqPop.2,
      node.globalmqPop.1.elim [.release q, .worker (some q)] fun nq => [.pushBack q nq]) := by
    unfold Node.frameStep
    simp only [hcontext]
    generalize node.globalmqPop = popped
    obtain ⟨nq, node⟩ := popped
    cases nq with
    | none => rfl
    | some nq => rfl
  rw [heq]
  apply h.globalmqPop hthread fun nq =>
    nq.elim [.release q, .worker (some q)] fun nq => [.pushBack q nq]
  . intro kind handle
    cases kind <;> simp [Frame.holds, Frame.owns, Frame.refers, Frame.phase]
  . intro nq kind handle
    cases kind <;> simp [Frame.holds, Frame.owns, Frame.refers, Frame.phase]
  . intro nq handle
    cases nq <;> rfl

theorem Inv.launching (h : node.Inv) (hthread : node.threads[i]? = some (top :: rest))
    (hpos : 0 < top.holds (.phase .launching) q)
    : ∃ s, node.context q = some s ∧ node.services q = some s ∧ s.Good (node.count · q)
        ∧ 0 < node.count (.phase .launching) q := by
  obtain ⟨s, hs, -, hgood⟩ := h.service hthread (.phase .launching) hpos
  have hcount := Nat.lt_of_lt_of_le hpos (holds_le_count hthread (.phase .launching) q)
  have href := hgood.references
  rw [hgood.phases.launched hcount] at href
  simp only [↓reduceIte] at href
  refine ⟨s, ?_, hs, hgood, hcount⟩
  unfold context
  rw [hs]
  exact if_neg (by omega)

theorem Inv.unregister (h : node.Inv) (hthread : node.threads[i]? = some (top :: rest)) {s : Service}
    (hs : node.services q = some s) (hregistered : s.registered = true)
    (hnone : node.count (.phase .launching) q = 0) {frames : List Frame}
    (hothers : ∀ kind, ∀ handle ≠ q,
      (frames.map (Frame.holds kind handle)).sum = top.holds kind handle)
    (hmessages : ∀ handle, frames.flatMap (Frame.message handle) = top.message handle)
    (howns : ∀ kind, kind = .owner ∨ kind = .dropper ∨ kind = .freer ∨ kind = .deleter →
      (frames.map (Frame.holds kind q)).sum = top.holds kind q)
    (hreference : (frames.map (Frame.holds .reference q)).sum = top.holds .reference q + 1)
    (hphases : ∀ phase, (frames.map (Frame.holds (.phase phase) q)).sum
      ≤ top.holds (.phase phase) q)
    : node.Advances i rest (some (node.setService q { s with registered := false }, frames)) := by
  have hgood := h.good q s hs
  have href := hgood.references
  simp only [hregistered, ↓reduceIte] at href
  have hpos : 0 < s.ref := by omega
  have halive := hgood.alive hpos
  apply h.setRef hthread hs hpos hothers hmessages
  . rintro kind (rfl | rfl | rfl)
    . exact howns _ (by simp)
    . exact howns _ (by simp)
    . exact howns _ (by simp)
  . intro n hn
    have hr := hn .reference
    have hd := hn .deleter
    rw [hreference] at hr
    rw [howns .deleter (by simp)] at hd
    have hle : ∀ phase, n (.phase phase) ≤ node.count (.phase phase) q := by
      intro phase
      have := hn (.phase phase)
      have := hphases phase
      omega
    refine ⟨?_, ?_, ?_, ?_, ?_, ?_⟩
    . simp only [Bool.false_eq_true, ↓reduceIte]
      omega
    . rw [if_neg (by omega)]
      omega
    . intro hfalse
      simp at hfalse
    . intro hserving
      exact hgood.phases.initialized (Nat.lt_of_lt_of_le hserving (hle .serving))
    . intro hlaunching
      have := hle .launching
      omega
    . intro _
      have := hle .launching
      omega

theorem Inv.retire (h : node.Inv) (hthread : node.threads[i]? = some (.retire q :: rest))
    (hnone : node.count (.phase .launching) q = 0) (w : Int) (choice : Choice)
    : node.Advances i rest (frameStep w node choice (.retire q)) := by
  have hdone : node.Advances i rest (some (node, [])) := by
    apply h.same hthread
    . intro kind handle
      cases kind <;> rfl
    . intro handle
      rfl
  unfold frameStep
  dsimp only
  cases hs : node.services q with
  | none => exact hdone
  | some s =>
    cases hregistered : s.registered with
    | false =>
      simp only [hregistered]
      exact hdone
    | true =>
      simp only [hregistered, ↓reduceIte]
      apply h.unregister hthread hs hregistered hnone
      . intro kind handle hneq
        exact sum_holds_eq (by simp) (by simp) kind hneq
      . intro handle
        rfl
      . rintro kind (rfl | rfl | rfl | rfl) <;> rfl
      . simp [Frame.holds, Frame.refers]
      . intro phase
        exact Nat.le_refl _

theorem Inv.failed (h : node.Inv) (hthread : node.threads[i]? = some (.failed q :: rest))
    (w : Int) (choice : Choice) : node.Advances i rest (frameStep w node choice (.failed q)) := by
  obtain ⟨s, hs, -, hgood⟩ := h.service hthread (q := q) .owner (by simp [Frame.holds, Frame.owns])
  have hloading := holds_le_count hthread (.phase .loading) q
  simp only [Frame.holds, Frame.phase, one_self] at hloading
  have hnone := hgood.phases.loaded (Nat.lt_of_lt_of_le Nat.zero_lt_one hloading)
  unfold frameStep
  simp only [hs]
  split
  . next hregistered =>
    apply h.unregister hthread hs hregistered hnone
    . intro kind handle hneq
      exact sum_holds_eq (by simp) (by simp) kind hneq
    . intro handle
      rfl
    . rintro kind (rfl | rfl | rfl | rfl)
      . simp [Frame.holds, Frame.owns]
      . rfl
      . rfl
      . rfl
    . simp [Frame.holds, Frame.refers]
    . intro phase
      exact Nat.zero_le _
  . next hregistered =>
    apply h.proceed hthread hs
    . intro kind handle hneq
      exact sum_holds_eq (by simp) (by simp) kind hneq
    . intro handle
      rfl
    . intro kind hkind
      cases kind with
      | phase phase => exact absurd rfl (hkind phase)
      | _ => simp [Frame.holds, Frame.owns, Frame.refers]
    . intro phase
      exact Nat.zero_le _
    . intro htrue
      exact absurd htrue hregistered

-- The thread gives its reference back, and goes on with its pointer if another one is left.
theorem Inv.launched (h : node.Inv) (hthread : node.threads[i]? = some (.launched q :: rest))
    (hpatient : ∀ s, node.services q = some s → s.registered = true ∨ s.ref = 1) (w : Int)
    (choice : Choice) : node.Advances i rest (frameStep w node choice (.launched q)) := by
  obtain ⟨s, hcontext, hs, hne, hgood, hpos, hrelease⟩ := h.referred hthread (q := q)
    (by simp [Frame.holds, Frame.refers])
  have href := hgood.references
  have halive := hgood.alive hpos
  have hholds := holds_le_count hthread .reference q
  simp only [Frame.holds, Frame.refers, one_self] at hholds
  unfold frameStep
  simp only [hcontext]
  by_cases hone : s.ref = 1
  . have hregistered : s.registered = false := by
      by_contra htrue
      rw [Bool.not_eq_false] at htrue
      rw [htrue] at href
      simp only [↓reduceIte] at href
      omega
    simp only [hone, ↓reduceIte]
    apply h.setRef hthread hs hpos
    . intro kind handle hneq
      exact sum_holds_eq (by simp) (by simp) kind hneq
    . intro handle
      rfl
    . rintro kind (rfl | rfl | rfl)
      . simp [Frame.holds, Frame.owns]
      . rfl
      . rfl
    . intro n hn
      have hr := hn .reference
      have hd := hn .deleter
      have hphase := fun phase => hn (.phase phase)
      simp only [Frame.holds, Frame.refers, Frame.phase, List.map_cons, List.map_nil, List.sum_cons,
        List.sum_nil, one_self] at hr hd hphase
      have hlaunching := hphase .launching
      have hloading := hphase .loading
      have hserving := hphase .serving
      dsimp only at hlaunching hloading hserving
      rw [hregistered] at href ⊢
      simp only [Bool.false_eq_true, ↓reduceIte] at href ⊢
      refine ⟨by omega, by omega, ?_, ?_, ?_, ?_⟩
      . simp
      . intro hpos
        apply hgood.phases.initialized
        omega
      . intro hpos
        have := hgood.phases.launched (by omega)
        rw [hregistered] at this
        exact this
      . intro _
        have := hgood.phases.loaded (by omega)
        omega
  . have hregistered := (hpatient s hs).resolve_right hone
    rw [hregistered] at href
    simp only [↓reduceIte] at href
    simp only [hone, ↓reduceIte]
    apply h.setRef hthread hs hpos
    . intro kind handle hneq
      exact sum_holds_eq (by simp) (by simp) kind hneq
    . intro handle
      rfl
    . rintro kind (rfl | rfl | rfl)
      . simp [Frame.holds, Frame.owns]
      . rfl
      . rfl
    . intro n hn
      have hr := hn .reference
      have hd := hn .deleter
      have hphase := fun phase => hn (.phase phase)
      simp only [Frame.holds, Frame.refers, Frame.phase, List.map_cons, List.map_nil, List.sum_cons,
        List.sum_nil, one_self] at hr hd hphase
      have hstarting := hphase .starting
      have hlaunching := hphase .launching
      have hloading := hphase .loading
      have hserving := hphase .serving
      dsimp only at hstarting hlaunching hloading hserving
      have hle := node.count_phase_le (show Phase.loading ≠ .launching by simp) q
      have howner := hgood.owner_le
      refine ⟨?_, ?_, ?_, ?_, fun _ => hregistered, ?_⟩
      . simp only [hregistered, ↓reduceIte]
        omega
      . rw [if_neg (by omega)]
        omega
      . intro htrue hinit
        have := hgood.phases.started htrue hinit
        omega
      . intro hpos
        apply hgood.phases.initialized
        omega
      . intro hpos
        omega

theorem Inv.setInit (h : node.Inv) (hthread : node.threads[i]? = some (.setInit q :: rest))
    (w : Int) (choice : Choice) : node.Advances i rest (frameStep w node choice (.setInit q)) := by
  obtain ⟨s, hcontext, hs, hgood, hcount⟩ := h.launching hthread (q := q)
    (by simp [Frame.holds, Frame.phase])
  have hregistered := hgood.phases.launched hcount
  unfold frameStep
  simp only [hcontext]
  apply h.setContext hthread hs true s.cb
  . intro kind handle hneq
    exact sum_holds_eq (by simp) (by simp) kind hneq
  . intro handle
    rfl
  . intro kind hkind
    cases kind with
    | phase phase => exact absurd rfl (hkind phase)
    | _ => simp [Frame.holds, Frame.owns, Frame.refers]
  . intro n hn
    have hloading := hn .loading
    simp only [Frame.holds, Frame.phase, List.map_cons, List.map_nil, List.sum_cons, List.sum_nil]
      at hloading
    refine ⟨by simp, fun _ => rfl, fun _ => hregistered, ?_⟩
    intro hpos
    have := hgood.phases.loaded (by omega)
    omega

theorem Inv.usePointer (h : node.Inv) (hthread : node.threads[i]? = some (top :: rest))
    (htop : top = .logLaunch q ∨ top = .readHandle q) (w : Int) (choice : Choice)
    : node.Advances i rest (frameStep w node choice top) := by
  have hpos : 0 < top.holds (.phase .launching) q := by
    rcases htop with rfl | rfl <;> simp [Frame.holds, Frame.phase]
  obtain ⟨s, hcontext, hs, hgood, hcount⟩ := h.launching hthread hpos
  have hstep : ∀ frames : List Frame, (∀ kind handle, (frames.map (Frame.holds kind handle)).sum = 0) →
      (∀ handle, frames.flatMap (Frame.message handle) = []) →
      node.Advances i rest (some (node, frames)) := by
    intro frames hholds hmessages
    apply h.proceed hthread hs
    . intro kind handle hneq
      rw [hholds, Frame.holds_eq_zero]
      rcases htop with rfl | rfl <;> simp [hneq]
    . intro handle
      rw [hmessages]
      rcases htop with rfl | rfl <;> rfl
    . intro kind hkind
      rw [hholds]
      rcases htop with rfl | rfl
      . cases kind with
        | phase phase => exact absurd rfl (hkind phase)
        | _ => rfl
      . cases kind with
        | phase phase => exact absurd rfl (hkind phase)
        | _ => rfl
    . intro phase
      rw [hholds]
      exact Nat.zero_le _
    . intro _
      rw [hholds]
      rcases htop with rfl | rfl <;> rfl
  rcases htop with rfl | rfl
  . unfold frameStep
    simp only [hcontext]
    apply hstep
    . intro kind handle
      cases choice <;> cases kind <;> rfl
    . intro handle
      cases choice <;> rfl
  . unfold frameStep
    simp only [hcontext]
    apply hstep
    . intro kind handle
      rfl
    . intro handle
      rfl

theorem Inv.frameStep (h : node.Inv) (hthread : node.threads[i]? = some (top :: rest))
    (hretire : ∀ handle, top = .retire handle → node.count (.phase .launching) handle = 0)
    (hlaunched : ∀ handle s, top = .launched handle → node.services handle = some s →
      s.registered = true ∨ s.ref = 1)
    (w : Int) (choice : Choice) : node.Advances i rest (frameStep w node choice top) := by
  cases top with
  | outside => exact h.serviceCode hthread choice
  | worker q =>
    cases q with
    | none => exact h.worker hthread w choice
    | some q =>
      apply h.same hthread
      . intro kind handle
        cases kind <;> rfl
      . intro handle
        rfl
  | grab q =>
    obtain ⟨s, hs, -, -⟩ := h.service hthread (q := q) .owner (by simp [Frame.holds, Frame.owns])
    unfold Node.frameStep
    simp only [hs]
    apply h.handleGrab hthread 1
    . intro kind handle
      cases kind with
      | phase phase => cases phase <;> simp [Frame.holds, Frame.phase]
      | _ => simp [Frame.holds, Frame.owns, Frame.refers]
    . intro kind handle
      cases kind <;> simp [Frame.holds, Frame.owns, Frame.refers, Frame.phase]
    . intro handle
      exact ⟨rfl, rfl⟩
    . intro _
      simp [Frame.holds, Frame.owns, Frame.phase]
  | popNext =>
    apply h.globalmqPop hthread fun q => [.worker q]
    . intro kind handle
      cases kind <;> rfl
    . intro nq kind handle
      cases kind <;> simp [Frame.holds, Frame.owns, Frame.refers, Frame.phase]
    . intro nq handle
      rfl
  | mqRelease q => exact h.mqRelease hthread w choice
  | drop q => exact h.drop hthread w choice
  | free q => exact h.free hthread w choice
  | loop q k n => exact h.loop hthread w choice
  | length q message =>
    obtain ⟨s, hs, -, -⟩ := h.service hthread (q := q) .owner (by simp [Frame.holds, Frame.owns])
    unfold Node.frameStep
    simp only [hs]
    apply h.same hthread
    . intro kind handle
      cases kind <;> rfl
    . intro handle
      exact List.flatMap_singleton ..
  | trigger q k n message => exact h.trigger hthread w choice
  | dispatch q k n message => exact h.dispatch hthread w choice
  | callback q k n =>
    have hpos : 0 < (Frame.callback q k n).holds .reference q := by
      simp [Frame.holds, Frame.refers]
    cases choice with
    | finish ok =>
      apply h.same hthread
      . intro kind handle
        cases kind <;> rfl
      . intro handle
        rfl
    | setCallback cb => exact h.ownCode hthread hpos (.setCallback cb)
    | go => exact h.ownCode hthread hpos .go
    | push handle message => exact h.ownCode hthread hpos (.push handle message)
    | retire handle => exact h.ownCode hthread hpos (.retire handle)
    | launch handle => exact h.ownCode hthread hpos (.launch handle)
  | putBack q => exact h.putBack hthread w choice
  | pushBack q nq =>
    have hpos : 0 < (Frame.pushBack q nq).holds .owner q := by simp [Frame.holds, Frame.owns]
    obtain ⟨s, hs, -, -⟩ := h.service hthread .owner hpos
    unfold Node.frameStep
    simp only [hs]
    apply h.globalmqPush hthread hpos
    . intro kind handle
      cases kind <;> simp [Frame.holds, Frame.owns, Frame.refers, Frame.phase, Nat.add_comm]
    . intro handle
      rfl
  | release q => exact h.release hthread w choice
  | markRelease q => exact h.markRelease hthread w choice
  | pushGrab q message =>
    unfold Node.frameStep
    apply h.handleGrab hthread 0
    . intro kind handle
      cases kind with
      | phase phase => cases phase <;> simp [Frame.holds, Frame.phase]
      | _ => simp [Frame.holds, Frame.owns, Frame.refers]
    . intro kind handle
      cases kind <;> simp [Frame.holds, Frame.owns, Frame.refers, Frame.phase]
    . intro handle
      exact ⟨rfl, rfl⟩
    . intro hpos
      exact absurd hpos (Nat.lt_irrefl 0)
  | pushQueue q message => exact h.pushQueue hthread w choice
  | retire q => exact h.retire hthread (hretire q rfl) w choice
  | init q =>
    have hpos : 0 < (Frame.init q).holds .reference q := by simp [Frame.holds, Frame.refers]
    cases choice with
    | finish ok =>
      cases ok with
      | true =>
        apply h.same hthread
        . intro kind handle
          cases kind <;> rfl
        . intro handle
          rfl
      | false =>
        apply h.same hthread
        . intro kind handle
          cases kind <;> simp [Frame.holds, Frame.owns, Frame.refers, Frame.phase]
        . intro handle
          rfl
    | setCallback cb => exact h.ownCode hthread hpos (.setCallback cb)
    | go => exact h.ownCode hthread hpos .go
    | push handle message => exact h.ownCode hthread hpos (.push handle message)
    | retire handle => exact h.ownCode hthread hpos (.retire handle)
    | launch handle => exact h.ownCode hthread hpos (.launch handle)
  | launched q => exact h.launched hthread (fun s => hlaunched q s rfl) w choice
  | setInit q => exact h.setInit hthread w choice
  | globalPush q =>
    have hpos : 0 < (Frame.globalPush q).holds .owner q := by simp [Frame.holds, Frame.owns]
    obtain ⟨s, hs, -, -⟩ := h.service hthread .owner hpos
    unfold Node.frameStep
    simp only [hs]
    apply h.globalmqPush hthread hpos
    . intro kind handle
      cases kind <;> simp [Frame.holds, Frame.owns, Frame.refers, Frame.phase]
    . intro handle
      rfl
  | logLaunch q => exact h.usePointer hthread (.inl rfl) w choice
  | readHandle q => exact h.usePointer hthread (.inr rfl) w choice
  | failed q => exact h.failed hthread w choice

end

end Node

end SkynetServer
