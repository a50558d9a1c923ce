import SkynetAoi.Lib.Stacks
import SkynetAoi.Skynet.Server

/-!
This module contains the invariant of the server. Of every service it counts who is in charge of its
queue, who has a reference to its context, who is to delete it and how far its launch has come, over
the calls of all threads.
-/

namespace SkynetServer

open SkynetMq

/--
What a thread does for a service from its launch on: it has not set `init` yet, its init function has
not left its reference, it still uses its pointer without a reference, and it serves the messages.
-/
inductive Phase where
  | starting
  | loading
  | launching
  | serving

inductive Kind where
  | owner
  | reference
  | deleter
  | dropper
  | freer
  | phase (phase : Phase)

def one (q handle : UInt32) : Nat := if q = handle then 1 else 0

@[simp]
theorem one_self (q : UInt32) : one q q = 1 := if_pos rfl

@[simp]
theorem one_of_ne {q handle : UInt32} (h : handle ≠ q) : one q handle = 0 := if_neg (Ne.symm h)

def Frame.owns (handle : UInt32) (frame : Frame) : Nat :=
  match frame with
  | .worker (some q) | .grab q | .mqRelease q | .drop q | .free q => one q handle
  | .loop q _ _ | .length q _ | .trigger q _ _ _ | .dispatch q _ _ _ => one q handle
  | .callback q _ _ | .putBack q => one q handle
  | .pushBack q nq => one q handle + one nq handle
  | .init q | .launched q | .setInit q | .globalPush q | .failed q => one q handle
  | _ => 0

def Frame.refers (handle : UInt32) (frame : Frame) : Nat :=
  match frame with
  | .loop q _ _ | .length q _ | .trigger q _ _ _ | .dispatch q _ _ _ => one q handle
  | .callback q _ _ | .putBack q => one q handle
  | .pushBack q _ => one q handle
  | .init q | .launched q | .release q | .pushQueue q _ => one q handle
  | _ => 0

def Frame.phase (phase : Phase) (handle : UInt32) (frame : Frame) : Nat :=
  match frame with
  | .init q | .launched q | .failed q =>
    match phase with
    | .starting | .loading => one q handle
    | _ => 0
  | .setInit q =>
    match phase with
    | .starting | .launching => one q handle
    | _ => 0
  | .logLaunch q | .readHandle q =>
    match phase with
    | .launching => one q handle
    | _ => 0
  | .loop q _ _ | .length q _ | .trigger q _ _ _ | .dispatch q _ _ _ | .callback q _ _ =>
    match phase with
    | .serving => one q handle
    | _ => 0
  | _ => 0

def Frame.message (handle : UInt32) (frame : Frame) : List SkynetMessage :=
  match frame with
  | .length q message | .trigger q _ _ message | .dispatch q _ _ message =>
    if q = handle then [message] else []
  | _ => []

def Frame.holds (kind : Kind) (handle : UInt32) (frame : Frame) : Nat :=
  match kind with
  | .owner => frame.owns handle
  | .reference => frame.refers handle
  | .deleter =>
    match frame with
    | .markRelease q => one q handle
    | _ => 0
  | .dropper =>
    match frame with
    | .drop q | .free q => one q handle
    | _ => 0
  | .freer =>
    match frame with
    | .free q => one q handle
    | _ => 0
  | .phase phase => frame.phase phase handle

@[simp]
def Frame.handles (frame : Frame) : List UInt32 :=
  match frame with
  | .worker (some q) | .grab q | .mqRelease q | .drop q | .free q => [q]
  | .loop q _ _ | .length q _ | .trigger q _ _ _ | .dispatch q _ _ _ => [q]
  | .callback q _ _ | .putBack q | .release q | .markRelease q | .pushQueue q _ => [q]
  | .pushBack q nq => [q, nq]
  | .init q | .launched q | .setInit q | .globalPush q => [q]
  | .logLaunch q | .readHandle q | .failed q => [q]
  | _ => []

theorem Frame.holds_eq_zero {frame : Frame} {handle : UInt32} (h : handle ∉ frame.handles)
    (kind : Kind) : frame.holds kind handle = 0 := by
  cases frame with
  | worker q =>
    cases q with
    | none => cases kind <;> rfl
    | some q =>
      simp only [Frame.handles, List.mem_singleton] at h
      cases kind <;> simp [Frame.holds, Frame.owns, Frame.refers, Frame.phase, h]
  | outside => cases kind <;> rfl
  | popNext => cases kind <;> rfl
  | pushGrab => cases kind <;> rfl
  | retire => cases kind <;> rfl
  | pushBack q nq =>
    simp only [Frame.handles, List.mem_cons, List.not_mem_nil, or_false, not_or] at h
    cases kind <;> simp [Frame.holds, Frame.owns, Frame.refers, Frame.phase, h]
  | _ =>
    simp only [Frame.handles, List.mem_singleton] at h
    cases kind with
    | phase phase => cases phase <;> simp [Frame.holds, Frame.phase, h]
    | _ => simp [Frame.holds, Frame.owns, Frame.refers, h]

theorem sum_holds_eq {top : Frame} {frames : List Frame} {q handle : UInt32}
    (htop : top.handles ⊆ [q]) (hframes : ∀ frame ∈ frames, frame.handles ⊆ [q]) (kind : Kind)
    (hne : handle ≠ q) : (frames.map (Frame.holds kind handle)).sum = top.holds kind handle := by
  have hnone : ∀ frame : Frame, frame.handles ⊆ [q] → frame.holds kind handle = 0 := by
    intro frame hframe
    apply Frame.holds_eq_zero
    intro hmem
    exact hne (List.mem_singleton.mp (hframe hmem))
  rw [hnone top htop, List.sum_eq_zero]
  intro n hn
  obtain ⟨frame, hmem, rfl⟩ := List.mem_map.mp hn
  exact hnone frame (hframes frame hmem)

def listed (global : List UInt32) (kind : Kind) (handle : UInt32) : Nat :=
  match kind with
  | .owner => global.count handle
  | _ => 0

def Node.count (node : Node) (kind : Kind) (handle : UInt32) : Nat :=
  Stacks.total (Frame.holds kind handle) node.threads + listed node.global kind handle

def Node.inHand (node : Node) (handle : UInt32) : List SkynetMessage :=
  Stacks.collect (Frame.message handle) node.threads

structure Service.Phases (s : Service) (n : Phase → Nat) : Prop where
  started : s.registered = true → s.init = false → 0 < n .starting
  initialized : 0 < n .serving → s.init = true
  launched : 0 < n .launching → s.registered = true
  loaded : 0 < n .loading → n .launching = 0

structure Service.Good (s : Service) (n : Kind → Nat) : Prop where
  wf : s.queue.ring.WF
  references : s.ref = (if s.registered then 1 else 0) + n .reference
  alive : 0 < s.ref → s.queue.release = false ∧ n .deleter = 0
  dead : s.ref = 0 → n .deleter = if s.queue.release then 0 else 1
  owner : n .owner = if s.queue.release ∨ s.queue.inGlobal then 1 else 0
  asleep : s.queue.inGlobal = false → s.queue.messages = []
  dropping : 0 < n .dropper → s.queue.release = true
  emptied : 0 < n .freer → s.queue.messages = []
  phases : s.Phases fun phase => n (.phase phase)

theorem Service.Good.mono {s : Service} {n n' : Kind → Nat} (h : s.Good n)
    (hsame : ∀ kind, kind ≠ .phase .serving → n' kind = n kind)
    (hle : n' (.phase .serving) ≤ n (.phase .serving)) : s.Good n' := by
  have hreference := hsame .reference (by simp)
  have hdeleter := hsame .deleter (by simp)
  refine ⟨h.wf, ?_, ?_, ?_, ?_, h.asleep, ?_, ?_, ?_, ?_, ?_, ?_⟩
  . rw [hreference]
    exact h.references
  . rw [hdeleter]
    exact h.alive
  . rw [hdeleter]
    exact h.dead
  . rw [hsame .owner (by simp)]
    exact h.owner
  . rw [hsame .dropper (by simp)]
    exact h.dropping
  . rw [hsame .freer (by simp)]
    exact h.emptied
  . rw [hsame (.phase .starting) (by simp)]
    exact h.phases.started
  . intro hpos
    exact h.phases.initialized (Nat.lt_of_lt_of_le hpos hle)
  . rw [hsame (.phase .launching) (by simp)]
    exact h.phases.launched
  . rw [hsame (.phase .loading) (by simp), hsame (.phase .launching) (by simp)]
    exact h.phases.loaded

def waiting (s : Option Service) : List SkynetMessage :=
  match s with
  | none => []
  | some s => s.queue.messages

structure Node.Inv (node : Node) : Prop where
  reserved : node.services 0 = none
  good : ∀ handle s, node.services handle = some s → s.Good (node.count · handle)
  gone : ∀ handle, node.services handle = none → ∀ kind, node.count kind handle = 0
  log : ∀ handle, node.sent handle
    = (node.handled handle).map Prod.fst ++ node.inHand handle ++ node.dropped handle
      ++ waiting (node.services handle)
  served : ∀ handle s, node.services handle = some s → s.queue.release = false
    → node.dropped handle = []

namespace Node

theorem inv_start (workers others : Nat) : (start workers others).Inv where
  reserved := rfl
  good := by simp [start]
  gone := by
    intro handle _ kind
    have hzero : ∀ (a b : List (List Frame)), Stacks.total (Frame.holds kind handle) (a ++ b)
        = Stacks.total (Frame.holds kind handle) a + Stacks.total (Frame.holds kind handle) b := by
      intro a b
      simp [Stacks.total]
    rw [count, start, hzero, Stacks.total_replicate_singleton, Stacks.total_replicate_singleton]
    . cases kind <;> rfl
    . cases kind <;> rfl
    . cases kind <;> rfl
  log := by
    intro handle
    have hnone : (start workers others).inHand handle = [] := by
      simp [inHand, start, Stacks.collect, Frame.message]
    rw [hnone]
    rfl
  served := by simp [start]

def goOn (node : Node) (i : Nat) (frames rest : List Frame) : Node :=
  { node with threads := node.threads.set i (frames ++ rest) }

section

variable {node : Node} {i : Nat} {top : Frame} {frames rest : List Frame}

theorem count_goOn (hthread : node.threads[i]? = some (top :: rest)) {node' : Node}
    (hthreads : node'.threads = node.threads) (frames : List Frame) (kind : Kind) (handle : UInt32)
    : (node'.goOn i frames rest).count kind handle + top.holds kind handle
          + listed node.global kind handle
        = node.count kind handle + (frames.map (Frame.holds kind handle)).sum
          + listed node'.global kind handle := by
  have := Stacks.total_set (Frame.holds kind handle) hthread frames
  simp only [count, goOn, hthreads]
  omega

theorem holds_le_count (hthread : node.threads[i]? = some (top :: rest)) (kind : Kind)
    (handle : UInt32) : top.holds kind handle ≤ node.count kind handle :=
  Nat.le_trans (Stacks.le_total _ hthread) (Nat.le_add_right _ _)

theorem count_freer_le (node : Node) (handle : UInt32)
    : node.count .freer handle ≤ node.count .dropper handle := by
  apply Nat.add_le_add_right
  apply Stacks.total_le_total
  intro frame
  cases frame <;> simp [Frame.holds]

theorem phase_le_owns (phase : Phase) (handle : UInt32) (frame : Frame)
    (hphase : phase ≠ .launching) : frame.holds (.phase phase) handle ≤ frame.holds .owner handle := by
  cases phase with
  | launching => exact absurd rfl hphase
  | starting => cases frame <;> simp [Frame.holds, Frame.owns, Frame.phase]
  | loading => cases frame <;> simp [Frame.holds, Frame.owns, Frame.phase]
  | serving => cases frame <;> simp [Frame.holds, Frame.owns, Frame.phase]

theorem count_phase_le (node : Node) {phase : Phase} (hphase : phase ≠ .launching) (handle : UInt32)
    : node.count (.phase phase) handle ≤ node.count .owner handle := by
  apply Nat.add_le_add
  . apply Stacks.total_le_total
    intro frame
    exact phase_le_owns phase handle frame hphase
  . exact Nat.zero_le _

theorem count_dropper_le (node : Node) (handle : UInt32)
    : node.count .dropper handle ≤ node.count .owner handle := by
  apply Nat.add_le_add
  . apply Stacks.total_le_total
    intro frame
    cases frame <;> simp [Frame.holds, Frame.owns]
  . exact Nat.zero_le _

theorem inHand_goOn (hthread : node.threads[i]? = some (top :: rest)) {node' : Node}
    (hthreads : node'.threads = node.threads) {handle : UInt32}
    (hmessage : frames.flatMap (Frame.message handle) = top.message handle)
    : (node'.goOn i frames rest).inHand handle = node.inHand handle := by
  unfold inHand Node.goOn
  rw [hthreads]
  exact Stacks.collect_set_same hthread hmessage

theorem Inv.goOn (h : node.Inv) (hthread : node.threads[i]? = some (top :: rest)) (q : UInt32)
    {node' : Node} (hthreads : node'.threads = node.threads)
    (hservices : ∀ handle ≠ q, node'.services handle = node.services handle
      ∧ node'.sent handle = node.sent handle ∧ node'.handled handle = node.handled handle
      ∧ node'.dropped handle = node.dropped handle)
    (hothers : ∀ kind, ∀ handle ≠ q,
      (frames.map (Frame.holds kind handle)).sum + listed node'.global kind handle
        = top.holds kind handle + listed node.global kind handle)
    (hmessages : ∀ handle ≠ q, frames.flatMap (Frame.message handle) = top.message handle)
    (hq : ∀ n : Kind → Nat,
      (∀ kind, n kind + top.holds kind q + listed node.global kind q
        = node.count kind q + (frames.map (Frame.holds kind q)).sum + listed node'.global kind q) →
      (∃ s, q ≠ 0 ∧ node'.services q = some s ∧ s.Good n
          ∧ (s.queue.release = false → node'.dropped q = []))
        ∨ (node'.services q = none ∧ ∀ kind, n kind = 0))
    (hlog : node'.sent q
      = (node'.handled q).map Prod.fst ++ (node'.goOn i frames rest).inHand q ++ node'.dropped q
        ++ waiting (node'.services q))
    : (node'.goOn i frames rest).Inv := by
  have hcount : ∀ kind, ∀ handle ≠ q,
      (node'.goOn i frames rest).count kind handle = node.count kind handle := by
    intro kind handle hne
    have := count_goOn hthread hthreads frames kind handle
    have := hothers kind handle hne
    omega
  replace hq := hq ((node'.goOn i frames rest).count · q)
    (fun kind => count_goOn hthread hthreads frames kind q)
  constructor
  . by_cases hzero : (0 : UInt32) = q
    . rcases hq with ⟨s, hne, -⟩ | ⟨hnone, -⟩
      . exact absurd hzero.symm hne
      . rw [hzero]
        exact hnone
    . exact (hservices 0 hzero).1.trans h.reserved
  . intro handle s hs
    by_cases heq : handle = q
    . subst heq
      rcases hq with ⟨s', -, hs', hgood, -⟩ | ⟨hnone, -⟩
      . have : s' = s := Option.some.inj (hs'.symm.trans hs)
        rwa [← this]
      . exact absurd (hnone.symm.trans hs) (by simp)
    . have := h.good handle s ((hservices handle heq).1.symm.trans hs)
      simpa only [hcount _ handle heq] using this
  . intro handle hnone kind
    by_cases heq : handle = q
    . subst heq
      rcases hq with ⟨s', -, hs', -⟩ | ⟨-, hzero⟩
      . exact absurd (hs'.symm.trans hnone) (by simp)
      . exact hzero kind
    . rw [hcount kind handle heq]
      exact h.gone handle ((hservices handle heq).1.symm.trans hnone) kind
  . intro handle
    by_cases heq : handle = q
    . subst heq
      exact hlog
    . obtain ⟨h1, h2, h3, h4⟩ := hservices handle heq
      have := h.log handle
      rw [← inHand_goOn hthread hthreads (hmessages handle heq), ← h1, ← h2, ← h3, ← h4] at this
      exact this
  . intro handle s hs hrelease
    by_cases heq : handle = q
    . subst heq
      rcases hq with ⟨s', -, hs', -, hserved⟩ | ⟨hnone, -⟩
      . have hsame : s' = s := Option.some.inj (hs'.symm.trans hs)
        rw [hsame] at hserved
        exact hserved hrelease
      . exact absurd (hnone.symm.trans hs) (by simp)
    . obtain ⟨h1, -, -, h4⟩ := hservices handle heq
      exact h4.trans (h.served handle s (h1.symm.trans hs) hrelease)

theorem Inv.goOn_same (h : node.Inv) (hthread : node.threads[i]? = some (top :: rest)) {node' : Node}
    (hthreads : node'.threads = node.threads) (hservices : node'.services = node.services)
    (hlogs : node'.sent = node.sent ∧ node'.handled = node.handled ∧ node'.dropped = node.dropped)
    (hcounts : ∀ kind handle, kind ≠ .phase .serving →
      (frames.map (Frame.holds kind handle)).sum + listed node'.global kind handle
        = top.holds kind handle + listed node.global kind handle)
    (hserving : ∀ handle, (frames.map (Frame.holds (.phase .serving) handle)).sum
      ≤ top.holds (.phase .serving) handle)
    (hmessages : ∀ handle, frames.flatMap (Frame.message handle) = top.message handle)
    : (node'.goOn i frames rest).Inv := by
  have hcount : ∀ kind handle, kind ≠ .phase .serving →
      (node'.goOn i frames rest).count kind handle = node.count kind handle := by
    intro kind handle hkind
    have := count_goOn hthread hthreads frames kind handle
    have := hcounts kind handle hkind
    omega
  have hle : ∀ handle, (node'.goOn i frames rest).count (.phase .serving) handle
      ≤ node.count (.phase .serving) handle := by
    intro handle
    have := count_goOn hthread hthreads frames (.phase .serving) handle
    have := hserving handle
    simp only [listed] at *
    omega
  obtain ⟨h1, h2, h3⟩ := hlogs
  constructor
  . exact (congrFun hservices 0).trans h.reserved
  . intro handle s hs
    have hgood := h.good handle s ((congrFun hservices handle).symm.trans hs)
    exact hgood.mono (fun kind hkind => hcount kind handle hkind) (hle handle)
  . intro handle hnone kind
    have hgone := h.gone handle ((congrFun hservices handle).symm.trans hnone)
    by_cases hkind : kind = .phase .serving
    . have := hle handle
      rw [hgone] at this
      rw [hkind]
      omega
    . rw [hcount kind handle hkind]
      exact hgone kind
  . intro handle
    have := h.log handle
    rw [← inHand_goOn hthread hthreads (hmessages handle), ← h1, ← h2, ← h3, ← hservices] at this
    exact this
  . intro handle s hs hrelease
    exact (congrFun h3 handle).trans
      (h.served handle s ((congrFun hservices handle).symm.trans hs) hrelease)

theorem Inv.service (h : node.Inv) (hthread : node.threads[i]? = some (top :: rest)) {q : UInt32}
    (kind : Kind) (hpos : 0 < top.holds kind q)
    : ∃ s, node.services q = some s ∧ q ≠ 0 ∧ s.Good (node.count · q) := by
  cases hs : node.services q with
  | none =>
    have := h.gone q hs kind
    have := holds_le_count hthread kind q
    omega
  | some s =>
    refine ⟨s, rfl, ?_, h.good q s hs⟩
    rintro rfl
    rw [h.reserved] at hs
    simp at hs

theorem Inv.referred (h : node.Inv) (hthread : node.threads[i]? = some (top :: rest)) {q : UInt32}
    (hpos : 0 < top.holds .reference q)
    : ∃ s, node.context q = some s ∧ node.services q = some s ∧ q ≠ 0 ∧ s.Good (node.count · q)
        ∧ 0 < s.ref ∧ s.queue.release = false := by
  obtain ⟨s, hs, hne, hgood⟩ := h.service hthread .reference hpos
  have hle := holds_le_count hthread .reference q
  have href := hgood.references
  have hpos : 0 < s.ref := by omega
  refine ⟨s, ?_, hs, hne, hgood, hpos, (hgood.alive hpos).1⟩
  unfold context
  rw [hs]
  exact if_neg (Nat.ne_of_gt hpos)

end

end Node

end SkynetServer
