import SkynetAoi.Lib.Run
import SkynetAoi.Skynet.Transitions

/-!
This module contains the server over whole runs, with any number of workers and of other threads and
in any order of their steps.
-/

namespace SkynetServer

open SkynetMq

namespace Node

/--
`skynet_context_new` gives its reference back before it is done with its pointer. Nobody retires the
service until `cmd_launch` has read the handle, and if it was retired in its init function nobody else
has a reference any more when that is over.
-/
def patient (node : Node) (action : Nat × Choice) : Bool :=
  match node.threads[action.1]? with
  | some (.retire handle :: _) => node.count (.phase .launching) handle = 0
  | some (.launched handle :: _) =>
    match node.services handle with
    | some s => s.registered || s.ref = 1
    | none => true
  | _ => true

theorem Inv.step {node : Node} (h : node.Inv) (weight : Nat → Int) {action : Nat × Choice}
    (hpatient : node.patient action = true)
    : ∃ node', step weight node action = some node' ∧ node'.Inv := by
  unfold Node.step
  split
  . next top rest hthread =>
    have hretire : ∀ handle, top = .retire handle → node.count (.phase .launching) handle = 0 := by
      rintro handle rfl
      simpa only [patient, hthread, decide_eq_true_eq] using hpatient
    have hlaunched : ∀ handle s, top = .launched handle → node.services handle = some s →
        s.registered = true ∨ s.ref = 1 := by
      rintro handle s rfl hs
      simpa only [patient, hthread, hs, Bool.or_eq_true, decide_eq_true_eq] using hpatient
    obtain ⟨node', frames, hframe, -, hinv⟩ :=
      h.frameStep hthread hretire hlaunched (weight action.1) action.2
    rw [hframe]
    exact ⟨_, rfl, hinv⟩
  . exact ⟨node, rfl, h⟩

section

variable {weight : Nat → Int} {workers others : Nat} {actions : List (Nat × Choice)}

theorem reachable_inv
    (hpatient : run.all (Node.step weight) patient (start workers others) actions = true)
    : ∃ node, run (Node.step weight) (start workers others) actions = some node ∧ node.Inv :=
  run.total_of_all (fun _ _ h ha => h.step weight ha) (inv_start workers others) hpatient

def owners (node : Node) (q : UInt32) : Nat :=
  node.global.count q + Stacks.total (Frame.owns q) node.threads

theorem owners_eq_count (node : Node) (q : UInt32) : node.owners q = node.count .owner q :=
  Nat.add_comm _ _

theorem Inv.owners_le {node : Node} (h : node.Inv) (q : UInt32) : node.owners q ≤ 1 := by
  rw [owners_eq_count]
  cases hs : node.services q with
  | none =>
    rw [h.gone q hs]
    exact Nat.zero_le _
  | some s => exact (h.good q s hs).owner_le

theorem length_inHand_le (node : Node) (q : UInt32) : (node.inHand q).length ≤ node.owners q := by
  apply Nat.le_trans _ (Nat.le_add_left _ _)
  apply Stacks.length_collect_le
  intro frame
  cases frame <;> simp [Frame.owns, Frame.message, one]
  all_goals split <;> simp

theorem run_exclusive
    (hpatient : run.all (Node.step weight) patient (start workers others) actions = true)
    : ∃ node, run (Node.step weight) (start workers others) actions = some node
        ∧ ∀ q, node.owners q ≤ 1 := by
  obtain ⟨node, hrun, hinv⟩ := reachable_inv hpatient
  exact ⟨node, hrun, hinv.owners_le⟩

/--
No message is lost, doubled or overtaken by another one, and nobody is needed to wake a service up:
as long as a message waits, its queue is in the global one or a thread has it.
-/
theorem run_delivers
    (hpatient : run.all (Node.step weight) patient (start workers others) actions = true)
    : ∃ node, run (Node.step weight) (start workers others) actions = some node
        ∧ ∀ q, node.sent q
            = (node.handled q).map Prod.fst ++ node.inHand q ++ node.dropped q
              ++ waiting (node.services q)
          ∧ (node.inHand q).length ≤ 1
          ∧ (waiting (node.services q) ≠ [] → node.owners q = 1)
          ∧ ∀ s, node.services q = some s → s.queue.release = false → node.dropped q = [] := by
  obtain ⟨node, hrun, hinv⟩ := reachable_inv hpatient
  refine ⟨node, hrun, fun q => ⟨hinv.log q, ?_, ?_, hinv.served q⟩⟩
  . exact Nat.le_trans (node.length_inHand_le q) (hinv.owners_le q)
  . intro hwaiting
    cases hs : node.services q with
    | none =>
      rw [hs] at hwaiting
      exact absurd rfl hwaiting
    | some s =>
      have hgood := hinv.good q s hs
      rw [hs] at hwaiting
      rw [owners_eq_count, hgood.owner, if_pos]
      by_contra hnone
      rw [not_or, Bool.not_eq_true, Bool.not_eq_true] at hnone
      exact hwaiting (hgood.asleep hnone.2)

/--
The counter of a context is the number of those who have a reference. As long as there is one the
queue takes messages. Once the context is deleted its queue is still in the global queue or in the
hands of a thread until it is empty and freed, and what is freed is known to nobody.
-/
theorem run_reclaims
    (hpatient : run.all (Node.step weight) patient (start workers others) actions = true)
    : ∃ node, run (Node.step weight) (start workers others) actions = some node
        ∧ ∀ q,
          (∀ s, node.services q = some s →
            s.ref = (if s.registered then 1 else 0) + Stacks.total (Frame.refers q) node.threads
            ∧ (0 < s.ref → s.queue.release = false)
            ∧ (s.queue.release = true → node.owners q = 1))
          ∧ (node.services q = none →
            node.owners q = 0 ∧ Stacks.total (Frame.refers q) node.threads = 0
            ∧ Stacks.total (Frame.phase .launching q) node.threads = 0
            ∧ node.sent q = (node.handled q).map Prod.fst ++ node.dropped q) := by
  obtain ⟨node, hrun, hinv⟩ := reachable_inv hpatient
  refine ⟨node, hrun, fun q => ⟨?_, ?_⟩⟩
  . intro s hs
    have hgood := hinv.good q s hs
    refine ⟨hgood.references, fun hpos => (hgood.alive hpos).1, ?_⟩
    intro hrelease
    rw [owners_eq_count, hgood.owner, if_pos (.inl hrelease)]
  . intro hs
    have howners : node.owners q = 0 := by
      rw [owners_eq_count]
      exact hinv.gone q hs .owner
    have hhand : node.inHand q = [] := by
      have := node.length_inHand_le q
      exact List.eq_nil_of_length_eq_zero (by omega)
    have hlog := hinv.log q
    rw [hs, waiting, hhand, List.append_nil, List.append_nil] at hlog
    exact ⟨howners, hinv.gone q hs .reference, hinv.gone q hs (.phase .launching), hlog⟩

end

section

def sampleMessage : SkynetMessage where
  source := 0
  session := 1
  data := none
  sz := 0

def launchAndServe : List (Nat × Choice) :=
  [(1, .launch 1), (1, .setCallback true), (1, .finish true), (1, .go), (1, .go), (1, .go), (1, .go),
    (1, .go), (1, .push 1 sampleMessage), (1, .go), (1, .go), (1, .go), (0, .go), (0, .go), (0, .go),
    (0, .go), (0, .go), (0, .go), (0, .finish true), (0, .go), (0, .go), (0, .go)]

theorem launchAndServe_patient
    : run.all (Node.step fun _ => 0) patient (start 1 1) launchAndServe = true := by
  decide +kernel

theorem run_exclusive_launchAndServe
    : ∃ node, run (Node.step fun _ => 0) (start 1 1) launchAndServe = some node
        ∧ ∀ q, node.owners q ≤ 1 :=
  run_exclusive launchAndServe_patient

theorem run_delivers_launchAndServe
    : ∃ node, run (Node.step fun _ => 0) (start 1 1) launchAndServe = some node
        ∧ node.sent 1 = (node.handled 1).map Prod.fst ++ node.inHand 1 ++ node.dropped 1
          ++ waiting (node.services 1) := by
  obtain ⟨node, hrun, hall⟩ := run_delivers launchAndServe_patient
  exact ⟨node, hrun, (hall 1).1⟩

theorem run_reclaims_launchAndServe
    : ∃ node, run (Node.step fun _ => 0) (start 1 1) launchAndServe = some node
        ∧ ∀ s, node.services 1 = some s →
          s.ref = (if s.registered then 1 else 0) + Stacks.total (Frame.refers 1) node.threads := by
  obtain ⟨node, hrun, hall⟩ := run_reclaims launchAndServe_patient
  exact ⟨node, hrun, fun s hs => ((hall 1).1 s hs).1⟩

/--
Another thread retires the service while its launcher goes on with the pointer: it writes to a context
that is freed.
-/
theorem retired_in_launch
    : (run (Node.step fun _ => 0) (start 1 2)
        [(1, .launch 1), (1, .finish true), (1, .go), (2, .retire 1), (2, .go), (2, .go),
          (1, .go)]).isNone = true := by
  decide +kernel

end

end Node

end SkynetServer
