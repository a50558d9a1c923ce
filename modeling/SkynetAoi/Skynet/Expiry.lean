import SkynetAoi.Lib.Run
import SkynetAoi.Skynet.TimerLemmas

/-!
This module contains the timer over whole runs, in which the services set timeouts at any point at
which the thread of the timer has given the lock back. Every timeout is sent in the tick that it asks
for, however often the counter of the ticks has wrapped.
-/

namespace SkynetTimer

def firedAt (tick : Nat) (node : TimerNode) : Fired :=
  ⟨tick, node.event.handle, response node.event.session⟩

def World.dispatching (w : World) : List TimerNode :=
  match w.phase with
  | .idle => []
  | .before current => current
  | .after current => current

def dueUpTo (asked : List Asked) (tick : Nat) : List Fired :=
  (List.range (tick + 1)).flatMap fun n =>
    (asked.filter (·.due = n)).map fun a => ⟨n, a.event.handle, response a.event.session⟩

theorem dueUpTo_succ (asked : List Asked) (tick : Nat)
    : dueUpTo asked (tick + 1)
        = dueUpTo asked tick
            ++ ((asked.filter (·.due = tick + 1)).map Asked.node).map (firedAt (tick + 1)) := by
  rw [dueUpTo, List.range_succ, List.flatMap_append, ← dueUpTo, List.map_map]
  simp [Asked.node, firedAt, Function.comp_def]

theorem dueUpTo_append {asked : List Asked} {a : Asked} {tick : Nat} (h : tick < a.due)
    : dueUpTo (asked ++ [a]) tick = dueUpTo asked tick := by
  unfold dueUpTo
  apply List.flatMap_congr
  intro n hn
  rw [List.mem_range] at hn
  have hne : a.due ≠ n := by omega
  rw [List.filter_append, List.filter_cons_of_neg (by simpa using hne), List.filter_nil,
    List.append_nil]

theorem filter_due_of_lt (asked : List Asked) (tick : Nat)
    : (asked.filter (tick < ·.due)).filter (·.due = tick) = [] := by
  rw [List.filter_eq_nil_iff]
  intro a ha
  have := of_decide_eq_true (List.mem_filter.mp ha).2
  rw [decide_eq_true_eq]
  omega

structure World.Inv (w : World) : Prop where
  holds : w.T.Holds w.ticks (w.asked.filter (w.ticks < ·.due))
  window : ∀ a ∈ w.asked, a.due < w.ticks + 2 ^ 31
  phase : ∀ current, w.phase ≠ .before current
  fired : w.fired ++ w.dispatching.map (firedAt w.ticks) = dueUpTo w.asked w.ticks

theorem inv_init (cs : UInt32) (point : UInt64) : (World.init cs point).Inv where
  holds := ⟨rfl, holds_timerCreateTimer.slot⟩
  window := by simp [World.init]
  phase := by simp [World.init]
  fired := by simp [World.init, World.dispatching, dueUpTo]

theorem holds_readClock {T : Timer} {c : Nat} {waiting : List Asked} (h : T.Holds c waiting)
    (cp : UInt64) : (readClock T cp).2.Holds c waiting := by
  unfold readClock
  split
  . exact ⟨h.time, h.slot⟩
  . split
    . exact ⟨h.time, h.slot⟩
    . exact h

namespace World.Inv

variable {w : World}

theorem timeout (h : w.Inv) (found : Bool) (handle : UInt32) (time session : Int32)
    : (w.timeout found handle time session).Inv := by
  by_cases hgt : time ≤ 0
  . cases found with
    | true =>
      simp only [World.timeout, skynetTimeout, hgt, ↓reduceIte]
      exact ⟨h.holds, h.window, h.phase, h.fired⟩
    | false =>
      simp only [World.timeout, skynetTimeout, hgt, ↓reduceIte]
      exact ⟨h.holds, h.window, h.phase, h.fired⟩
  . simp only [World.timeout, skynetTimeout, hgt, ↓reduceIte]
    rw [Int32.le_iff_toInt_le, Int32.toInt_zero] at hgt
    have hnat : (time.toNatClampNeg : Int) = time.toInt := Int.toNat_of_nonneg (by omega)
    have hlt := time.toInt_lt
    generalize hasked : (⟨w.ticks + time.toNatClampNeg, ⟨handle, session⟩⟩ : Asked) = a
    have hdue : a.due = w.ticks + time.toNatClampNeg := by rw [← hasked]
    have hnode : (⟨time.toUInt32 + w.T.time, ⟨handle, session⟩⟩ : TimerNode) = a.node := by
      have htime : time.toUInt32 = .ofNat time.toNatClampNeg := by
        rw [← UInt32.toNat_inj, Int32.toNat_toUInt32_of_le, UInt32.toNat_ofNat', Nat.mod_eq_of_lt]
        . omega
        . rw [Int32.le_iff_toInt_le, Int32.toInt_zero]
          omega
      rw [← hasked, Asked.node, h.holds.time, htime, ← UInt32.ofNat_add, Nat.add_comm]
    have hadd := h.holds.addNode (a := a) (by omega) (by omega)
    constructor
    . have hfilter : (w.asked ++ [a]).filter (w.ticks < ·.due)
          = w.asked.filter (w.ticks < ·.due) ++ [a] := by
        rw [List.filter_append, List.filter_cons_of_pos (by simp; omega), List.filter_nil]
      dsimp only
      rw [timerAdd, hnode, hfilter]
      exact hadd
    . intro b hb
      rcases List.mem_append.mp hb with hb | hb
      . exact h.window b hb
      . rw [List.mem_singleton.mp hb]
        dsimp only
        omega
    . exact h.phase
    . dsimp only
      rw [dueUpTo_append (by omega)]
      exact h.fired

theorem updatetime (h : w.Inv) (cp : UInt64) : (w.updatetime cp).Inv := by
  unfold World.updatetime
  split
  . exact ⟨holds_readClock h.holds cp, h.window, h.phase, h.fired⟩
  . exact h

theorem executeAfter (hholds : w.T.Holds w.ticks (w.asked.filter (w.ticks ≤ ·.due)))
    (hwindow : ∀ a ∈ w.asked, a.due < w.ticks + 2 ^ 31)
    (hfired : w.fired ++ ((w.asked.filter (·.due = w.ticks)).map Asked.node).map (firedAt w.ticks)
      = dueUpTo w.asked w.ticks)
    : w.executeAfter.Inv := by
  have hdue : (w.asked.filter (w.ticks ≤ ·.due)).filter (·.due = w.ticks)
      = w.asked.filter (·.due = w.ticks) := by
    rw [List.filter_filter]
    apply List.filter_congr
    intro a _
    by_cases ha : a.due = w.ticks
    . simp [ha]
    . simp [ha]
  unfold World.executeAfter
  by_cases hnone : w.asked.filter (·.due = w.ticks) = []
  . rw [timerExecute_eq_none hholds (by rw [hdue, hnone])]
    refine ⟨?_, hwindow, by simp, ?_⟩
    . have hsame : w.asked.filter (w.ticks ≤ ·.due) = w.asked.filter (w.ticks < ·.due) := by
        apply List.filter_congr
        intro a ha
        rw [List.filter_eq_nil_iff] at hnone
        have := hnone a ha
        rw [decide_eq_true_eq] at this
        rw [decide_eq_decide]
        omega
      rw [← hsame]
      exact hholds
    . rw [hnone] at hfired
      simpa [World.dispatching] using hfired
  . obtain ⟨T, hsome, hT⟩ := timerExecute_eq_some hholds (by rwa [hdue])
    rw [hsome, hdue]
    refine ⟨?_, hwindow, by simp, hfired⟩
    have hsame : (w.asked.filter (w.ticks ≤ ·.due)).filter (·.due ≠ w.ticks)
        = w.asked.filter (w.ticks < ·.due) := by
      rw [List.filter_filter]
      apply List.filter_congr
      intro a _
      rw [← Bool.decide_and, decide_eq_decide]
      omega
    rw [← hsame]
    exact hT

theorem executeBefore (h : w.Inv) (hidle : w.dispatching = [])
    : ∃ w', w.executeBefore = some w' ∧ w'.Inv := by
  obtain ⟨T, hshift, hT⟩ := h.holds.shift (by
    intro a ha
    obtain ⟨hmem, hlt⟩ := List.mem_filter.mp ha
    exact ⟨of_decide_eq_true hlt, h.window a hmem⟩)
  unfold World.executeBefore
  rw [timerExecute_eq_none h.holds (filter_due_of_lt _ _), hshift]
  refine ⟨_, rfl, executeAfter ?_ ?_ ?_⟩
  . exact hT
  . intro a ha
    have := h.window a ha
    dsimp only
    omega
  . have hfired := h.fired
    rw [hidle, List.map_nil, List.append_nil] at hfired
    dsimp only
    rw [dueUpTo_succ, hfired]

theorem dispatch (h : w.Inv) {node : TimerNode} {current : List TimerNode}
    (hphase : w.phase = .after (node :: current))
    : { w.dispatch node with phase := .after current }.Inv := by
  refine ⟨h.holds, h.window, by simp, ?_⟩
  have hfired := h.fired
  rw [World.dispatching, hphase] at hfired
  rw [World.dispatching]
  dsimp only [World.dispatch]
  rw [← hfired, List.map_cons, List.append_assoc]
  rfl

theorem thread (h : w.Inv) : ∃ w', w.thread = some w' ∧ w'.Inv := by
  unfold World.thread
  split
  . next hphase =>
    split
    . exact ⟨w, rfl, h⟩
    . exact h.executeBefore (by rw [World.dispatching, hphase])
  . next hphase => exact absurd hphase (h.phase _)
  . next hphase => exact absurd hphase (h.phase _)
  . next hphase =>
    refine ⟨_, rfl, ?_⟩
    unfold World.executeAfter
    rw [timerExecute_eq_none h.holds (filter_due_of_lt _ _)]
    refine ⟨h.holds, h.window, by simp, ?_⟩
    have hfired := h.fired
    rw [World.dispatching, hphase] at hfired
    exact hfired
  . next hphase => exact ⟨_, rfl, h.dispatch hphase⟩

theorem step (h : w.Inv) (action : Action) : ∃ w', SkynetTimer.step w action = some w' ∧ w'.Inv := by
  cases action with
  | timeout found handle time session => exact ⟨_, rfl, h.timeout found handle time session⟩
  | updatetime cp => exact ⟨_, rfl, h.updatetime cp⟩
  | thread => exact h.thread

end World.Inv

/--
Services set timeouts at any point and the thread updates the timer as its clock tells it: what it
has sent, with what it is about to send, is exactly what was asked for up to its tick, every timeout
once and in the tick that is its delay after the one in which it was set.
-/
theorem run_fired (cs : UInt32) (point : UInt64) (actions : List Action)
    : ∃ w, run step (World.init cs point) actions = some w
        ∧ w.fired ++ w.dispatching.map (firedAt w.ticks) = dueUpTo w.asked w.ticks := by
  have hstep : ∀ (_ : List Action) (w : World) (action : Action), w.Inv → True
      → ∃ w', step w action = some w' ∧ w'.Inv := fun _ _ action h _ => h.step action
  obtain ⟨w, hrun, hinv⟩ := @run.total _ _ _ _ _ hstep [] _ (inv_init cs point) actions
    (fun _ _ => trivial)
  exact ⟨w, hrun, hinv.fired⟩

end SkynetTimer
