import SkynetAoi.Skynet.Expiry

/-!
This module contains the timer against the clock of the system. Each reading of the clock is turned
into updates, and once they are done everything that was due up to the reading has been sent.
-/

namespace SkynetTimer

/--
What the readings of the clock tell the thread to do, one update for each hundredth of a second.
-/
def elapsed (point : UInt64) (readings : List UInt64) : Nat :=
  match readings with
  | [] => 0
  | cp :: readings =>
    (if cp < point then 0 else (cp - point).toUInt32.toNat) + elapsed cp readings

theorem elapsed_append (point : UInt64) (readings : List UInt64) (cp : UInt64)
    : elapsed point (readings ++ [cp])
        = elapsed point readings
            + if cp < readings.getLastD point then 0
              else (cp - readings.getLastD point).toUInt32.toNat := by
  induction readings generalizing point with
  | nil => simp [elapsed]
  | cons a readings ih => rw [List.cons_append, elapsed, ih, elapsed, List.getLastD_cons, Nat.add_assoc]

theorem elapsed_of_isChain {point : UInt64} {readings : List UInt64}
    (h : (point :: readings).IsChain fun a b => a ≤ b ∧ (b - a).toNat < 2 ^ 32)
    : point.toNat + elapsed point readings = (readings.getLastD point).toNat := by
  induction readings generalizing point with
  | nil => rfl
  | cons a readings ih =>
    rw [List.isChain_cons_cons] at h
    obtain ⟨⟨hle, hlt⟩, hrest⟩ := h
    have hsub := UInt64.toNat_sub_of_le _ _ hle
    rw [UInt64.le_iff_toNat_le] at hle
    rw [elapsed, if_neg (by rw [UInt64.lt_iff_toNat_lt]; omega), List.getLastD_cons, ← ih hrest,
      UInt64.toNat_toUInt32, Nat.mod_eq_of_lt hlt, hsub]
    omega

section

variable (T : Timer)

@[simp]
theorem current_addNode (node : TimerNode) : (addNode T node).current = T.current := by
  unfold addNode
  dsimp only
  split
  . rfl
  . rfl

@[simp]
theorem currentPoint_addNode (node : TimerNode) : (addNode T node).currentPoint = T.currentPoint := by
  unfold addNode
  dsimp only
  split
  . rfl
  . rfl

end

section

variable {T T' : Timer}

theorem clock_foldl_addNode (T : Timer) (nodes : List TimerNode)
    : (nodes.foldl addNode T).current = T.current
        ∧ (nodes.foldl addNode T).currentPoint = T.currentPoint := by
  induction nodes generalizing T with
  | nil => exact ⟨rfl, rfl⟩
  | cons node nodes ih =>
    rw [List.foldl_cons]
    have := ih (addNode T node)
    rwa [current_addNode, currentPoint_addNode] at this

theorem clock_timerShift {c : Nat} (htime : T.time = .ofNat c) (h : timerShift T = some T')
    : T'.current = T.current ∧ T'.currentPoint = T.currentPoint := by
  rw [timerShift_eq htime, Option.some.injEq] at h
  rw [← h]
  unfold cascade
  split
  . exact ⟨rfl, rfl⟩
  . exact clock_foldl_addNode _ _

theorem clock_timerExecute {current : List TimerNode} (h : timerExecute T = some (current, T'))
    : T'.current = T.current ∧ T'.currentPoint = T.currentPoint := by
  unfold timerExecute at h
  dsimp only at h
  split at h
  . simp at h
  . rw [Option.some.injEq, Prod.mk.injEq] at h
    rw [← h.2]
    exact ⟨rfl, rfl⟩

end

namespace World

def toDo (w : World) : Nat :=
  match w.phase with
  | .idle => w.left
  | .before _ => w.left
  | .after _ => w.left - 1

structure ClockInv (cs : UInt32) (point : UInt64) (w : World) : Prop where
  current : w.T.current = cs.toUInt64 + .ofNat (elapsed point w.readings)
  currentPoint : w.T.currentPoint = w.readings.getLastD point
  toDo : w.ticks + w.toDo = elapsed point w.readings
  busy : w.phase ≠ .idle → 0 < w.left

variable {cs : UInt32} {point : UInt64} {w w' : World}

theorem clockInv_init : (init cs point).ClockInv cs point where
  current := by simp [init, timerInit, elapsed]
  currentPoint := rfl
  toDo := rfl
  busy := by simp [init]

theorem ClockInv.timeout (h : w.ClockInv cs point) (found : Bool) (handle : UInt32)
    (time session : Int32) : (w.timeout found handle time session).ClockInv cs point := by
  by_cases hgt : time ≤ 0
  . cases found with
    | true =>
      simp only [World.timeout, skynetTimeout, hgt, ↓reduceIte]
      exact ⟨h.current, h.currentPoint, h.toDo, h.busy⟩
    | false =>
      simp only [World.timeout, skynetTimeout, hgt, ↓reduceIte]
      exact ⟨h.current, h.currentPoint, h.toDo, h.busy⟩
  . simp only [World.timeout, skynetTimeout, hgt, ↓reduceIte, timerAdd]
    refine ⟨?_, ?_, h.toDo, h.busy⟩
    . rw [current_addNode]
      exact h.current
    . rw [currentPoint_addNode]
      exact h.currentPoint

theorem ClockInv.updatetime (h : w.ClockInv cs point) (cp : UInt64)
    : (w.updatetime cp).ClockInv cs point := by
  unfold World.updatetime
  split
  . next hphase hleft =>
    have htoDo := h.toDo
    rw [World.toDo, hphase] at htoDo
    dsimp only at htoDo
    rw [hleft, Nat.add_zero] at htoDo
    have hlast : (w.readings ++ [cp]).getLastD point = cp := by simp
    have hsum := elapsed_append point w.readings cp
    by_cases hback : cp < w.readings.getLastD point
    . rw [if_pos hback, Nat.add_zero] at hsum
      simp only [readClock, h.currentPoint, hback, ↓reduceIte]
      refine ⟨?_, hlast.symm, ?_, by simp [hphase]⟩
      . rw [hsum]
        exact h.current
      . rw [hsum, World.toDo, hphase]
        exact htoDo
    . rw [if_neg hback] at hsum
      by_cases hsame : cp = w.readings.getLastD point
      . subst hsame
        have hzero : elapsed point (w.readings ++ [w.readings.getLastD point])
            = elapsed point w.readings := by
          rw [hsum, UInt64.sub_self]
          rfl
        simp only [readClock, h.currentPoint, hback, ↓reduceIte, ne_eq, not_true_eq_false]
        refine ⟨?_, ?_, ?_, by simp [hphase]⟩
        . rw [hzero]
          exact h.current
        . rw [hlast]
          exact h.currentPoint
        . rw [hzero, World.toDo, hphase]
          exact htoDo
      . simp only [readClock, h.currentPoint, hback, ↓reduceIte, ne_eq, hsame, not_false_eq_true]
        refine ⟨?_, hlast.symm, ?_, by simp [hphase]⟩
        . rw [hsum, UInt64.ofNat_add, h.current, UInt64.add_assoc]
          simp
        . rw [hsum, World.toDo, hphase, ← htoDo]
  . exact h

theorem ClockInv.executeAfter (hcurrent : w.T.current = cs.toUInt64 + .ofNat (elapsed point w.readings))
    (hpoint : w.T.currentPoint = w.readings.getLastD point)
    (htoDo : w.ticks + (w.left - 1) = elapsed point w.readings) (hleft : 0 < w.left)
    : w.executeAfter.ClockInv cs point := by
  unfold World.executeAfter
  split
  . next current T hsome =>
    obtain ⟨hc, hp⟩ := clock_timerExecute hsome
    refine ⟨?_, ?_, htoDo, fun _ => hleft⟩
    . rw [hc, hcurrent]
    . rw [hp, hpoint]
  . exact ⟨hcurrent, hpoint, htoDo, by simp⟩

theorem ClockInv.executeBefore (h : w.ClockInv cs point) {c : Nat} (htime : w.T.time = .ofNat c)
    (hphase : w.phase = .idle) (hleft : 0 < w.left) (hsome : w.executeBefore = some w')
    (hnone : timerExecute w.T = none)
    : w'.ClockInv cs point := by
  unfold World.executeBefore at hsome
  rw [hnone] at hsome
  dsimp only at hsome
  split at hsome
  . simp at hsome
  . next T hshift =>
    rw [Option.some.injEq] at hsome
    rw [← hsome]
    obtain ⟨hc, hp⟩ := clock_timerShift htime hshift
    have htoDo := h.toDo
    rw [World.toDo, hphase] at htoDo
    apply ClockInv.executeAfter
    . rw [← h.current, ← hc]
    . rw [← h.currentPoint, ← hp]
    . dsimp only at htoDo ⊢
      omega
    . exact hleft

theorem ClockInv.thread (hinv : w.Inv) (h : w.ClockInv cs point) (hthread : w.thread = some w')
    : w'.ClockInv cs point := by
  unfold World.thread at hthread
  split at hthread
  . next hphase =>
    split at hthread
    . rw [Option.some.injEq] at hthread
      rwa [← hthread]
    . exact h.executeBefore hinv.holds.time hphase (by omega) hthread
        (timerExecute_eq_none hinv.holds (filter_due_of_lt _ _))
  . next hphase => exact absurd hphase (hinv.phase _)
  . next hphase => exact absurd hphase (hinv.phase _)
  . next hphase =>
    rw [Option.some.injEq] at hthread
    rw [← hthread]
    have htoDo := h.toDo
    rw [World.toDo, hphase] at htoDo
    exact ClockInv.executeAfter h.current h.currentPoint htoDo (h.busy (by simp [hphase]))
  . next hphase =>
    rw [Option.some.injEq] at hthread
    rw [← hthread]
    have htoDo := h.toDo
    rw [World.toDo, hphase] at htoDo
    exact ⟨h.current, h.currentPoint, htoDo, fun _ => h.busy (by simp [hphase])⟩

theorem reachable (cs : UInt32) (point : UInt64) (actions : List Action)
    : ∃ w, run step (init cs point) actions = some w ∧ w.Inv ∧ w.ClockInv cs point := by
  have hstep : ∀ (_ : List Action) (w : World) (action : Action), w.Inv ∧ w.ClockInv cs point → True
      → ∃ w', step w action = some w' ∧ w'.Inv ∧ w'.ClockInv cs point := by
    rintro _ w action ⟨hinv, hclock⟩ _
    obtain ⟨w', hstep, hinv'⟩ := hinv.step action
    refine ⟨w', hstep, hinv', ?_⟩
    cases action with
    | timeout found handle time session =>
      rw [step, Option.some.injEq] at hstep
      rw [← hstep]
      exact hclock.timeout found handle time session
    | updatetime cp =>
      rw [step, Option.some.injEq] at hstep
      rw [← hstep]
      exact hclock.updatetime cp
    | thread => exact hclock.thread hinv hstep
  exact @run.total _ _ _ _ _ hstep [] _ ⟨inv_init cs point, clockInv_init⟩ actions
    (fun _ _ => trivial)

def Leads (w w' : World) : Prop :=
  ∃ k, run step w (List.replicate k .thread) = some w'

theorem Leads.refl (w : World) : Leads w w := ⟨0, rfl⟩

theorem Leads.cons {w₁ : World} (hthread : w.thread = some w₁) (h : Leads w₁ w') : Leads w w' := by
  obtain ⟨k, hk⟩ := h
  refine ⟨k + 1, ?_⟩
  rw [List.replicate_succ, run.cons (by exact hthread), hk]

theorem Leads.trans {w₁ : World} (h₁ : Leads w w₁) (h : Leads w₁ w') : Leads w w' := by
  obtain ⟨k₁, hk₁⟩ := h₁
  obtain ⟨k, hk⟩ := h
  refine ⟨k₁ + k, ?_⟩
  rw [List.replicate_add, run.append hk₁, hk]

structure Done (w : World) (left : Nat) (w' : World) : Prop where
  leads : Leads w w'
  inv : w'.Inv
  phase : w'.phase = .idle
  left : w'.left = left
  asked : w'.asked = w.asked
  readings : w'.readings = w.readings

theorem dispatch_done {current : List TimerNode} (hinv : w.Inv) (hphase : w.phase = .after current)
    : ∃ w', Done w (w.left - 1) w' := by
  induction current generalizing w with
  | nil =>
    obtain ⟨w', hthread, hinv'⟩ := hinv.thread
    have heq := hthread
    rw [thread, hphase] at heq
    dsimp only at heq
    rw [executeAfter, timerExecute_eq_none hinv.holds (filter_due_of_lt _ _),
      Option.some.injEq] at heq
    refine ⟨w', .cons hthread (.refl w'), hinv', ?_, ?_, ?_, ?_⟩
    all_goals rw [← heq]
  | cons node current ih =>
    have hthread : w.thread = some { w.dispatch node with phase := .after current } := by
      rw [thread, hphase]
    obtain ⟨w', hdone⟩ := ih (hinv.dispatch hphase) rfl
    exact ⟨w', .cons hthread hdone.leads, hdone.inv, hdone.phase, hdone.left, hdone.asked,
      hdone.readings⟩

theorem update_done (hinv : w.Inv) (hphase : w.phase = .idle) (hleft : 0 < w.left)
    : ∃ w', Done w (w.left - 1) w' := by
  obtain ⟨w₁, hthread, hinv₁⟩ := hinv.thread
  have heq := hthread
  rw [thread, hphase] at heq
  dsimp only at heq
  rw [if_neg (by omega), executeBefore,
    timerExecute_eq_none hinv.holds (filter_due_of_lt _ _)] at heq
  dsimp only at heq
  split at heq
  . simp at heq
  . next T hshift =>
    rw [Option.some.injEq, executeAfter] at heq
    split at heq
    . next current _ _ =>
      have hphase₁ : w₁.phase = .after current := by rw [← heq]
      obtain ⟨w', hdone⟩ := dispatch_done hinv₁ hphase₁
      refine ⟨w', .cons hthread hdone.leads, hdone.inv, hdone.phase, ?_, ?_, ?_⟩
      . rw [hdone.left, ← heq]
      . rw [hdone.asked, ← heq]
      . rw [hdone.readings, ← heq]
    . refine ⟨w₁, .cons hthread (.refl w₁), hinv₁, ?_, ?_, ?_, ?_⟩
      all_goals rw [← heq]

theorem idle_done {n : Nat} (hinv : w.Inv) (hphase : w.phase = .idle) (hleft : w.left = n)
    : ∃ w', Done w 0 w' := by
  induction n generalizing w with
  | zero => exact ⟨w, .refl w, hinv, hphase, hleft, rfl, rfl⟩
  | succ n ih =>
    obtain ⟨w₁, h₁⟩ := update_done hinv hphase (by omega)
    obtain ⟨w', h⟩ := ih h₁.inv h₁.phase (by rw [h₁.left]; omega)
    exact ⟨w', h₁.leads.trans h.leads, h.inv, h.phase, h.left, h.asked.trans h₁.asked,
      h.readings.trans h₁.readings⟩

theorem done (hinv : w.Inv) : ∃ w', Done w 0 w' := by
  cases hphase : w.phase with
  | idle => exact idle_done hinv hphase rfl
  | before current => exact absurd hphase (hinv.phase current)
  | after current =>
    obtain ⟨w₁, h₁⟩ := dispatch_done hinv hphase
    obtain ⟨w', h⟩ := idle_done h₁.inv h₁.phase rfl
    exact ⟨w', h₁.leads.trans h.leads, h.inv, h.phase, h.left, h.asked.trans h₁.asked,
      h.readings.trans h₁.readings⟩

end World

/--
Wherever a run has come to, the thread comes to the end of its updates on its own. What it has sent
then is what was due up to the last reading of the clock, and `skynet_now` has come as far.
-/
theorem thread_catches_up (cs : UInt32) (point : UInt64) (actions : List Action)
    : ∃ w w', run step (World.init cs point) actions = some w
        ∧ World.Leads w w'
        ∧ w'.phase = .idle ∧ w'.left = 0 ∧ w'.asked = w.asked
        ∧ w'.fired = dueUpTo w.asked (elapsed point w.readings)
        ∧ skynetNow w'.T = cs.toUInt64 + .ofNat (elapsed point w.readings)
        ∧ ((point :: w.readings).IsChain (fun a b => a ≤ b ∧ (b - a).toNat < 2 ^ 32)
          → point.toNat + elapsed point w.readings = w'.T.currentPoint.toNat) := by
  obtain ⟨w, hrun, hinv, -⟩ := World.reachable cs point actions
  obtain ⟨w', hdone⟩ := World.done hinv
  obtain ⟨k, hk⟩ := hdone.leads
  obtain ⟨w'', hrun', -, hclock⟩ := World.reachable cs point (actions ++ List.replicate k .thread)
  rw [run.append hrun, hk, Option.some.injEq] at hrun'
  subst hrun'
  have hticks := hclock.toDo
  rw [World.toDo, hdone.phase] at hticks
  dsimp only at hticks
  rw [hdone.left, Nat.add_zero, hdone.readings] at hticks
  have hfired := hdone.inv.fired
  rw [World.dispatching, hdone.phase] at hfired
  dsimp only at hfired
  rw [List.map_nil, List.append_nil, hdone.asked, hticks] at hfired
  refine ⟨w, w', hrun, hdone.leads, hdone.phase, hdone.left, hdone.asked, hfired, ?_, ?_⟩
  . rw [skynetNow, hclock.current, hdone.readings]
  . intro hchain
    rw [elapsed_of_isChain hchain, hclock.currentPoint, hdone.readings]

end SkynetTimer
