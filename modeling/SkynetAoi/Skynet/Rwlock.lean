import SkynetAoi.Lib.History

/-!
This module contains the lock of `rwlock.h`, taken and given back by any number of threads. A step of
a thread is one access to the words of the lock, what a thread does while it is in takes no steps. The
lock is told apart by the two ways in which `atomic.h` can be built.
-/

namespace Rwlock

/--
`__sync_bool_compare_and_swap` gets the value that it expects. `atomic_compare_exchange_weak` gets
its address, puts there what it has found when it fails, and may fail for no reason.
-/
inductive Atomics where
  | sync
  | std
  deriving DecidableEq

inductive Pc where
  | idle
  | rlockWait
  | rlockInc
  | rlockCheck
  | rlockDec
  | reading
  -- The loop over the exchange, with the variable `clear`.
  | wlockCas (clear : Int)
  | wlockWait
  | writing
  deriving DecidableEq

structure State where
  write : Int
  read : Int
  threads : List Pc

structure Action where
  thread : Nat
  wlock : Bool
  spurious : Bool

def init (threads : Nat) : State where
  write := 0
  read := 0
  threads := List.replicate threads .idle

def State.goto (s : State) (thread : Nat) (pc : Pc) : State :=
  { s with threads := s.threads.set thread pc }

def cas (atomics : Atomics) (s : State) (thread : Nat) (clear : Int) (spurious : Bool) : State :=
  match atomics with
  | .sync =>
    if s.write = clear then { s.goto thread .wlockWait with write := 1 } else s
  | .std =>
    if s.write = clear ∧ spurious = false then
      { s.goto thread .wlockWait with write := 1 }
    else
      s.goto thread (.wlockCas s.write)

def step (atomics : Atomics) (s : State) (a : Action) : State :=
  match s.threads[a.thread]? with
  | none => s
  | some .idle => s.goto a.thread (if a.wlock then .wlockCas 0 else .rlockWait)
  | some .rlockWait => if s.write ≠ 0 then s else s.goto a.thread .rlockInc
  | some .rlockInc => { s.goto a.thread .rlockCheck with read := s.read + 1 }
  | some .rlockCheck => s.goto a.thread (if s.write ≠ 0 then .rlockDec else .reading)
  | some .rlockDec => { s.goto a.thread .rlockWait with read := s.read - 1 }
  | some .reading => { s.goto a.thread .idle with read := s.read - 1 }
  | some (.wlockCas clear) => cas atomics s a.thread clear a.spurious
  | some .wlockWait => if s.read ≠ 0 then s else s.goto a.thread .writing
  | some .writing => { s.goto a.thread .idle with write := 0 }

def exec (atomics : Atomics) (threads : Nat) (actions : List Action) : State :=
  actions.foldl (step atomics) (init threads)

def Pc.holds (pc : Pc) : Bool := pc = .wlockWait ∨ pc = .writing

def Pc.counted (pc : Pc) : Bool := pc = .rlockCheck ∨ pc = .rlockDec ∨ pc = .reading

structure Exclusive (s : State) : Prop where
  writer : s.threads.countP Pc.holds ≤ 1
  readers : .writing ∈ s.threads → .reading ∉ s.threads

/--
The thread takes the lock for writing from the one that holds it, because `clear` is what an exchange
that failed has left there.
-/
def Overtakes (s : State) (a : Action) : Prop :=
  ∃ clear, s.threads[a.thread]? = some (.wlockCas clear) ∧ clear ≠ 0 ∧ s.write = clear
    ∧ a.spurious = false

structure Inv (s : State) : Prop where
  write : s.write = s.threads.countP Pc.holds
  read : s.read = s.threads.countP Pc.counted
  exclusive : Exclusive s

theorem countP_goto {s : State} {t : Nat} {pc : Pc} (h : s.threads[t]? = some pc) (p : Pc → Bool)
    (pc' : Pc)
    : (s.goto t pc').threads.countP p + (p pc).toNat = s.threads.countP p + (p pc').toNat := by
  obtain ⟨ht, hpc⟩ := List.getElem?_eq_some_iff.mp h
  have hpos : p pc = true → 0 < s.threads.countP p := by
    intro hp
    exact List.countP_pos_iff.mpr ⟨pc, List.mem_of_getElem? h, hp⟩
  simp only [State.goto, List.countP_set ht, hpc]
  cases hp : p pc with
  | true =>
    have := hpos hp
    cases p pc' <;> simp <;> omega
  | false => cases p pc' <;> simp

theorem mem_goto {s : State} {t : Nat} {pc pc' : Pc} (h : pc ∈ (s.goto t pc').threads)
    : pc = pc' ∨ pc ∈ s.threads :=
  (List.mem_or_eq_of_mem_set h).symm

theorem Inv.not_mem {s : State} (h : Inv s) {pc : Pc}
    (hpc : pc.holds = true ∧ s.write = 0 ∨ pc.counted = true ∧ s.read = 0) : pc ∉ s.threads := by
  intro hmem
  rcases hpc with ⟨hpc, hzero⟩ | ⟨hpc, hzero⟩
  . have hpos : 0 < s.threads.countP Pc.holds := List.countP_pos_iff.mpr ⟨pc, hmem, hpc⟩
    have := h.write
    omega
  . have hpos : 0 < s.threads.countP Pc.counted := List.countP_pos_iff.mpr ⟨pc, hmem, hpc⟩
    have := h.read
    omega

-- Both numbers go with the thread, which begins to hold the lock or to read only if nobody holds it
-- and begins to write only if nobody is counted.
theorem Inv.goto {s : State} (h : Inv s) {t : Nat} {pc : Pc} (ht : s.threads[t]? = some pc) {pc' : Pc}
    {write read : Int} (hwrite : write + pc.holds.toNat = s.write + pc'.holds.toNat)
    (hread : read + pc.counted.toNat = s.read + pc'.counted.toNat)
    (hholds : pc'.holds = true → pc.holds = true ∨ s.write = 0)
    (hreading : pc' = .reading → s.write = 0) (hwriting : pc' = .writing → s.read = 0)
    : Inv { s.goto t pc' with write := write, read := read } := by
  have hwriters := countP_goto ht Pc.holds pc'
  have hreaders := countP_goto ht Pc.counted pc'
  have hw := h.write
  have hr := h.read
  have hone := h.exclusive.writer
  refine ⟨?_, ?_, ?_, ?_⟩
  . change write = ((s.goto t pc').threads.countP Pc.holds : Int)
    omega
  . change read = ((s.goto t pc').threads.countP Pc.counted : Int)
    omega
  . change (s.goto t pc').threads.countP Pc.holds ≤ 1
    have hle := pc'.holds.toNat_le
    by_cases hpc' : pc'.holds = true
    . rcases hholds hpc' with hpc | hzero
      . rw [hpc, hpc'] at hwriters
        omega
      . omega
    . rw [Bool.not_eq_true] at hpc'
      rw [hpc', Bool.toNat_false] at hwriters
      omega
  . intro hw' hr'
    rcases mem_goto hw' with rfl | hwas
    . rcases mem_goto hr' with hpc | hras
      . cases hpc
      . exact h.not_mem (.inr ⟨rfl, hwriting rfl⟩) hras
    . rcases mem_goto hr' with rfl | hras
      . exact h.not_mem (.inl ⟨rfl, hreading rfl⟩) hwas
      . exact h.exclusive.readers hwas hras

theorem inv_init (threads : Nat) : Inv (init threads) where
  write := by simp [init, List.countP_replicate, Pc.holds]
  read := by simp [init, List.countP_replicate, Pc.counted]
  exclusive := ⟨by simp [init, List.countP_replicate, Pc.holds], by simp [init]⟩

theorem Inv.cas {s : State} (h : Inv s) {a : Action} {clear : Int}
    (ht : s.threads[a.thread]? = some (.wlockCas clear)) (hover : ¬ Overtakes s a)
    (atomics : Atomics) (hsync : atomics = .sync → clear = 0)
    : Inv (cas atomics s a.thread clear a.spurious) := by
  have htake : s.write = 0 → Inv { s.goto a.thread .wlockWait with write := 1 } := by
    intro hzero
    exact h.goto ht (by simp [hzero, Pc.holds]) rfl (fun _ => .inr hzero) (by simp) (by simp)
  cases atomics with
  | sync =>
    rw [Rwlock.cas]
    split
    . next heq =>
      rw [hsync rfl] at heq
      exact htake heq
    . exact h
  | std =>
    rw [Rwlock.cas]
    split
    . next heq =>
      apply htake
      by_contra hne
      exact hover ⟨clear, ht, by rwa [← heq.1], heq.1, heq.2⟩
    . exact h.goto ht rfl rfl (by simp [Pc.holds]) (by simp) (by simp)

theorem Inv.step {s : State} (h : Inv s) {a : Action} (hover : ¬ Overtakes s a) (atomics : Atomics)
    (hsync : atomics = .sync → ∀ clear, .wlockCas clear ∈ s.threads → clear = 0)
    : Inv (step atomics s a) := by
  unfold Rwlock.step
  split
  . exact h
  . next ht =>
    cases a.wlock with
    | true => exact h.goto ht rfl rfl (by simp [Pc.holds]) (by simp) (by simp)
    | false => exact h.goto ht rfl rfl (by simp [Pc.holds]) (by simp) (by simp)
  . next ht =>
    split
    . exact h
    . exact h.goto ht rfl rfl (by simp [Pc.holds]) (by simp) (by simp)
  . next ht => exact h.goto ht rfl (by simp [Pc.counted]) (by simp [Pc.holds]) (by simp) (by simp)
  . next ht =>
    split
    . exact h.goto ht rfl rfl (by simp [Pc.holds]) (by simp) (by simp)
    . next hzero =>
      exact h.goto ht rfl rfl (by simp [Pc.holds]) (fun _ => by simpa using hzero) (by simp)
  . next ht => exact h.goto ht rfl (by simp [Pc.counted]) (by simp [Pc.holds]) (by simp) (by simp)
  . next ht => exact h.goto ht rfl (by simp [Pc.counted]) (by simp [Pc.holds]) (by simp) (by simp)
  . next clear ht =>
    exact h.cas ht hover atomics fun heq => hsync heq clear (List.mem_of_getElem? ht)
  . next ht =>
    split
    . exact h
    . next hzero =>
      exact h.goto ht rfl rfl (fun _ => .inl rfl) (by simp) (fun _ => by simpa using hzero)
  . next ht =>
    have hpos : 0 < s.threads.countP Pc.holds :=
      List.countP_pos_iff.mpr ⟨_, List.mem_of_getElem? ht, rfl⟩
    have hone := h.exclusive.writer
    have hwrite : s.write = 1 := by
      rw [h.write]
      omega
    exact h.goto ht (by simp [hwrite, Pc.holds]) rfl (by simp [Pc.holds]) (by simp) (by simp)

theorem not_exclusive_of_overtakes {s : State} (h : Inv s) {a : Action} (hover : Overtakes s a)
    : ¬ Exclusive (step .std s a) := by
  obtain ⟨clear, ht, hne, hwrite, hspurious⟩ := hover
  intro hexcl
  have hone := hexcl.writer
  have hcount := countP_goto ht Pc.holds .wlockWait
  have hw := h.write
  simp only [step, ht, cas, hwrite, hspurious, and_self, ↓reduceIte] at hone
  change (s.goto a.thread .wlockWait).threads.countP Pc.holds + 0
    = s.threads.countP Pc.holds + 1 at hcount
  omega

theorem exec_append (atomics : Atomics) (threads : Nat) (actions : List Action) (a : Action)
    : exec atomics threads (actions ++ [a]) = step atomics (exec atomics threads actions) a := by
  rw [exec, exec, List.foldl_append, List.foldl_cons, List.foldl_nil]

theorem clear_eq_zero (threads : Nat) (actions : List Action) {clear : Int}
    (h : .wlockCas clear ∈ (exec .sync threads actions).threads) : clear = 0 := by
  induction actions using List.reverseRecOn with
  | nil => simp [exec, init] at h
  | append_singleton actions a ih =>
    rw [exec_append] at h
    generalize exec .sync threads actions = s at h ih
    unfold step at h
    split at h
    . exact ih h
    . rcases mem_goto h with heq | hmem
      . split at heq
        . exact (Pc.wlockCas.inj heq)
        . cases heq
      . exact ih hmem
    . split at h
      . exact ih h
      . exact ih ((mem_goto h).resolve_left (by simp))
    . exact ih ((mem_goto h).resolve_left (by simp))
    . exact ih ((mem_goto h).resolve_left (by split <;> simp))
    . exact ih ((mem_goto h).resolve_left (by simp))
    . exact ih ((mem_goto h).resolve_left (by simp))
    . rw [cas] at h
      split at h
      . exact ih ((mem_goto h).resolve_left (by simp))
      . exact ih h
    . split at h
      . exact ih h
      . exact ih ((mem_goto h).resolve_left (by simp))
    . exact ih ((mem_goto h).resolve_left (by simp))

theorem not_overtakes_sync (threads : Nat) (actions : List Action) (a : Action)
    : ¬ Overtakes (exec .sync threads actions) a := by
  rintro ⟨clear, ht, hne, -⟩
  exact hne (clear_eq_zero threads actions (List.mem_of_getElem? ht))

theorem inv_exec {atomics : Atomics} {threads : Nat} {actions : List Action}
    (h : Throughout (fun before a => ¬ Overtakes (exec atomics threads before) a) actions)
    : Inv (exec atomics threads actions) := by
  apply Throughout.induction (inv_init threads) _ h
  intro past a hinv hover
  rw [exec_append]
  apply hinv.step hover atomics
  rintro rfl clear hmem
  exact clear_eq_zero threads past hmem

theorem sync_exclusive (threads : Nat) (actions : List Action)
    : Exclusive (exec .sync threads actions) :=
  (inv_exec fun before a _ _ => not_overtakes_sync threads before a).exclusive

/--
With `atomic_compare_exchange_weak` the lock is exclusive in a run exactly if no thread tries again
while the lock is held, after it has failed because the lock was held.
-/
theorem std_exclusive_iff (threads : Nat) (actions : List Action)
    : Throughout (fun before a => Exclusive (exec .std threads (before ++ [a]))) actions
        ↔
      Throughout (fun before a => ¬ Overtakes (exec .std threads before) a) actions := by
  induction actions using List.reverseRecOn with
  | nil => simp
  | append_singleton actions a ih =>
    rw [Throughout.append_singleton_iff, Throughout.append_singleton_iff, ih]
    apply and_congr_right
    intro hpast
    have hinv := inv_exec hpast
    rw [exec_append]
    constructor
    . intro hexcl hover
      exact not_exclusive_of_overtakes hinv hover hexcl
    . intro hover
      exact (hinv.step hover .std (by simp)).exclusive

example :
    let go (thread : Nat) : Action := { thread := thread, wlock := true, spurious := false }
    (exec .std 2 [go 0, go 1, go 0, go 0, go 1, go 1, go 1]).threads = [.writing, .writing] := by
  decide

-- How many steps a thread is still on its way through `rwlock_rlock` or in the lock, once a writer
-- waits.
def Pc.delay (pc : Pc) : Nat :=
  match pc with
  | .rlockInc => 3
  | .rlockCheck => 2
  | .rlockDec => 1
  | .reading => 1
  | _ => 0

section

variable {s : State} {atomics : Atomics} {a : Action} {u : Nat}

theorem threads_step : (step atomics s a).threads = s.threads
    ∨ ∃ pc, (step atomics s a).threads = s.threads.set a.thread pc := by
  unfold step
  split
  . exact .inl rfl
  . exact .inr ⟨_, rfl⟩
  . split
    . exact .inl rfl
    . exact .inr ⟨_, rfl⟩
  . exact .inr ⟨_, rfl⟩
  . exact .inr ⟨_, rfl⟩
  . exact .inr ⟨_, rfl⟩
  . exact .inr ⟨_, rfl⟩
  . unfold cas
    split
    . split
      . exact .inr ⟨_, rfl⟩
      . exact .inl rfl
    . split
      . exact .inr ⟨_, rfl⟩
      . exact .inr ⟨_, rfl⟩
  . split
    . exact .inl rfl
    . exact .inr ⟨_, rfl⟩
  . exact .inr ⟨_, rfl⟩

theorem getElem?_step_of_ne (h : a.thread ≠ u) : (step atomics s a).threads[u]? = s.threads[u]? := by
  rcases threads_step (s := s) (a := a) with heq | ⟨pc, heq⟩
  . rw [heq]
  . rw [heq, List.getElem?_set_ne h]

theorem length_step : (step atomics s a).threads.length = s.threads.length := by
  rcases threads_step (s := s) (a := a) with heq | ⟨pc, heq⟩
  . rw [heq]
  . rw [heq, List.length_set]

theorem delay_step (hwrite : s.write ≠ 0) {pc : Pc} (hpc : s.threads[u]? = some pc)
    : ∃ pc', (step atomics s a).threads[u]? = some pc'
        ∧ pc'.delay ≤ pc.delay - if a.thread = u then 1 else 0 := by
  by_cases hne : a.thread ≠ u
  . rw [getElem?_step_of_ne hne, if_neg hne]
    exact ⟨pc, hpc, Nat.le_refl _⟩
  rw [ne_eq, not_not] at hne
  subst hne
  have hlt := (List.getElem?_eq_some_iff.mp hpc).1
  have hgoto : ∀ pc, (s.goto a.thread pc).threads[a.thread]? = some pc :=
    fun pc => List.getElem?_set_self hlt
  rw [if_pos rfl]
  unfold step
  rw [hpc]
  cases pc with
  | idle => exact ⟨_, hgoto _, by split <;> simp [Pc.delay]⟩
  | rlockWait => exact ⟨.rlockWait, by simp [hwrite, hpc], Nat.zero_le _⟩
  | rlockInc => exact ⟨_, hgoto _, Nat.le_refl _⟩
  | rlockCheck => exact ⟨_, hgoto _, by simp [hwrite, Pc.delay]⟩
  | rlockDec => exact ⟨_, hgoto _, Nat.le_refl _⟩
  | reading => exact ⟨_, hgoto _, Nat.le_refl _⟩
  | wlockCas clear =>
    dsimp only
    unfold cas
    split
    . split
      . exact ⟨_, hgoto _, Nat.zero_le _⟩
      . exact ⟨_, hpc, Nat.zero_le _⟩
    . split
      . exact ⟨_, hgoto _, Nat.zero_le _⟩
      . exact ⟨_, hgoto _, Nat.zero_le _⟩
  | wlockWait =>
    dsimp only
    split
    . exact ⟨_, hpc, Nat.zero_le _⟩
    . exact ⟨_, hgoto _, Nat.zero_le _⟩
  | writing => exact ⟨_, hgoto _, Nat.zero_le _⟩

end

theorem length_exec (atomics : Atomics) (threads : Nat) (actions : List Action)
    : (exec atomics threads actions).threads.length = threads := by
  induction actions using List.reverseRecOn with
  | nil => simp [exec, init]
  | append_singleton actions a ih => rw [exec_append, length_step, ih]

section

variable {atomics : Atomics} {threads t : Nat} {before after : List Action}
  (hwait : (exec atomics threads before).threads[t]? = some .wlockWait)
  (hother : ∀ a ∈ after, a.thread ≠ t)

include hwait hother

theorem waits_exec : (exec atomics threads (before ++ after)).threads[t]? = some .wlockWait := by
  induction after using List.reverseRecOn with
  | nil =>
    rw [List.append_nil]
    exact hwait
  | append_singleton after a ih =>
    rw [← List.append_assoc, exec_append, getElem?_step_of_ne (hother a (by simp))]
    apply ih
    intro b hb
    exact hother b (by simp [hb])

theorem delay_exec
    (hover : Throughout (fun past a => ¬ Overtakes (exec atomics threads past) a) (before ++ after))
    {u : Nat} {pc : Pc} (hpc : (exec atomics threads before).threads[u]? = some pc)
    : ∃ pc', (exec atomics threads (before ++ after)).threads[u]? = some pc'
        ∧ pc'.delay ≤ pc.delay - after.countP (·.thread = u) := by
  induction after using List.reverseRecOn with
  | nil =>
    rw [List.append_nil]
    exact ⟨pc, hpc, Nat.le_refl _⟩
  | append_singleton after a ih =>
    rw [← List.append_assoc, Throughout.append_singleton_iff] at hover
    have hpast : ∀ b ∈ after, b.thread ≠ t := by
      intro b hb
      exact hother b (by simp [hb])
    obtain ⟨pc₁, hpc₁, hle₁⟩ := ih hpast hover.1
    have hmem := List.mem_of_getElem? (waits_exec hwait hpast)
    have hwrite : (exec atomics threads (before ++ after)).write ≠ 0 := by
      intro hzero
      exact (inv_exec hover.1).not_mem (.inl ⟨rfl, hzero⟩) hmem
    obtain ⟨pc', hpc', hle⟩ := delay_step hwrite hpc₁
    rw [← List.append_assoc, exec_append]
    refine ⟨pc', hpc', Nat.le_trans hle ?_⟩
    rw [List.countP_append, List.countP_singleton]
    split
    . next heq =>
      simp only [heq, decide_true, ↓reduceIte]
      omega
    . next hne =>
      simp only [hne, decide_false, Bool.false_eq_true, ↓reduceIte]
      omega

end

theorem writer_enters (atomics : Atomics) (threads t : Nat) (before after : List Action)
    (hwait : (exec atomics threads before).threads[t]? = some .wlockWait)
    (hover : Throughout (fun past a => ¬ Overtakes (exec atomics threads past) a) (before ++ after))
    (hother : ∀ a ∈ after, a.thread ≠ t)
    (hsteps : ∀ u < threads, u ≠ t → 3 ≤ after.countP (·.thread = u)) (a : Action)
    (ha : a.thread = t)
    : (exec atomics threads (before ++ after ++ [a])).threads[t]? = some .writing := by
  have hwaits := waits_exec hwait hother
  have hread : (exec atomics threads (before ++ after)).read = 0 := by
    rw [(inv_exec hover).read, Int.natCast_eq_zero, List.countP_eq_zero]
    intro pc hmem hcounted
    obtain ⟨u, hu, hpc⟩ := List.mem_iff_getElem.mp hmem
    have hpc := List.getElem?_eq_some_iff.mpr ⟨hu, hpc⟩
    by_cases hut : u = t
    . rw [hut, hwaits, Option.some.injEq] at hpc
      subst hpc
      cases hcounted
    . rw [length_exec] at hu
      have hu' : u < (exec atomics threads before).threads.length := by rwa [length_exec]
      obtain ⟨pc', hpc', hle⟩ := delay_exec hwait hother hover (List.getElem?_eq_getElem hu')
      rw [hpc, Option.some.injEq] at hpc'
      subst hpc'
      have hthree := hsteps u hu hut
      generalize (exec atomics threads before).threads[u] = pc₀ at hle
      have hdelay : pc₀.delay ≤ 3 := by cases pc₀ <;> simp [Pc.delay]
      have hzero : pc.delay = 0 := by omega
      cases pc <;> simp [Pc.delay, Pc.counted] at hzero hcounted
  have hlt := (List.getElem?_eq_some_iff.mp hwaits).1
  rw [exec_append, step, ha, hwaits]
  dsimp only
  rw [hread, if_neg (by simp)]
  exact List.getElem?_set_self hlt

theorem writer_enters_twoThreads
    : (exec .sync 2 ([⟨1, false, false⟩, ⟨1, false, false⟩, ⟨1, false, false⟩, ⟨1, false, false⟩,
        ⟨0, true, false⟩, ⟨0, true, false⟩] ++ List.replicate 3 ⟨1, false, false⟩
        ++ [⟨0, true, false⟩])).threads[0]? = some .writing :=
  writer_enters .sync 2 0 _ _ rfl (fun past a _ _ => not_overtakes_sync 2 past a) (by decide)
    (by decide) ⟨0, true, false⟩ rfl

end Rwlock
