import SkynetAoi.Watchdog.Session

/-!
This module contains where the agents are. An agent that was launched and not told to disconnect is
in the table, unless the client was closed or has sent another login before it was there.
-/

namespace Watchdog

variable {Fd : Type} [DecidableEq Fd]

def State.closes (s : State Fd) (action : Action Fd) : Option Fd :=
  match action with
  | .close fd => some fd
  | .socketClose fd => some fd
  | .socketError fd => some fd
  | .resume n _ order =>
    match s.threads[n]? with
    | some (.kick uid) => getFdByUserid order s uid
    | _ => none
  | _ => none

def State.closed (config : Config) (s : State Fd) (actions : List (Action Fd)) : List Fd :=
  match actions with
  | [] => []
  | action :: actions => (s.closes action).toList ++ (step config s action).closed config actions

def closed (config : Config) (actions : List (Action Fd)) : List Fd :=
  State.init.closed config actions

/--
With no handler waiting, an agent that was launched and not told to disconnect is in the table for
one client, which has a session and was not closed.
-/
def NoOrphan (config : Config) (actions : List (Action Fd)) : Prop :=
  (after config actions).threads = [] →
    ∀ a < (after config actions).launched, .disconnect a ∉ (after config actions).sent →
      ∃ fd, (after config actions).agent fd = some a
        ∧ (∀ fd', (after config actions).agent fd' = some a → fd' = fd)
        ∧ ((after config actions).sessionMap.lookup fd).isSome = true
        ∧ fd ∉ closed config actions

/--
A new agent comes while the client that it is for has a session, was not closed and has no other
agent, and the gate does not fail to kick a client.
-/
def Settled (s : State Fd) (closed : List Fd) (action : Action Fd) : Bool :=
  match action with
  | .resume n reply _ =>
    match s.threads[n]?, reply with
    | some (.newservice fd _), .value =>
      (s.agent fd).isNone && (s.sessionMap.lookup fd).isSome && decide (fd ∉ closed)
    | some (.newservice fd _), .empty => (s.agent fd).isNone
    | some (.closing _), .error => false
    | _, _ => true
  | _ => true

theorem State.closed_append (config : Config) (s : State Fd) (actions : List (Action Fd))
    (action : Action Fd)
    : s.closed config (actions ++ [action])
        = s.closed config actions ++ ((actions.foldl (step config) s).closes action).toList := by
  induction actions generalizing s with
  | nil => simp [State.closed]
  | cons first actions ih =>
    rw [List.cons_append, State.closed, ih, State.closed, List.append_assoc, List.foldl_cons]

structure Housed (s : State Fd) (closed : List Fd) : Prop where
  once : ∀ (fd fd' : Fd) (a : Nat), s.agent fd = some a → s.agent fd' = some a → fd = fd'
  where_ : ∀ a < s.launched, .disconnect a ∈ s.sent ∨ .closing a ∈ s.threads
    ∨ ∃ fd, s.agent fd = some a ∧ (s.sessionMap.lookup fd).isSome = true ∧ fd ∉ closed

namespace Housed

variable {s s' : State Fd} {closed : List Fd}

theorem mono (h : Housed s closed) (hagent : s'.agent = s.agent)
    (hlaunched : s'.launched = s.launched)
    (hsessions : ∀ fd, (s.sessionMap.lookup fd).isSome = true →
      (s'.sessionMap.lookup fd).isSome = true)
    (hsent : ∀ a, .disconnect a ∈ s.sent → .disconnect a ∈ s'.sent)
    (hthreads : ∀ a, .closing a ∈ s.threads → .disconnect a ∈ s'.sent ∨ .closing a ∈ s'.threads)
    : Housed s' closed where
  once := by
    rw [hagent]
    exact h.once
  where_ := by
    intro a ha
    rw [hlaunched] at ha
    rw [hagent]
    rcases h.where_ a ha with hdone | hclosing | ⟨fd, hfd, hsession, hopen⟩
    . exact .inl (hsent a hdone)
    . rcases hthreads a hclosing with hdone | hclosing
      . exact .inl hdone
      . exact .inr (.inl hclosing)
    . exact .inr (.inr ⟨fd, hfd, hsessions fd hsession, hopen⟩)

theorem call (h : Housed s closed) (msg : Msg Fd) (rest : Thread Fd)
    : Housed (s.call msg rest) closed := by
  have hsent : ∀ a, .disconnect a ∈ s.sent → .disconnect a ∈ (s.call msg rest).sent := by
    intro a ha
    simp [ha]
  have hthreads : ∀ a, .closing a ∈ s.threads → .closing a ∈ (s.call msg rest).threads := by
    intro a ha
    simp [ha]
  exact h.mono rfl rfl (fun _ => id) hsent (fun a ha => .inr (hthreads a ha))

theorem closeAgent (h : Housed s closed) (fd : Fd)
    : Housed (Watchdog.closeAgent fd s) (closed ++ [fd]) := by
  have hother : ∀ fd' a, (Watchdog.closeAgent fd s).agent fd' = some a
      ↔ fd' ≠ fd ∧ s.agent fd' = some a := by
    intro fd' a
    have hagent : (Watchdog.closeAgent fd s).agent = Function.update s.agent fd none := by
      unfold Watchdog.closeAgent
      cases s.agent fd with
      | none => rfl
      | some a => rfl
    rw [hagent, Function.update_apply]
    split
    . next heq => simp [heq]
    . next hne => simp [hne]
  have hsession : (Watchdog.closeAgent fd s).sessionMap = s.sessionMap.erase fd := by
    unfold Watchdog.closeAgent
    cases s.agent fd with
    | none => rfl
    | some a => rfl
  have hlaunched : (Watchdog.closeAgent fd s).launched = s.launched := by
    unfold Watchdog.closeAgent
    cases s.agent fd with
    | none => rfl
    | some a => rfl
  have hsent : ∀ a, .disconnect a ∈ s.sent → .disconnect a ∈ (Watchdog.closeAgent fd s).sent := by
    intro a ha
    unfold Watchdog.closeAgent
    cases s.agent fd with
    | none => exact ha
    | some a => simp [ha]
  have hthreads : ∀ a, .closing a ∈ s.threads ∨ s.agent fd = some a →
      .closing a ∈ (Watchdog.closeAgent fd s).threads := by
    intro a ha
    unfold Watchdog.closeAgent
    cases hfd : s.agent fd with
    | none =>
      rw [hfd] at ha
      simpa using ha
    | some a' =>
      rw [hfd, Option.some.injEq] at ha
      rcases ha with ha | rfl
      . simp [ha]
      . simp
  constructor
  . intro fd1 fd2 a h1 h2
    rw [hother] at h1 h2
    exact h.once fd1 fd2 a h1.2 h2.2
  . intro a ha
    rw [hlaunched] at ha
    rcases h.where_ a ha with hdone | hclosing | ⟨fd', hfd', hlookup, hopen⟩
    . exact .inl (hsent a hdone)
    . exact .inr (.inl (hthreads a (.inl hclosing)))
    . by_cases heq : fd' = fd
      . rw [heq] at hfd'
        exact .inr (.inl (hthreads a (.inr hfd')))
      . refine .inr (.inr ⟨fd', (hother fd' a).mpr ⟨heq, hfd'⟩, ?_, ?_⟩)
        . rw [hsession, AList.lookup_erase_ne heq]
          exact hlookup
        . simp [hopen, heq]

theorem eraseIdx (h : Housed s closed) {n : Nat} {thread : Thread Fd}
    (hthread : s.threads[n]? = some thread) (hclosing : ∀ a, thread ≠ .closing a)
    : Housed { s with threads := s.threads.eraseIdx n } closed := by
  refine h.mono rfl rfl (fun _ => id) (fun _ => id) ?_
  intro a ha
  rw [(perm_of_getElem? hthread).mem_iff, List.mem_cons] at ha
  rcases ha with ha | ha
  . exact absurd ha.symm (hclosing a)
  . exact .inr ha

theorem disconnect (h : Housed s closed) {n a : Nat} (hthread : s.threads[n]? = some (.closing a))
    : Housed (State.send { s with threads := s.threads.eraseIdx n } (.disconnect a)) closed := by
  refine h.mono rfl rfl (fun _ => id) ?_ ?_
  . intro a' ha'
    simp [State.send, ha']
  . intro a' ha'
    rw [(perm_of_getElem? hthread).mem_iff, List.mem_cons] at ha'
    rcases ha' with ha' | ha'
    . rw [Thread.closing.injEq] at ha'
      exact .inl (by simp [State.send, ha'])
    . exact .inr ha'

theorem launch (h : Housed s closed) (hfresh : s.Fresh) {fd : Fd} (hagent : s.agent fd = none)
    (hsession : (s.sessionMap.lookup fd).isSome = true) (hopen : fd ∉ closed)
    : Housed
        { s with launched := s.launched + 1, agent := Function.update s.agent fd (some s.launched) }
        closed := by
  have hother : ∀ fd' a, Function.update s.agent fd (some s.launched) fd' = some a →
      fd' = fd ∧ a = s.launched ∨ fd' ≠ fd ∧ s.agent fd' = some a ∧ a < s.launched := by
    intro fd' a ha
    by_cases hfd : fd' = fd
    . subst hfd
      rw [Function.update_self, Option.some.injEq] at ha
      exact .inl ⟨rfl, ha.symm⟩
    . rw [Function.update_of_ne hfd] at ha
      exact .inr ⟨hfd, ha, hfresh a (.agent fd' ha)⟩
  constructor
  . intro fd1 fd2 a h1 h2
    rcases hother fd1 a h1 with ⟨hfd1, ha1⟩ | ⟨-, h1, ha1⟩
    . rcases hother fd2 a h2 with ⟨hfd2, -⟩ | ⟨-, -, ha2⟩
      . rw [hfd1, hfd2]
      . omega
    . rcases hother fd2 a h2 with ⟨-, ha2⟩ | ⟨-, h2, -⟩
      . omega
      . exact h.once fd1 fd2 a h1 h2
  . intro a ha
    by_cases heq : a = s.launched
    . rw [heq]
      exact .inr (.inr ⟨fd, by simp, hsession, hopen⟩)
    . have ha : a < s.launched := by
        have : a < s.launched + 1 := ha
        omega
      rcases h.where_ a ha with hdone | hclosing | ⟨fd', hfd', hlookup, hopen'⟩
      . exact .inl hdone
      . exact .inr (.inl hclosing)
      . have hne : fd' ≠ fd := by
          rintro rfl
          rw [hagent] at hfd'
          simp at hfd'
        exact .inr (.inr ⟨fd', by simpa [hne] using hfd', hlookup, hopen'⟩)

theorem resume (h : Housed s closed) (hfresh : s.Fresh) {n : Nat} {reply : Reply}
    {order : PairsOrder Fd} (hsettled : Settled s closed (.resume n reply order) = true)
    : Housed (Watchdog.resume n reply order s)
        (closed ++ (s.closes (.resume n reply order)).toList) := by
  cases hthread : s.threads[n]? with
  | none => simpa [Watchdog.resume, State.closes, hthread] using h
  | some thread =>
    cases thread with
    | newservice fd uid =>
      have herase := h.eraseIdx hthread (by simp)
      cases reply with
      | value =>
        simp only [Settled, hthread, Bool.and_eq_true, Option.isNone_iff_eq_none,
          decide_eq_true_eq] at hsettled
        have hfresh := fun a ha => hfresh a ((quiet_eraseIdx s n).known a ha)
        have := (herase.launch hfresh hsettled.1.1 hsettled.1.2 hsettled.2).call
          (.start s.launched fd uid) .last
        simpa [Watchdog.resume, Thread.resume, State.closes, hthread] using this
      | empty =>
        simp only [Settled, hthread, Option.isNone_iff_eq_none] at hsettled
        have hupdate : Function.update s.agent fd none = s.agent := by
          rw [← hsettled, Function.update_eq_self]
        simpa [Watchdog.resume, Thread.resume, State.closes, hthread, hupdate] using herase
      | error => simpa [Watchdog.resume, Thread.resume, State.closes, hthread] using herase
    | closing a =>
      have := h.disconnect hthread
      cases reply with
      | value => simpa [Watchdog.resume, Thread.resume, State.closes, hthread] using this
      | empty => simpa [Watchdog.resume, Thread.resume, State.closes, hthread] using this
      | error => simp [Settled, hthread] at hsettled
    | kick uid =>
      have herase := h.eraseIdx hthread (by simp)
      have hsecret : Housed
          { s with
            threads := s.threads.eraseIdx n
            userSecret := Function.update s.userSecret uid none
          } closed := ⟨herase.once, herase.where_⟩
      have hfind : getFdByUserid order
          { s with
            threads := s.threads.eraseIdx n
            userSecret := Function.update s.userSecret uid none
          }
          uid = getFdByUserid order s uid := rfl
      simp only [Watchdog.resume, Thread.resume, State.closes, hthread]
      rw [hfind]
      cases getFdByUserid order s uid with
      | none => simpa using hsecret
      | some fd => exact hsecret.closeAgent fd
    | last =>
      have herase := h.eraseIdx hthread (by simp)
      simpa [Watchdog.resume, Thread.resume, State.closes, hthread] using herase

theorem socketData (h : Housed s closed) (config : Config) (fd : Fd) (msg : Bytes)
    : Housed (Watchdog.socketData config fd msg s) closed := by
  unfold Watchdog.socketData
  cases Verdict.ofMsg config s msg with
  | raise => exact h
  | kick => exact h.call (.kick fd) .last
  | login uid subid =>
    have hinsert : Housed { s with sessionMap := s.sessionMap.insert fd ⟨uid, subid⟩ } closed := by
      refine h.mono rfl rfl ?_ (fun _ => id) (fun _ => .inr)
      intro fd' hfd'
      by_cases heq : fd' = fd
      . subst heq
        simp
      . simpa [heq] using hfd'
    exact hinsert.call .newservice (.newservice fd uid)

theorem step (h : Housed s closed) (hfresh : s.Fresh) {config : Config} {action : Action Fd}
    (hsettled : Settled s closed action = true)
    : Housed (Watchdog.step config s action) (closed ++ (s.closes action).toList) := by
  cases action with
  | login uid secret =>
    have hlogin : Housed (Watchdog.login uid secret s) closed := ⟨h.once, h.where_⟩
    simpa [State.closes, Watchdog.step] using hlogin
  | kick uid lastSubid =>
    simpa [State.closes, Watchdog.step, Watchdog.kick] using h.call (.logout uid lastSubid) (.kick uid)
  | close fd => exact h.closeAgent fd
  | socketOpen fd =>
    simpa [State.closes, Watchdog.step, Watchdog.socketOpen] using h.call (.accept fd) .last
  | socketData fd msg => simpa [State.closes, Watchdog.step] using h.socketData config fd msg
  | socketClose fd => exact h.closeAgent fd
  | socketError fd => exact h.closeAgent fd
  | resume n reply order => exact h.resume hfresh hsettled

theorem noOrphan {config : Config} {actions : List (Action Fd)}
    (h : Housed (after config actions) (Watchdog.closed config actions))
    : NoOrphan config actions := by
  intro hidle a ha hlive
  rcases h.where_ a ha with hdone | hclosing | ⟨fd, hfd, hsession, hopen⟩
  . exact absurd hdone hlive
  . rw [hidle] at hclosing
    simp at hclosing
  . exact ⟨fd, hfd, fun fd' hfd' => h.once fd' fd a hfd' hfd, hsession, hopen⟩

end Housed

theorem after_housed {config : Config} {actions : List (Action Fd)}
    (h : Throughout
      (fun past action => Settled (after config past) (closed config past) action = true) actions)
    : Housed (after config actions) (closed config actions) := by
  refine Throughout.induction
    (Q := fun actions => Housed (after config actions) (closed config actions)) ?_ ?_ h
  . exact ⟨by simp [after, State.init], by simp [after, State.init]⟩
  . intro past action hpast hsettled
    unfold closed after
    rw [State.closed_append, List.foldl_append]
    exact hpast.step (after_fresh config past) hsettled

theorem noOrphan_of_settled (config : Config) (actions : List (Action Fd))
    (h : Throughout
      (fun past action => Settled (after config past) (closed config past) action = true) actions)
    : ∀ past, past <+: actions → NoOrphan config past := by
  rintro past ⟨rest, rfl⟩
  rw [Throughout.append_iff] at h
  exact (after_housed h.1).noOrphan

def relogged : List (Action Nat) :=
  [.login ['u'.toUInt8] [1, 2, 3, 4, 5, 6, 7, 8], .socketOpen 1, .socketData 1 samplePacket,
    .resume 0 .value (PairsOrder.inserted Nat), .resume 0 .value (PairsOrder.inserted Nat),
    .resume 0 .value (PairsOrder.inserted Nat), .kick ['u'.toUInt8] ['1'.toUInt8],
    .resume 0 .value (PairsOrder.inserted Nat), .resume 0 .value (PairsOrder.inserted Nat)]

theorem noOrphan_of_settled_relogged
    : Throughout (fun past action =>
          Settled (after sampleConfig past) (closed sampleConfig past) action = true) relogged
        ∧ ∀ past, past <+: relogged → NoOrphan sampleConfig past := by
  have hsettled : ∀ n < relogged.length,
      (relogged[n]?).all (Settled (after sampleConfig (relogged.take n))
        (closed sampleConfig (relogged.take n))) = true := by
    decide +kernel
  have h : Throughout (fun past action =>
      Settled (after sampleConfig past) (closed sampleConfig past) action = true) relogged := by
    apply Throughout.of_take
    intro n hn action haction
    have := hsettled n hn
    rwa [haction, Option.all_some] at this
  exact ⟨h, noOrphan_of_settled sampleConfig relogged h⟩

def hungUp : List (Action Nat) :=
  [.login ['u'.toUInt8] [1, 2, 3, 4, 5, 6, 7, 8], .socketOpen 1, .socketData 1 samplePacket,
    .socketClose 1, .resume 0 .value (PairsOrder.inserted Nat),
    .resume 0 .value (PairsOrder.inserted Nat), .resume 0 .error (PairsOrder.inserted Nat)]

theorem hungUp_orphan : ¬NoOrphan sampleConfig hungUp := by
  intro h
  have hidle : (after sampleConfig hungUp).threads = [] := by decide +kernel
  have hlaunched : 0 < (after sampleConfig hungUp).launched := by decide +kernel
  have hlive : .disconnect 0 ∉ (after sampleConfig hungUp).sent := by decide +kernel
  have hnone : (after sampleConfig hungUp).sessionMap.keys = [] := by decide +kernel
  obtain ⟨fd, -, -, hsession, -⟩ := h hidle 0 hlaunched hlive
  have hmem := AList.mem_keys.mp (AList.lookup_isSome.mp hsession)
  rw [hnone] at hmem
  simp at hmem

end Watchdog
