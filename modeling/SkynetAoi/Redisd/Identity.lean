import SkynetAoi.Lib.History
import SkynetAoi.Lib.Threads
import SkynetAoi.Redisd.Basic

/-!
This module contains when every user has one id of its own. Nothing keeps two calls of `checkuser`
from making an id for the same key at the same time, and two users can have the same key.
-/

namespace Redisd

def Identity (s : State) : Prop :=
  ∀ p i q j, (p, i) ∈ s.returned → (q, j) ∈ s.returned → (p = q ↔ i = j)

def Call.allocates (call : Call) : Bool :=
  match call.stage with
  | .get => false
  | .incrby => true
  | .set _ => true

/--
A `get` of `checkuser` that finds nothing is executed while no other call makes an id for that key.
-/
def Exclusive (s : State) (action : Action) : Prop :=
  match action with
  | .exec n =>
    ∀ call, s.calls[n]? = some call → call.stage = .get → call.checks = true →
      s.redis call.pair.key = none →
      ∀ other ∈ s.calls, other.allocates = true → other.pair.key ≠ call.pair.key
  | _ => True

def Action.pair? (action : Action) : Option Pair :=
  match action with
  | .checkuser pair code => if code = acceptedCode then some pair else none
  | .loadid pair => some pair
  | .exec _ => none

/--
No other user with the same key was asked for before.
-/
def Unambiguous (past : List Action) (action : Action) : Prop :=
  ∀ pair ∈ action.pair?, ∀ earlier ∈ past.filterMap Action.pair?,
    earlier.key = pair.key → earlier = pair

theorem key_ne_userId (pair : Pair) : pair.key ≠ userId := by
  intro h
  have hcolon : ':'.toUInt8 ∈ pair.key := by simp [Pair.key]
  rw [h] at hcolon
  revert hcolon
  decide

section

variable {redis : Bytes → Option Entry} {calls rest : List Call} {returned : List (Pair × Nat)}
variable {call : Call}

inductive Claims (redis : Bytes → Option Entry) (calls : List Call) (k : Bytes) (i : Nat) : Prop where
  | stored (hk : k ≠ userId) (h : redis k = some (.number i))
  | pending (call : Call) (hcall : call ∈ calls) (hkey : call.pair.key = k)
      (hstage : call.stage = .set i)

structure Inv (redis : Bytes → Option Entry) (calls : List Call) (returned : List (Pair × Nat)) : Prop
    where
  counter : ∃ c, redis userId = some (.number c) ∧ ∀ k i, Claims redis calls k i → i ≤ c
  own : ∀ k k' i, Claims redis calls k i → Claims redis calls k' i → k = k'
  alone : ((calls.filter Call.allocates).map (·.pair.key)).Nodup
  absent : ∀ call ∈ calls, call.allocates = true → redis call.pair.key = none
  returned : ∀ p i, (p, i) ∈ returned → redis p.key = some (.number i)

theorem Claims.subset {calls' : List Call} {k : Bytes} {i : Nat} (h : Claims redis calls k i)
    (hsub : calls.filter Call.allocates ⊆ calls'.filter Call.allocates)
    : Claims redis calls' k i := by
  cases h with
  | stored hk h => exact .stored hk h
  | pending call hcall hkey hstage =>
    have hmem : call ∈ calls.filter Call.allocates := by simp [hcall, Call.allocates, hstage]
    exact .pending call (List.mem_of_mem_filter (hsub hmem)) hkey hstage

theorem not_claims_init (hashes : Bytes → Bool) (k : Bytes) (i : Nat)
    : ¬Claims (State.init hashes).redis [] k i := by
  intro h
  cases h with
  | stored hk h =>
    simp only [State.init, if_neg hk] at h
    split at h
    . simp at h
    . simp at h
  | pending call hcall hkey hstage => simp at hcall

namespace Inv

theorem init (hashes : Bytes → Bool) : Inv (State.init hashes).redis [] [] where
  counter := by
    refine ⟨1000000, by simp [State.init], ?_⟩
    intro k i hclaims
    exact absurd hclaims (not_claims_init hashes k i)
  own := fun k k' i hclaims => absurd hclaims (not_claims_init hashes k i)
  alone := by simp
  absent := by simp
  returned := by simp

theorem subset {calls' : List Call} (h : Inv redis calls returned)
    (hsub : calls'.filter Call.allocates ⊆ calls.filter Call.allocates)
    (halone : ((calls'.filter Call.allocates).map (·.pair.key)).Nodup)
    : Inv redis calls' returned where
  counter := by
    obtain ⟨c, hc, hle⟩ := h.counter
    exact ⟨c, hc, fun k i hi => hle k i (hi.subset hsub)⟩
  own := fun k k' i hk hk' => h.own k k' i (hk.subset hsub) (hk'.subset hsub)
  alone := halone
  absent := by
    intro call hcall hallocates
    have hmem : call ∈ calls'.filter Call.allocates := by simp [hcall, hallocates]
    exact h.absent call (List.mem_of_mem_filter (hsub hmem)) hallocates
  returned := h.returned

theorem perm {calls' : List Call} (h : Inv redis calls returned) (hperm : calls'.Perm calls)
    : Inv redis calls' returned :=
  h.subset (hperm.filter _).subset (((hperm.filter _).map _).nodup_iff.mpr h.alone)

theorem sublist {calls' : List Call} (h : Inv redis calls returned)
    (hsub : (calls'.filter Call.allocates).Sublist (calls.filter Call.allocates))
    : Inv redis calls' returned :=
  h.subset hsub.subset (List.Nodup.sublist (hsub.map _) h.alone)

theorem ret (h : Inv redis calls returned) {pair : Pair} {id : Nat}
    (hget : redis pair.key = some (.number id)) : Inv redis calls (returned ++ [(pair, id)]) where
  counter := h.counter
  own := h.own
  alone := h.alone
  absent := h.absent
  returned := by
    intro p i hmem
    rw [List.mem_append, List.mem_singleton, Prod.mk.injEq] at hmem
    rcases hmem with hmem | ⟨rfl, rfl⟩
    . exact h.returned p i hmem
    . exact hget

theorem allocate (h : Inv redis rest returned) (hget : redis call.pair.key = none)
    (halone : ∀ other ∈ rest, other.allocates = true → other.pair.key ≠ call.pair.key)
    (hstage : call.stage = .incrby) : Inv redis (call :: rest) returned := by
  have hclaims : ∀ k i, Claims redis (call :: rest) k i → Claims redis rest k i := by
    intro k i hclaims
    cases hclaims with
    | stored hk h => exact .stored hk h
    | pending call' hcall hkey hstage' =>
      rw [List.mem_cons] at hcall
      rcases hcall with rfl | hcall
      . rw [hstage] at hstage'
        simp at hstage'
      . exact .pending call' hcall hkey hstage'
  have hallocates : call.allocates = true := by simp [Call.allocates, hstage]
  constructor
  . obtain ⟨c, hc, hle⟩ := h.counter
    exact ⟨c, hc, fun k i hi => hle k i (hclaims k i hi)⟩
  . exact fun k k' i hk hk' => h.own k k' i (hclaims k i hk) (hclaims k' i hk')
  . rw [List.filter_cons_of_pos hallocates, List.map_cons, List.nodup_cons]
    refine ⟨?_, h.alone⟩
    intro hmem
    obtain ⟨other, hother, hkey⟩ := List.mem_map.mp hmem
    rw [List.mem_filter] at hother
    exact halone other hother.1 hother.2 hkey
  . intro call' hcall
    rw [List.mem_cons] at hcall
    rcases hcall with rfl | hcall
    . exact fun _ => hget
    . exact h.absent call' hcall
  . exact h.returned

theorem incrby (h : Inv redis (call :: rest) returned) (hstage : call.stage = .incrby) {c : Nat}
    (hc : redis userId = some (.number c))
    : Inv (Function.update redis userId (some (.number (c + 1))))
        ({ call with stage := .set (c + 1) } :: rest) returned := by
  obtain ⟨c', hc', hle⟩ := h.counter
  have hallocates : call.allocates = true := by simp [Call.allocates, hstage]
  rw [hc, Option.some.injEq, Entry.number.injEq] at hc'
  subst hc'
  have hother : ∀ pair : Pair, Function.update redis userId (some (.number (c + 1))) pair.key
      = redis pair.key := by
    intro pair
    rw [Function.update_of_ne (key_ne_userId pair)]
  have hclaims : ∀ k i, Claims (Function.update redis userId (some (.number (c + 1))))
      ({ call with stage := .set (c + 1) } :: rest) k i →
      (k = call.pair.key ∧ i = c + 1) ∨ (Claims redis (call :: rest) k i ∧ i ≤ c) := by
    intro k i hclaims
    cases hclaims with
    | stored hk h =>
      rw [Function.update_of_ne hk] at h
      exact .inr ⟨.stored hk h, hle k i (.stored hk h)⟩
    | pending call' hcall hkey hstage' =>
      rw [List.mem_cons] at hcall
      rcases hcall with rfl | hcall
      . simp only [Stage.set.injEq] at hstage'
        exact .inl ⟨hkey.symm, hstage'.symm⟩
      . have hpending : Claims redis (call :: rest) k i :=
          .pending call' (List.mem_cons_of_mem call hcall) hkey hstage'
        exact .inr ⟨hpending, hle k i hpending⟩
  constructor
  . refine ⟨c + 1, by simp, ?_⟩
    intro k i hi
    rcases hclaims k i hi with ⟨-, rfl⟩ | ⟨-, hi⟩
    . omega
    . omega
  . intro k k' i hk hk'
    rcases hclaims k i hk with ⟨rfl, hi⟩ | ⟨hk, hi⟩
    . rcases hclaims k' i hk' with ⟨rfl, -⟩ | ⟨-, hi'⟩
      . rfl
      . omega
    . rcases hclaims k' i hk' with ⟨-, hi'⟩ | ⟨hk', -⟩
      . omega
      . exact h.own k k' i hk hk'
  . have := h.alone
    rw [List.filter_cons_of_pos hallocates] at this
    rw [List.filter_cons_of_pos (by simp [Call.allocates])]
    exact this
  . intro call' hcall hallocates'
    rw [hother]
    rw [List.mem_cons] at hcall
    rcases hcall with rfl | hcall
    . exact h.absent call (by simp) hallocates
    . exact h.absent call' (by simp [hcall]) hallocates'
  . intro p i hmem
    rw [hother]
    exact h.returned p i hmem

theorem set (h : Inv redis (call :: rest) returned) {id : Nat} (hstage : call.stage = .set id)
    : Inv (Function.update redis call.pair.key (some (.number id))) rest
        (returned ++ [(call.pair, id)]) := by
  have hallocates : call.allocates = true := by simp [Call.allocates, hstage]
  have hnone := h.absent call (by simp) hallocates
  have halone := h.alone
  rw [List.filter_cons_of_pos hallocates, List.map_cons, List.nodup_cons] at halone
  have hclaims : ∀ k i, Claims (Function.update redis call.pair.key (some (.number id))) rest k i →
      Claims redis (call :: rest) k i := by
    intro k i hclaims
    cases hclaims with
    | stored hk h =>
      rw [Function.update_apply] at h
      split at h
      . next heq =>
        rw [Option.some.injEq, Entry.number.injEq] at h
        rw [← h]
        exact .pending call (by simp) heq.symm hstage
      . exact .stored hk h
    | pending call' hcall hkey hstage' => exact .pending call' (by simp [hcall]) hkey hstage'
  refine Inv.ret ?_ (by simp)
  constructor
  . obtain ⟨c, hc, hle⟩ := h.counter
    refine ⟨c, ?_, fun k i hi => hle k i (hclaims k i hi)⟩
    rw [Function.update_of_ne (Ne.symm (key_ne_userId call.pair)), hc]
  . exact fun k k' i hk hk' => h.own k k' i (hclaims k i hk) (hclaims k' i hk')
  . exact halone.2
  . intro call' hcall hallocates'
    rw [Function.update_of_ne]
    . exact h.absent call' (by simp [hcall]) hallocates'
    . intro heq
      apply halone.1
      rw [← heq]
      exact List.mem_map_of_mem (List.mem_filter.mpr ⟨hcall, hallocates'⟩)
  . intro p i hmem
    have hp := h.returned p i hmem
    rw [Function.update_of_ne]
    . exact hp
    . intro heq
      rw [heq, hnone] at hp
      simp at hp

end Inv

end

def State.Inv (s : State) : Prop := Redisd.Inv s.redis s.calls s.returned

namespace State.Inv

variable {s : State} {n : Nat} {call : Call}

theorem drop (h : s.Inv) (n : Nat) : (s.drop n).Inv :=
  h.sublist ((List.eraseIdx_sublist s.calls n).filter _)

theorem ask (h : s.Inv) (pair : Pair) (checks : Bool)
    : State.Inv { s with calls := s.calls ++ [⟨pair, checks, .get⟩] } := by
  refine h.sublist ?_
  rw [List.filter_append]
  simp [Call.allocates]

theorem get (h : s.Inv) (hn : s.calls[n]? = some call) (hstage : call.stage = .get)
    (hexclusive : Exclusive s (.exec n)) : (Redisd.get n call s).Inv := by
  unfold Redisd.get
  split
  . next id hget => exact (h.drop n).ret hget
  . exact h.drop n
  . next hnone =>
    split
    . next hchecks =>
      have hrest : Redisd.Inv s.redis (s.calls.eraseIdx n) s.returned := h.drop n
      refine Redisd.Inv.perm ?_ (set_perm_of_getElem? hn { call with stage := .incrby })
      refine hrest.allocate hnone ?_ rfl
      intro other hother hallocates
      apply hexclusive call hn hstage hchecks hnone other _ hallocates
      exact (List.eraseIdx_sublist s.calls n).subset hother
    . exact h.drop n

theorem incrby (h : s.Inv) (hn : s.calls[n]? = some call) (hstage : call.stage = .incrby)
    : (Redisd.incrby n call s).Inv := by
  obtain ⟨c, hc, -⟩ := h.counter
  have hcall := Redisd.Inv.perm h (perm_of_getElem? hn).symm
  simp only [Redisd.incrby, hc]
  exact Redisd.Inv.perm (hcall.incrby hstage hc) (set_perm_of_getElem? hn _)

theorem set (h : s.Inv) (hn : s.calls[n]? = some call) {id : Nat} (hstage : call.stage = .set id)
    : ((s.put call.pair.key id).ret n call id).Inv := by
  have hcall := Redisd.Inv.perm h (perm_of_getElem? hn).symm
  exact hcall.set hstage

theorem step (h : s.Inv) {action : Action} (hexclusive : Exclusive s action)
    : (Redisd.step s action).Inv := by
  cases action with
  | checkuser pair code =>
    simp only [Redisd.step, checkuser]
    split
    . exact h.ask pair true
    . exact h
  | loadid pair => exact h.ask pair false
  | exec n =>
    simp only [Redisd.step, exec]
    split
    . exact h
    . next call hn =>
      split
      . next hstage => exact h.get hn hstage hexclusive
      . next hstage => exact h.incrby hn hstage
      . next id hstage => exact h.set hn hstage

end State.Inv

structure Asked (s : State) (pairs : List Pair) : Prop where
  calls : ∀ call ∈ s.calls, call.pair ∈ pairs
  returned : ∀ p i, (p, i) ∈ s.returned → p ∈ pairs

namespace Asked

variable {s : State} {pairs : List Pair} {n : Nat} {call : Call}

theorem drop (h : Asked s pairs) (n : Nat) : Asked (s.drop n) pairs where
  calls := fun call hcall => h.calls call ((List.eraseIdx_sublist s.calls n).subset hcall)
  returned := h.returned

theorem ret (h : Asked s pairs) (hcall : call.pair ∈ pairs) (n id : Nat)
    : Asked (s.ret n call id) pairs where
  calls := (h.drop n).calls
  returned := by
    intro p i hmem
    rw [State.ret, List.mem_append, List.mem_singleton, Prod.mk.injEq] at hmem
    rcases hmem with hmem | ⟨rfl, -⟩
    . exact h.returned p i hmem
    . exact hcall

theorem put (h : Asked s pairs) (k : Bytes) (id : Nat) : Asked (s.put k id) pairs :=
  ⟨h.calls, h.returned⟩

theorem advance (h : Asked s pairs) (hn : s.calls[n]? = some call) (stage : Stage)
    : Asked (s.advance n call stage) pairs where
  calls := by
    intro call' hcall
    rw [State.advance, (set_perm_of_getElem? hn _).mem_iff, List.mem_cons] at hcall
    rcases hcall with rfl | hcall
    . exact h.calls call (List.mem_of_getElem? hn)
    . exact (h.drop n).calls call' hcall
  returned := h.returned

theorem exec (h : Asked s pairs) (n : Nat) : Asked (Redisd.exec n s) pairs := by
  unfold Redisd.exec
  split
  . exact h
  . next call hn =>
    have hcall := h.calls call (List.mem_of_getElem? hn)
    split
    . unfold get
      split
      . exact h.ret hcall n _
      . exact h.drop n
      . split
        . exact h.advance hn .incrby
        . exact h.drop n
    . unfold incrby
      split
      . exact (h.put _ _).advance hn _
      . exact h.drop n
      . exact (h.put _ _).advance hn _
    . exact (h.put _ _).ret hcall n _

theorem ask (h : Asked s pairs) (pair : Pair) (checks : Bool)
    : Asked { s with calls := s.calls ++ [⟨pair, checks, .get⟩] } (pairs ++ [pair]) where
  calls := by
    intro call hcall
    rw [List.mem_append, List.mem_singleton] at hcall
    rcases hcall with hcall | rfl
    . exact List.mem_append_left _ (h.calls call hcall)
    . simp
  returned := fun p i hmem => List.mem_append_left _ (h.returned p i hmem)

theorem step (h : Asked s pairs) (action : Action)
    : Asked (Redisd.step s action) (pairs ++ action.pair?.toList) := by
  cases action with
  | checkuser pair code =>
    by_cases hcode : code = acceptedCode
    . simpa [Redisd.step, checkuser, Action.pair?, hcode] using h.ask pair true
    . simpa [Redisd.step, checkuser, Action.pair?, hcode] using h
  | loadid pair => exact h.ask pair false
  | exec n => simpa [Redisd.step, Action.pair?] using h.exec n

end Asked

theorem filterMap_append_singleton (past : List Action) (action : Action)
    : (past ++ [action]).filterMap Action.pair?
        = past.filterMap Action.pair? ++ action.pair?.toList := by
  rw [List.filterMap_append]
  cases haction : action.pair? with
  | none => simp [haction]
  | some pair => simp [haction]

theorem after_inv {hashes : Bytes → Bool} {actions : List Action}
    (h : Throughout (fun past action => Exclusive (after hashes past) action) actions)
    : (after hashes actions).Inv := by
  unfold after at h ⊢
  have hinit : (State.init hashes).Inv := Inv.init hashes
  apply Throughout.foldl_invariant (W := fun _ => True) hinit _ (by simp) h
  intro s action hinv _ hexclusive
  exact State.Inv.step hinv hexclusive

theorem after_asked (hashes : Bytes → Bool) (actions : List Action)
    : Asked (after hashes actions) (actions.filterMap Action.pair?) := by
  induction actions using List.reverseRecOn with
  | nil => exact ⟨by simp [after, State.init], by simp [after, State.init]⟩
  | append_singleton past action ih =>
    rw [filterMap_append_singleton]
    unfold after at ih ⊢
    rw [List.foldl_append]
    exact ih.step action

theorem eq_of_key_eq {actions : List Action} (h : Throughout Unambiguous actions)
    : ∀ p ∈ actions.filterMap Action.pair?, ∀ q ∈ actions.filterMap Action.pair?,
      p.key = q.key → p = q := by
  induction actions using List.reverseRecOn with
  | nil => simp
  | append_singleton past action ih =>
    rw [Throughout.append_singleton_iff] at h
    rw [filterMap_append_singleton]
    intro p hp q hq heq
    rw [List.mem_append, Option.mem_toList] at hp hq
    rcases hp with hp | hp
    . rcases hq with hq | hq
      . exact ih h.1 p hp q hq heq
      . exact h.2 q hq p hp heq
    . rcases hq with hq | hq
      . exact (h.2 p hp q hq heq.symm).symm
      . rw [hp, Option.some.injEq] at hq
        exact hq

theorem identity_of_exclusive (hashes : Bytes → Bool) (actions : List Action)
    (hunambiguous : Throughout Unambiguous actions)
    (hexclusive : Throughout (fun past action => Exclusive (after hashes past) action) actions)
    : Identity (after hashes actions) := by
  have hinv := after_inv hexclusive
  have hasked := after_asked hashes actions
  intro p i q j hp hq
  have hgetp := hinv.returned p i hp
  have hgetq := hinv.returned q j hq
  constructor
  . rintro rfl
    rw [hgetp, Option.some.injEq, Entry.number.injEq] at hgetq
    exact hgetq
  . rintro rfl
    have hkey := hinv.own p.key q.key i (.stored (key_ne_userId p) hgetp)
      (.stored (key_ne_userId q) hgetq)
    exact eq_of_key_eq hunambiguous p (hasked.returned p i hp) q (hasked.returned q i hq) hkey

def inTurn : List Action :=
  [.checkuser ⟨['a'.toUInt8], ['u'.toUInt8]⟩ acceptedCode, .exec 0, .exec 0, .exec 0,
    .checkuser ⟨['a'.toUInt8], ['v'.toUInt8]⟩ acceptedCode, .exec 0, .exec 0, .exec 0,
    .checkuser ⟨['a'.toUInt8], ['u'.toUInt8]⟩ acceptedCode, .exec 0,
    .loadid ⟨['a'.toUInt8], ['v'.toUInt8]⟩, .exec 0]

def raced : List Action :=
  [.checkuser ⟨['a'.toUInt8], ['u'.toUInt8]⟩ acceptedCode,
    .checkuser ⟨['a'.toUInt8], ['u'.toUInt8]⟩ acceptedCode, .exec 0, .exec 1, .exec 0, .exec 1, .exec 0,
    .exec 0]

def collided : List Action :=
  [.checkuser ⟨['a', ':', 'b'].map Char.toUInt8, ['c'.toUInt8]⟩ acceptedCode, .exec 0, .exec 0,
    .exec 0, .checkuser ⟨['a'.toUInt8], ['b', ':', 'c'].map Char.toUInt8⟩ acceptedCode, .exec 0]

theorem identity_of_exclusive_inTurn : Identity (after (fun _ => false) inTurn) := by
  apply identity_of_exclusive
  . apply Throughout.of_take
    have : ∀ n < inTurn.length, ∀ action ∈ inTurn[n]?, ∀ pair ∈ action.pair?,
        ∀ earlier ∈ (inTurn.take n).filterMap Action.pair?,
          earlier.key = pair.key → earlier = pair := by
      decide +kernel
    exact this
  . apply Throughout.of_take
    have : ∀ n < inTurn.length, ∀ call ∈ (after (fun _ => false) (inTurn.take n)).calls,
        (after (fun _ => false) (inTurn.take n)).calls = [call] := by
      decide +kernel
    intro n hn action haction
    cases action with
    | exec m =>
      intro call hcall hstage _ _ other hother hallocates
      rw [this n hn call (List.mem_of_getElem? hcall), List.mem_singleton] at hother
      simp [hother, Call.allocates, hstage] at hallocates
    | checkuser pair code => trivial
    | loadid pair => trivial

theorem raced_collided_not_identity
    : ¬Identity (after (fun _ => false) raced) ∧ ¬Identity (after (fun _ => false) collided) := by
  have hraced : (after (fun _ => false) raced).returned
      = [(⟨['a'.toUInt8], ['u'.toUInt8]⟩, 1000001), (⟨['a'.toUInt8], ['u'.toUInt8]⟩, 1000002)] := by
    decide +kernel
  have hcollided : (after (fun _ => false) collided).returned
      = [(⟨['a', ':', 'b'].map Char.toUInt8, ['c'.toUInt8]⟩, 1000001),
        (⟨['a'.toUInt8], ['b', ':', 'c'].map Char.toUInt8⟩, 1000001)] := by
    decide +kernel
  constructor
  . intro h
    have := h _ 1000001 _ 1000002 (by rw [hraced]; exact List.mem_cons_self)
      (by rw [hraced]; exact List.mem_cons_of_mem _ List.mem_cons_self)
    simp at this
  . intro h
    have := h _ 1000001 _ 1000001 (by rw [hcollided]; exact List.mem_cons_self)
      (by rw [hcollided]; exact List.mem_cons_of_mem _ List.mem_cons_self)
    simp at this

end Redisd
