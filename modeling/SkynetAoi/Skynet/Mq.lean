import SkynetAoi.Lib.RingBuffer
import SkynetAoi.Skynet.Message

/-!
This module contains `skynet_mq.c`, the queue of a service. What a queue has to do with the global
queue is said by the flag that its functions give back.
-/

namespace SkynetMq

def defaultQueueSize : Nat := 64

def mqOverload : Nat := 1024

structure MessageQueue where
  ring : RingBuffer SkynetMessage
  release : Bool
  inGlobal : Bool
  overload : Nat
  overloadThreshold : Nat

-- The flag is set, so that nobody puts it into the global queue before its service is there.
def skynetMqCreate : MessageQueue where
  ring := .empty defaultQueueSize
  release := false
  inGlobal := true
  overload := 0
  overloadThreshold := mqOverload

def skynetMqLength (q : MessageQueue) : Nat := q.ring.count

def skynetMqOverload (q : MessageQueue) : Nat × MessageQueue :=
  if q.overload ≠ 0 then (q.overload, { q with overload := 0 }) else (0, q)

-- The loop of `skynet_mq_pop`. The threshold is doubled, so `length` rounds are enough.
def raiseThreshold (length : Nat) (rounds : Nat) (q : MessageQueue) : MessageQueue :=
  match rounds with
  | 0 => q
  | rounds + 1 =>
    if length > q.overloadThreshold then
      raiseThreshold length rounds
        { q with overload := length, overloadThreshold := q.overloadThreshold * 2 }
    else
      q

def skynetMqPop (q : MessageQueue) : Option SkynetMessage × MessageQueue :=
  match q.ring.pop with
  | some (message, ring) =>
    let length := ring.count
    (some message, raiseThreshold length length { q with ring := ring })
  | none => (none, { q with overloadThreshold := mqOverload, inGlobal := false })

-- `expand_queue` doubles the ring. The flag tells to put the queue into the global one.
def skynetMqPush (q : MessageQueue) (message : SkynetMessage) : Bool × MessageQueue :=
  let q := { q with ring := q.ring.push q.ring.cap message }
  if q.inGlobal then (false, q) else (true, { q with inGlobal := true })

-- `none` is the assertion that it is marked once. The flag is left as it is.
def skynetMqMarkRelease (q : MessageQueue) : Option (Bool × MessageQueue) :=
  if q.release then none else some (!q.inGlobal, { q with release := true })

theorem raiseThreshold_frame (length rounds : Nat) (q : MessageQueue)
    : (raiseThreshold length rounds q).ring = q.ring
        ∧ (raiseThreshold length rounds q).release = q.release
        ∧ (raiseThreshold length rounds q).inGlobal = q.inGlobal := by
  induction rounds generalizing q with
  | zero => exact ⟨rfl, rfl, rfl⟩
  | succ rounds ih =>
    rw [raiseThreshold]
    split
    . exact ih _
    . exact ⟨rfl, rfl, rfl⟩

theorem le_raiseThreshold {length rounds : Nat} {q : MessageQueue} (hpos : 0 < q.overloadThreshold)
    (hrounds : length ≤ q.overloadThreshold + rounds)
    : length ≤ (raiseThreshold length rounds q).overloadThreshold := by
  induction rounds generalizing q with
  | zero => exact hrounds
  | succ rounds ih =>
    rw [raiseThreshold]
    split
    . apply ih
      . dsimp only
        omega
      . dsimp only
        omega
    . next hle => exact Nat.le_of_not_lt hle

def MessageQueue.messages (q : MessageQueue) : List SkynetMessage := q.ring.toList

theorem wf_skynetMqCreate : skynetMqCreate.ring.WF := RingBuffer.wf_empty (by decide)

@[simp]
theorem messages_skynetMqCreate : skynetMqCreate.messages = [] := RingBuffer.toList_empty _

section

variable {q q' : MessageQueue} {message : SkynetMessage}

theorem skynetMqPush_spec (h : q.ring.WF) (message : SkynetMessage)
    : (skynetMqPush q message).1 = !q.inGlobal
        ∧ (skynetMqPush q message).2.ring.WF
        ∧ (skynetMqPush q message).2.messages = q.messages ++ [message]
        ∧ (skynetMqPush q message).2.inGlobal = true
        ∧ (skynetMqPush q message).2.release = q.release := by
  obtain ⟨hwf, hlist⟩ := RingBuffer.push_spec h (Nat.zero_lt_of_lt h.head) message
  unfold skynetMqPush
  cases hglobal : q.inGlobal with
  | true => exact ⟨rfl, hwf, hlist, rfl, rfl⟩
  | false => exact ⟨rfl, hwf, hlist, rfl, rfl⟩

theorem skynetMqPop_some (h : q.ring.WF) (hpop : skynetMqPop q = (some message, q'))
    : q'.ring.WF ∧ q.messages = message :: q'.messages ∧ q'.inGlobal = q.inGlobal
        ∧ q'.release = q.release := by
  cases hlist : q.ring.toList with
  | nil => simp [skynetMqPop, RingBuffer.pop_eq_none h hlist] at hpop
  | cons a as =>
    obtain ⟨ring, hring, hwf, hrest⟩ := RingBuffer.pop_spec h hlist
    rw [skynetMqPop, hring, Prod.mk.injEq, Option.some.injEq] at hpop
    obtain ⟨rfl, rfl⟩ := hpop
    obtain ⟨hsame, hrelease, hglobal⟩ := raiseThreshold_frame ring.count ring.count
      { q with ring := ring }
    refine ⟨?_, ?_, hglobal, hrelease⟩
    . rwa [hsame]
    . rw [MessageQueue.messages, MessageQueue.messages, hlist, hsame, hrest]

theorem skynetMqPop_none (h : q.ring.WF) (hpop : skynetMqPop q = (none, q'))
    : q.messages = [] ∧ q'.messages = [] ∧ q'.ring.WF ∧ q'.inGlobal = false
        ∧ q'.release = q.release := by
  cases hlist : q.ring.toList with
  | nil =>
    rw [skynetMqPop, RingBuffer.pop_eq_none h hlist, Prod.mk.injEq] at hpop
    rw [← hpop.2]
    exact ⟨hlist, hlist, h, rfl, rfl⟩
  | cons a as =>
    obtain ⟨ring, hring, -, -⟩ := RingBuffer.pop_spec h hlist
    simp [skynetMqPop, hring] at hpop

end

end SkynetMq
