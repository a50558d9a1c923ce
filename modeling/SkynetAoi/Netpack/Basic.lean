import SkynetAoi.Lib.Framing
import SkynetAoi.Lib.RingBuffer

/-!
This module contains `lua-netpack.c`, which cuts what comes from the sockets into packets. A buffer
and its size are the list of its bytes.
-/

namespace Netpack

def queuesize : Nat := 1024

def hashsize : Nat := 4096

structure Pack where
  id : UInt32
  buffer : Bytes
  deriving DecidableEq, Inhabited, Repr

/--
The record of an incomplete packet: either the first byte of its size was read, or the size, and then
`buffer` is what was read of `size` bytes.
-/
inductive Uncomplete where
  | header (id : UInt32) (header : UInt8)
  | body (id : UInt32) (size : Nat) (buffer : Bytes)
  deriving DecidableEq, Repr

def Uncomplete.id (uc : Uncomplete) : UInt32 :=
  match uc with
  | .header id _ => id
  | .body id _ _ => id

structure Queue where
  ring : RingBuffer Pack
  hash : Nat → List Uncomplete

def hashFd (fd : UInt32) : Nat :=
  let a := fd >>> 24
  let b := fd >>> 12
  let c := fd
  (a + b + c).toNat % hashsize

def findUncomplete (q : Option Queue) (fd : UInt32) : Option (Uncomplete × Queue) :=
  match q with
  | none => none
  | some q =>
    let h := hashFd fd
    match (q.hash h).find? (·.id = fd) with
    | none => none
    | some uc =>
      some (uc, { q with hash := Function.update q.hash h ((q.hash h).eraseP (·.id = fd)) })

def getQueue (q : Option Queue) : Queue :=
  match q with
  | some q => q
  | none => { ring := .empty queuesize, hash := fun _ => [] }

def pushData (fd : UInt32) (buffer : Bytes) (q : Queue) : Queue :=
  { q with ring := q.ring.push queuesize ⟨fd, buffer⟩ }

def saveUncomplete (uc : Uncomplete) (q : Queue) : Queue :=
  let h := hashFd uc.id
  { q with hash := Function.update q.hash h (uc :: q.hash h) }

def readSize (hi lo : UInt8) : Nat :=
  hi.toNat <<< 8 ||| lo.toNat

-- It is never called without bytes.
def pushMore (fd : UInt32) (buffer : Bytes) (q : Queue) : Queue :=
  match buffer with
  | [] => q
  | [byte] => saveUncomplete (.header fd byte) q
  | hi :: lo :: buffer =>
    let packSize := readSize hi lo
    if buffer.length < packSize then
      saveUncomplete (.body fd packSize buffer) q
    else
      let q := pushData fd (buffer.take packSize) q
      let rest := buffer.drop packSize
      if rest.length > 0 then pushMore fd rest q else q
termination_by buffer.length
decreasing_by
  simp only [List.length_drop, List.length_cons]
  omega

inductive Result where
  | nothing
  | data (fd : UInt32) (buffer : Bytes)
  | more
  deriving DecidableEq, Repr

def fillUncomplete (fd : UInt32) (size : Nat) (read buffer : Bytes) (q : Queue) : Result × Queue :=
  let need := size - read.length
  if buffer.length < need then
    (.nothing, saveUncomplete (.body fd size (read ++ buffer)) q)
  else
    let packet := read ++ buffer.take need
    let rest := buffer.drop need
    if rest.length = 0 then
      (.data fd packet, q)
    else
      (.more, pushMore fd rest (pushData fd packet q))

def firstData (fd : UInt32) (buffer : Bytes) (q : Option Queue) : Result × Option Queue :=
  match buffer with
  | [] => (.nothing, q)
  | [byte] => (.nothing, some (saveUncomplete (.header fd byte) (getQueue q)))
  | hi :: lo :: buffer =>
    let packSize := readSize hi lo
    if buffer.length < packSize then
      (.nothing, some (saveUncomplete (.body fd packSize buffer) (getQueue q)))
    else if buffer.length = packSize then
      (.data fd buffer, q)
    else
      let q := pushData fd (buffer.take packSize) (getQueue q)
      (.more, some (pushMore fd (buffer.drop packSize) q))

-- A socket never hands over an empty buffer.
def filterData (fd : UInt32) (buffer : Bytes) (q : Option Queue) : Result × Option Queue :=
  match findUncomplete q fd, buffer with
  | none, buffer => firstData fd buffer q
  | some _, [] => (.nothing, q)
  | some (.header _ header, q), byte :: buffer =>
    let packSize := byte.toNat ||| header.toNat <<< 8
    let (result, q) := fillUncomplete fd packSize [] buffer q
    (result, some q)
  | some (.body _ size read, q), buffer =>
    let (result, q) := fillUncomplete fd size read buffer q
    (result, some q)

structure Gate where
  queue : Option Queue
  received : List Pack

-- One message of a socket, after `more` the queue is popped until it is empty.
def Gate.feed (g : Gate) (fd : UInt32) (buffer : Bytes) : Gate :=
  match filterData fd buffer g.queue with
  | (.nothing, q) => { g with queue := q }
  | (.data fd buffer, q) => { queue := q, received := g.received ++ [⟨fd, buffer⟩] }
  | (.more, q) =>
    let q := getQueue q
    let (packs, ring) := RingBuffer.popAll q.ring.count q.ring
    { queue := some { q with ring := ring }, received := g.received ++ packs }

def after (chunks : List (UInt32 × Bytes)) : Gate :=
  chunks.foldl (fun g chunk => g.feed chunk.1 chunk.2) ⟨none, []⟩

end Netpack
