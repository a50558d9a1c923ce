import SkynetAoi.Crypt.Dh
import SkynetAoi.Lib.Lines
import SkynetAoi.Logind.Token

/-!
This module contains the handshake of a login: `auth` of `loginserver.lua` on the one side and
`client.lua` on the other, with a stream of bytes in each direction that comes in in pieces of any size.
-/

namespace Logind

def newline : UInt8 := '\n'.toUInt8

def writeline (text : Bytes) : Bytes := Crypt.base64encode text ++ [newline]

-- The call that raises, `socket` is `assert_socket`.
inductive AuthError where
  | base64decode
  | clientkey
  | dhexchange
  | dhsecret
  | hmac64
  | challenge
  | desdecode (e : Option Crypt.DesError)
  | socket

/--
What the coroutine of a slave waits for, also when it has asked to close the socket, or how it has
ended: with the user that `auth_handler` lets in or with its error, or with an error of its own.
-/
inductive Slave where
  | handshake (challenge : Bytes)
  | response (challenge secret : Bytes)
  | etoken (secret : Bytes)
  | returned (user : Option (Bytes × Bytes)) (secret : Bytes)
  | raised (e : AuthError)
  | closed

-- The call that raises, `recv` also when it says that the server has closed.
inductive ClientError where
  | base64decode
  | dhexchange
  | dhsecret
  | hmac64
  | desencode (e : Crypt.DesError)
  | recv

inductive Client where
  | challenge
  | exchange (challenge : Bytes)
  | result (secret : Bytes)
  | finished (secret line : Bytes)
  | raised (e : ClientError)

structure Login.Config where
  token : Token
  checkuser : Bytes → Bytes → Bytes → Bool
  challenge : Crypt.Random8
  serverkey : Crypt.Random8
  clientkey : Crypt.Random8

namespace Slave

variable (c : Login.Config)

def readHandshake (text line : Bytes) : Slave × Bytes :=
  match Crypt.base64decode line with
  | none => (.raised .base64decode, [])
  | some clientkey =>
    if clientkey.length ≠ 8 then
      (.raised .clientkey, [])
    else
      match Crypt.dhexchange (Crypt.randomkey c.serverkey) with
      | none => (.raised .dhexchange, [])
      | some e =>
        match Crypt.dhsecret clientkey (Crypt.randomkey c.serverkey) with
        | none => (.raised .dhsecret, writeline e)
        | some secret => (.response text secret, writeline e)

def readResponse (text secret line : Bytes) : Slave :=
  match Crypt.hmac64 text secret with
  | none => .raised .hmac64
  | some hmac =>
    match Crypt.base64decode line with
    | none => .raised .base64decode
    | some r => if hmac ≠ r then .raised .challenge else .etoken secret

def readEtoken (secret line : Bytes) : Slave :=
  match Crypt.base64decode line with
  | none => .raised .base64decode
  | some cipher =>
    match Crypt.desdecode secret cipher Crypt.paddingModeIso78164.toInt64 with
    | none => .raised (.desdecode none)
    | some (.error e) => .raised (.desdecode (some e))
    | some (.ok token) => .returned (authHandler c.checkuser token) secret

def next (s : Slave) : Option (Bytes → Slave × Bytes) :=
  match s with
  | .handshake text => some (readHandshake c text)
  | .response text secret => some fun line => (readResponse text secret line, [])
  | .etoken secret => some fun line => (readEtoken c secret line, [])
  | .returned _ _ => none
  | .raised _ => none
  | .closed => none

def abandoned (s : Slave) : Bool :=
  match s with
  | .returned _ _ => true
  | .raised _ => true
  | _ => false

end Slave

namespace Client

variable (c : Login.Config)

def readChallenge (line : Bytes) : Client × Bytes :=
  match Crypt.base64decode line with
  | none => (.raised .base64decode, [])
  | some text =>
    match Crypt.dhexchange (Crypt.randomkey c.clientkey) with
    | none => (.raised .dhexchange, [])
    | some e => (.exchange text, writeline e)

def readExchange (text line : Bytes) : Client × Bytes :=
  match Crypt.base64decode line with
  | none => (.raised .base64decode, [])
  | some e =>
    match Crypt.dhsecret e (Crypt.randomkey c.clientkey) with
    | none => (.raised .dhsecret, [])
    | some secret =>
      match Crypt.hmac64 text secret with
      | none => (.raised .hmac64, [])
      | some hmac =>
        match Crypt.desencode secret (encodeToken c.token) Crypt.paddingModeIso78164.toInt64 with
        | .error e => (.raised (.desencode e), writeline hmac)
        | .ok cipher => (.result secret, writeline hmac ++ writeline cipher)

def next (s : Client) : Option (Bytes → Client × Bytes) :=
  match s with
  | .challenge => some (readChallenge c)
  | .exchange text => some (readExchange c text)
  | .result secret => some fun line => (.finished secret line, [])
  | .finished _ _ => none
  | .raised _ => none

end Client

/--
Both sides, each with what it has received but not read, and with what the other has written but it has
not received. `size` is what the socket server reads at most in one go, `closed` that it has closed the
socket.
-/
structure Connection where
  slave : Slave
  buffer : Bytes
  toSlave : Bytes
  client : Client
  last : Bytes
  toClient : Bytes
  size : Nat
  closed : Bool

namespace Connection

def limit : Nat := 8192

def minReadBuffer : Nat := 64

def cacheSize : Nat := 0x1000

def init (c : Login.Config) : Connection where
  slave := .handshake (Crypt.randomkey c.challenge)
  buffer := []
  toSlave := []
  client := .challenge
  last := []
  toClient := writeline (Crypt.randomkey c.challenge)
  size := minReadBuffer
  closed := false

-- A message with the next `n` bytes, or with what there is. An abandoned socket drops it.
def arrive (c : Login.Config) (n : Nat) (w : Connection) : Connection :=
  let piece := w.toSlave.take n
  let toSlave := w.toSlave.drop n
  if piece = [] ∨ w.slave.abandoned then
    { w with toSlave := toSlave }
  else
    let buffer := w.buffer ++ piece
    if buffer.length > limit then
      { w with slave := .closed, buffer := buffer, toSlave := toSlave }
    else
      let (slave, buffer, out) := Lines.feed [newline] (Slave.next c) w.slave buffer
      { w with slave := slave, buffer := buffer, toSlave := toSlave, toClient := w.toClient ++ out }

def nextSize (size n : Nat) : Nat :=
  if n = size then size * 2 else if size > minReadBuffer ∧ n * 2 < size then size / 2 else size

-- `forward_message_tcp` when the next `n` bytes have come.
def forward (c : Login.Config) (n : Nat) (w : Connection) : Connection :=
  let piece := w.toSlave.take (min n w.size)
  if piece = [] ∨ w.closed then
    w
  else
    { arrive c (min n w.size) w with size := nextSize w.size piece.length }

def recv (c : Login.Config) (n : Nat) (w : Connection) : Connection :=
  if w.toClient = [] ∧ w.closed ∧ (w.client.next c).isSome then
    { w with client := .raised .recv }
  else
    let n := min n cacheSize
    let (client, last, out) :=
      Lines.feed [newline] (Client.next c) w.client (w.last ++ w.toClient.take n)
    { w with
      client := client
      last := last
      toClient := w.toClient.drop n
      toSlave := w.toSlave ++ out
    }

-- The socket server does what the slave has asked for, and nobody reads what is on its way.
def close (w : Connection) : Connection :=
  match w.slave with
  | .closed => { w with toSlave := [], closed := true }
  | _ => w

-- `socket_message[3]`, after which `readline` gives the slave nothing.
def closeMessage (w : Connection) : Connection :=
  if w.closed ∧ ¬ w.slave.abandoned then { w with slave := .raised .socket } else w

inductive Event where
  | forward (n : Nat)
  | recv (n : Nat)
  | close
  | closeMessage

def step (c : Login.Config) (w : Connection) (event : Event) : Connection :=
  match event with
  | .forward n => forward c n w
  | .recv n => recv c n w
  | .close => close w
  | .closeMessage => closeMessage w

def after (c : Login.Config) (events : List Event) : Connection := events.foldl (step c) (init c)

end Connection

end Logind
