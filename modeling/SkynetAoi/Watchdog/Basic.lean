import Mathlib.Data.List.AList
import SkynetAoi.Lib.Pairs
import SkynetAoi.Watchdog.Crypt

/-!
This module contains the service `watchdog.lua`. A handler runs until it waits for the answer to a
call, what is left of it is a thread, and the threads go on in any order. `cmsgpack.unpack` and
whether `cjson.encode` raises are parameters, and so is the order in which `pairs` walks a table.
-/

namespace Watchdog

/--
The values a client can send. A number is the text that stands for it where a string is expected, and
only the fields of a table that have a name are ever read.
-/
inductive Value where
  | nil
  | boolean (b : Bool)
  | number (text : Bytes)
  | string (s : Bytes)
  | table (field : List Char → Value)

namespace Value

-- A string takes its fields from the `string` library, which has none of those asked for here.
def index (v : Value) (key : List Char) : Option Value :=
  match v with
  | .table field => some (field key)
  | .string _ => some .nil
  | _ => none

def truthy (v : Value) : Bool :=
  match v with
  | .nil => false
  | .boolean b => b
  | _ => true

def checkstring (v : Value) : Option Bytes :=
  match v with
  | .number text => some text
  | .string s => some s
  | _ => none

end Value

structure Config where
  name : Bytes
  unpack : Bytes → Option Value
  encodes : Value → Bool

structure Session where
  userid : Bytes
  subid : Value

structure UserSecret where
  secret : Bytes
  subid : Nat
  deriving DecidableEq, Repr

inductive Msg (Fd : Type) where
  | accept (fd : Fd)
  | kick (fd : Fd)
  | logout (uid : Bytes) (lastSubid : Bytes)
  | newservice
  | start (agent : Nat) (client : Fd) (uid : Bytes)
  | disconnect (agent : Nat)
  deriving DecidableEq, Repr

/--
A handler that waits: in `skynet.newservice`, in the kick of `close_agent`, in the logout of
`CMD.kick`, or in a call with nothing to do after it.
-/
inductive Thread (Fd : Type) where
  | newservice (fd : Fd) (uid : Bytes)
  | closing (agent : Nat)
  | kick (uid : Bytes)
  | last
  deriving DecidableEq, Repr

structure State (Fd : Type) where
  userSecret : Bytes → Option UserSecret
  sessionMap : AList (fun _ : Fd => Session)
  agent : Fd → Option Nat
  subid : Nat
  launched : Nat
  threads : List (Thread Fd)
  sent : List (Msg Fd)

namespace State

variable {Fd : Type}

def init : State Fd where
  userSecret := fun _ => none
  sessionMap := ∅
  agent := fun _ => none
  subid := 0
  launched := 0
  threads := []
  sent := []

def send (s : State Fd) (msg : Msg Fd) : State Fd :=
  { s with sent := s.sent ++ [msg] }

def call (s : State Fd) (msg : Msg Fd) (rest : Thread Fd) : State Fd :=
  { s.send msg with threads := s.threads ++ [rest] }

end State

variable {Fd : Type} [DecidableEq Fd]

def getFdByUserid (order : PairsOrder Fd) (s : State Fd) (userid : Bytes) : Option Fd :=
  (order.arrange s.sessionMap.keys).find? fun k =>
    (s.sessionMap.lookup k).any fun v => v.userid = userid

def closeAgent (fd : Fd) (s : State Fd) : State Fd :=
  let a := s.agent fd
  let s :=
    { s with
      sessionMap := s.sessionMap.erase fd
      agent := Function.update s.agent fd none
    }
  match a with
  | some a => s.call (.kick fd) (.closing a)
  | none => s

def socketOpen (fd : Fd) (s : State Fd) : State Fd :=
  s.call (.accept fd) .last

def sign (config : Config) (id subid : Value) (secret : Bytes) : Option Bytes := do
  let id ← id.checkstring
  let subid ← subid.checkstring
  let handshake :=
    Crypt.base64encode id ++ ['@'.toUInt8] ++ Crypt.base64encode config.name ++ ['#'.toUInt8]
      ++ Crypt.base64encode subid
  let hmac ← Crypt.hmac64 (Crypt.hashkey handshake) secret
  return Crypt.base64encode hmac

def State.secretInfo (s : State Fd) (id : Value) : Option UserSecret :=
  match id with
  | .string uid => s.userSecret uid
  | _ => none

inductive Verdict where
  | raise
  | kick
  | login (uid : Bytes) (subid : Value)

namespace Verdict

def keyData : List Char := ['d', 'a', 't', 'a']

def keyId : List Char := ['i', 'd']

def keySubid : List Char := ['s', 'u', 'b', 'i', 'd']

def keyToken : List Char := ['t', 'o', 'k', 'e', 'n']

def ofToken (config : Config) (s : State Fd) (id subid token : Value) : Verdict :=
  match id, s.secretInfo id with
  | .string uid, some secretInfo =>
    match sign config id subid secretInfo.secret, token with
    | none, _ => .raise
    | some expected, .string token => if expected = token then .login uid subid else .kick
    | some _, _ => .kick
  | _, _ => .raise

def ofData (config : Config) (s : State Fd) (data : Value) : Verdict :=
  if config.encodes data then
    match data.index keyId, data.index keySubid, data.index keyToken with
    | some id, some subid, some token =>
      if id.truthy && subid.truthy && token.truthy then ofToken config s id subid token else .kick
    | _, _, _ => .raise
  else
    .raise

def ofMsg (config : Config) (s : State Fd) (msg : Bytes) : Verdict :=
  match config.unpack msg with
  | none => .kick
  | some cmd =>
    match cmd.index keyData with
    | none => .raise
    | some data => ofData config s data

end Verdict

def socketData (config : Config) (fd : Fd) (msg : Bytes) (s : State Fd) : State Fd :=
  match Verdict.ofMsg config s msg with
  | .raise => s
  | .kick => s.call (.kick fd) .last
  | .login uid subid =>
    let s := { s with sessionMap := s.sessionMap.insert fd ⟨uid, subid⟩ }
    s.call .newservice (.newservice fd uid)

def login (uid secret : Bytes) (s : State Fd) : State Fd :=
  let subid := s.subid + 1
  { s with subid := subid, userSecret := Function.update s.userSecret uid (some ⟨secret, subid⟩) }

def kick (uid lastSubid : Bytes) (s : State Fd) : State Fd :=
  s.call (.logout uid lastSubid) (.kick uid)

/--
The answer to a call. A launcher whose new service exits at once answers without a value.
-/
inductive Reply where
  | value
  | empty
  | error
  deriving DecidableEq, Repr

def Thread.resume (reply : Reply) (order : PairsOrder Fd) (s : State Fd) (thread : Thread Fd)
    : State Fd :=
  match thread, reply with
  | .newservice fd uid, .value =>
    let a := s.launched
    let s := { s with launched := a + 1, agent := Function.update s.agent fd (some a) }
    s.call (.start a fd uid) .last
  | .newservice fd _, .empty => { s with agent := Function.update s.agent fd none }
  | .closing _, .error => s
  | .closing a, _ => s.send (.disconnect a)
  | .kick uid, _ =>
    let s := { s with userSecret := Function.update s.userSecret uid none }
    match getFdByUserid order s uid with
    | some fd => closeAgent fd s
    | none => s
  | _, _ => s

def resume (n : Nat) (reply : Reply) (order : PairsOrder Fd) (s : State Fd) : State Fd :=
  match s.threads[n]? with
  | none => s
  | some thread => thread.resume reply order { s with threads := s.threads.eraseIdx n }

/--
The requests that reach the watchdog, a closed socket and one with an error make the same of it as
`CMD.close`. `resume` is the answer to the call of the `n`th thread.
-/
inductive Action (Fd : Type) where
  | login (uid secret : Bytes)
  | kick (uid lastSubid : Bytes)
  | close (fd : Fd)
  | socketOpen (fd : Fd)
  | socketData (fd : Fd) (msg : Bytes)
  | socketClose (fd : Fd)
  | socketError (fd : Fd)
  | resume (n : Nat) (reply : Reply) (order : PairsOrder Fd)

def step (config : Config) (s : State Fd) (action : Action Fd) : State Fd :=
  match action with
  | .login uid secret => login uid secret s
  | .kick uid lastSubid => kick uid lastSubid s
  | .close fd => closeAgent fd s
  | .socketOpen fd => socketOpen fd s
  | .socketData fd msg => socketData config fd msg s
  | .socketClose fd => closeAgent fd s
  | .socketError fd => closeAgent fd s
  | .resume n reply order => resume n reply order s

def after (config : Config) (actions : List (Action Fd)) : State Fd :=
  actions.foldl (step config) .init

end Watchdog
