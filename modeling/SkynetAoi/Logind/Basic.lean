import SkynetAoi.Watchdog.Basic

/-!
This module contains the login service: `accept` of `loginserver.lua` and the handlers of
`logind.lua`, with any number of watchdogs. A `login_handler` is suspended in a call of `kick` or of
`login`. The watchdog that it kicks calls `logout` of the login service before it answers.
-/

namespace Logind

structure Online (W : Type) where
  address : W
  subid : Bytes
  server : Bytes

/--
Where a `login_handler` waits: the call of `kick` is on its way to the watchdog, the watchdog waits in
`logout`, it has the answer to that on the way, `kick` has an answer on the way, the call of `login`
is on its way, and so is its answer.
-/
inductive Stage (W : Type) where
  | kick (address : W) (subid : Bytes)
  | logout (address : W)
  | loggedOut (address : W)
  | kicked
  | login
  | loggedIn (subid : Bytes)

structure Handler (W : Type) where
  server : Bytes
  uid : Bytes
  secret : Bytes
  gameserver : W
  stage : Stage W

structure Login (W : Type) where
  address : W
  subid : Bytes
  secret : Bytes

-- The last field is kept for the specification only: the login of a user that was the last to return.
structure State (W Fd : Type) where
  serverList : Bytes → Option W
  userOnline : Bytes → Option (Online W)
  userLogin : Bytes → Bool
  handlers : List (Handler W)
  watchdogs : W → Watchdog.State Fd
  returned : Bytes → Option (Login W)

variable {W Fd : Type}

def tostring (n : Nat) : Bytes :=
  (Nat.toDigits 10 n).map Char.toUInt8

namespace State

def init : State W Fd where
  serverList := fun _ => none
  userOnline := fun _ => none
  userLogin := fun _ => false
  handlers := []
  watchdogs := fun _ => .init
  returned := fun _ => none

def advance (s : State W Fd) (n : Nat) (handler : Handler W) (stage : Stage W) : State W Fd :=
  { s with handlers := s.handlers.set n { handler with stage := stage } }

def finish (s : State W Fd) (n : Nat) (handler : Handler W) : State W Fd :=
  { s with
    handlers := s.handlers.eraseIdx n
    userLogin := Function.update s.userLogin handler.uid false
  }

end State

def registerGate (server : Bytes) (address : W) (s : State W Fd) : State W Fd :=
  { s with serverList := Function.update s.serverList server (some address) }

def logout (uid : Bytes) (s : State W Fd) : State W Fd :=
  match s.userOnline uid with
  | some _ => { s with userOnline := Function.update s.userOnline uid none }
  | none => s

def accept (server uid secret : Bytes) (s : State W Fd) : State W Fd :=
  if s.userLogin uid then
    s
  else
    match s.serverList server with
    | none => s
    | some gameserver =>
      let stage :=
        match s.userOnline uid with
        | some last => .kick last.address last.subid
        | none => .login
      { s with
        userLogin := Function.update s.userLogin uid true
        handlers := s.handlers ++ [⟨server, uid, secret, gameserver, stage⟩]
      }

def kicked (n : Nat) (handler : Handler W) (ok : Bool) (s : State W Fd) : State W Fd :=
  if ok && (s.userOnline handler.uid).isNone then
    s.advance n handler .login
  else
    s.finish n handler

def loggedIn (n : Nat) (handler : Handler W) (subid : Bytes) (s : State W Fd) : State W Fd :=
  let s :=
    { s with
      userOnline := Function.update s.userOnline handler.uid
        (some ⟨handler.gameserver, subid, handler.server⟩)
      returned := Function.update s.returned handler.uid
        (some ⟨handler.gameserver, subid, handler.secret⟩)
    }
  s.finish n handler

variable [DecidableEq W] [DecidableEq Fd]

def watch (config : W → Watchdog.Config) (w : W) (action : Watchdog.Action Fd) (s : State W Fd)
    : State W Fd :=
  { s with
    watchdogs := Function.update s.watchdogs w (Watchdog.step (config w) (s.watchdogs w) action)
  }

-- What the watchdog does by itself: it is not asked to, and it does not have the answer to a `logout`.
def free (s : Watchdog.State Fd) (action : Watchdog.Action Fd) : Bool :=
  match action with
  | .login _ _ => false
  | .kick _ _ => false
  | .resume n _ _ =>
    match s.threads[n]? with
    | some (.kick _) => false
    | _ => true
  | _ => true

/--
What a handler waits for comes about: `m` is the thread of the watchdog that gets the answer to its
`logout`, and `ok` says whether `kick` has raised.
-/
inductive Event (Fd : Type) where
  | kick
  | logout
  | loggedOut (m : Nat) (reply : Watchdog.Reply) (order : PairsOrder Fd)
  | kicked (ok : Bool)
  | login
  | loggedIn

def proceed (config : W → Watchdog.Config) (n : Nat) (handler : Handler W) (event : Event Fd)
    (s : State W Fd) : State W Fd :=
  match handler.stage, event with
  | .kick address subid, .kick =>
    (watch config address (.kick handler.uid subid) s).advance n handler (.logout address)
  | .logout address, .logout => (logout handler.uid s).advance n handler (.loggedOut address)
  | .loggedOut address, .loggedOut m reply order =>
    -- The watchdog has its agent to close yet, the answer to `kick` is let come at any time from here.
    if (s.watchdogs address).threads[m]? = some (.kick handler.uid) then
      (watch config address (.resume m reply order) s).advance n handler .kicked
    else
      s
  | .kicked, .kicked ok => kicked n handler ok s
  | .login, .login =>
    let s := watch config handler.gameserver (.login handler.uid handler.secret) s
    s.advance n handler (.loggedIn (tostring (s.watchdogs handler.gameserver).subid))
  | .loggedIn subid, .loggedIn => loggedIn n handler subid s
  | _, _ => s

inductive Action (W Fd : Type) where
  | registerGate (server : Bytes) (address : W)
  | accept (server uid secret : Bytes)
  | proceed (n : Nat) (event : Event Fd)
  | watchdog (w : W) (action : Watchdog.Action Fd)

def step (config : W → Watchdog.Config) (s : State W Fd) (action : Action W Fd) : State W Fd :=
  match action with
  | .registerGate server address => registerGate server address s
  | .accept server uid secret => accept server uid secret s
  | .proceed n event =>
    match s.handlers[n]? with
    | some handler => proceed config n handler event s
    | none => s
  | .watchdog w action => if free (s.watchdogs w) action then watch config w action s else s

def after (config : W → Watchdog.Config) (actions : List (Action W Fd)) : State W Fd :=
  actions.foldl (step config) .init

end Logind
