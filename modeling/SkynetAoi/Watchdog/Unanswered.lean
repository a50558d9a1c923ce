import SkynetAoi.Watchdog.Orphan

/-!
This module contains what becomes of a packet from a client without a session. `SOCKET.data` kicks
the client where it looks for an error, but the calls in between raise errors of their own, and the
session that it sets can be taken away again before it ends.
-/

namespace Watchdog

open Verdict

variable {Fd : Type}

def Verified (config : Config) (s : State Fd) (msg uid : Bytes) (subid : Value) : Prop :=
  ∃ cmd data token info, config.unpack msg = some cmd ∧ cmd.index keyData = some data
    ∧ data.index keyId = some (.string uid) ∧ data.index keySubid = some subid
    ∧ data.index keyToken = some (.string token) ∧ s.userSecret uid = some info
    ∧ sign config (.string uid) subid info.secret = some token

/--
Nothing raises: the fields can be read and logged, and if none of them is missing there is a secret
of the user that a token can be made of.
-/
def Checkable (config : Config) (s : State Fd) (msg : Bytes) : Prop :=
  ∀ cmd, config.unpack msg = some cmd →
    ∃ data id subid token, cmd.index keyData = some data ∧ config.encodes data = true
      ∧ data.index keyId = some id ∧ data.index keySubid = some subid
      ∧ data.index keyToken = some token
      ∧ (id.truthy = true ∧ subid.truthy = true ∧ token.truthy = true →
        ∃ uid info text, id = .string uid ∧ s.userSecret uid = some info ∧ info.secret.length = 8
          ∧ subid.checkstring = some text)

theorem sign_isSome (config : Config) (uid : Bytes) (subid : Value) (secret : Bytes)
    : (sign config (.string uid) subid secret).isSome
        = (subid.checkstring.isSome && secret.length == 8) := by
  unfold sign
  cases hsubid : subid.checkstring with
  | none => rfl
  | some text =>
    have hhmac := Crypt.hmac64_hashkey_isSome
      (Crypt.base64encode uid ++ ['@'.toUInt8] ++ Crypt.base64encode config.name ++ ['#'.toUInt8]
        ++ Crypt.base64encode text) secret
    simp only [Value.checkstring, Option.bind_eq_bind, Option.bind_some, Option.isSome_some,
      Bool.true_and]
    rw [← hhmac]
    generalize Crypt.hmac64 _ secret = hmac
    cases hmac with
    | none => rfl
    | some hmac => rfl

theorem ofToken_ne_raise_iff (config : Config) (s : State Fd) (id subid token : Value)
    : ofToken config s id subid token ≠ .raise
        ↔ ∃ uid info text, id = .string uid ∧ s.userSecret uid = some info
          ∧ info.secret.length = 8 ∧ subid.checkstring = some text := by
  unfold ofToken
  cases id with
  | string uid =>
    cases hsecret : s.userSecret uid with
    | none => simp [State.secretInfo, hsecret]
    | some info =>
      have hsign := sign_isSome config uid subid info.secret
      simp only [State.secretInfo, hsecret]
      cases hexpected : sign config (.string uid) subid info.secret with
      | none =>
        rw [hexpected] at hsign
        simp only [Option.isSome_none] at hsign
        constructor
        . intro h
          exact absurd rfl h
        . rintro ⟨uid', info', text, heq, hinfo, hlen, htext⟩
          cases heq
          rw [hsecret, Option.some.injEq] at hinfo
          subst hinfo
          simp [hlen, htext] at hsign
      | some expected =>
        rw [hexpected] at hsign
        simp only [Option.isSome_some] at hsign
        have hparts : subid.checkstring.isSome = true ∧ info.secret.length = 8 := by
          simpa using hsign.symm
        obtain ⟨text, htext⟩ := Option.isSome_iff_exists.mp hparts.1
        refine iff_of_true ?_ ⟨uid, info, text, rfl, hsecret, hparts.2, htext⟩
        cases token with
        | string token =>
          dsimp only
          split
          . simp
          . simp
        | _ => simp
  | _ => simp

theorem ofData_ne_raise_iff (config : Config) (s : State Fd) (data : Value)
    : ofData config s data ≠ .raise
        ↔ config.encodes data = true ∧ ∃ id subid token, data.index keyId = some id
          ∧ data.index keySubid = some subid ∧ data.index keyToken = some token
          ∧ (id.truthy = true ∧ subid.truthy = true ∧ token.truthy = true →
            ofToken config s id subid token ≠ .raise) := by
  unfold ofData
  cases hencodes : config.encodes data with
  | false => simp
  | true =>
    rw [if_pos rfl]
    cases hid : data.index keyId with
    | none => simp
    | some id =>
      cases hsubid : data.index keySubid with
      | none => simp
      | some subid =>
        cases htoken : data.index keyToken with
        | none => simp
        | some token =>
          by_cases hall : id.truthy = true ∧ subid.truthy = true ∧ token.truthy = true
          . simp [hall]
          . have hmissing : (id.truthy && subid.truthy && token.truthy) = false := by
              simpa [and_assoc] using hall
            refine iff_of_true ?_ ⟨rfl, id, subid, token, rfl, rfl, rfl, fun h => absurd h hall⟩
            simp [hmissing]

theorem ofMsg_ne_raise_iff (config : Config) (s : State Fd) (msg : Bytes)
    : ofMsg config s msg ≠ .raise ↔ Checkable config s msg := by
  unfold ofMsg Checkable
  cases hunpack : config.unpack msg with
  | none => simp
  | some cmd =>
    simp only [Option.some.injEq, forall_eq']
    cases hdata : cmd.index keyData with
    | none => simp
    | some data =>
      simp only [Option.some.injEq, ofData_ne_raise_iff, ofToken_ne_raise_iff, exists_and_left,
        exists_eq_left']

theorem verified_of_login {config : Config} {s : State Fd} {msg uid : Bytes} {subid : Value}
    (h : ofMsg config s msg = .login uid subid) : Verified config s msg uid subid := by
  unfold ofMsg at h
  split at h
  . cases h
  rename_i cmd hunpack
  split at h
  . cases h
  rename_i data hdata
  unfold ofData at h
  split at h
  case isFalse => cases h
  split at h
  case h_2 => cases h
  rename_i id subid token hid hsubid htoken
  split at h
  case isFalse => cases h
  unfold ofToken at h
  split at h
  case h_2 => cases h
  rename_i uid' info _ hinfo
  split at h
  . cases h
  . rename_i expected token hsign _
    split at h
    . rename_i heq
      cases h
      exact ⟨cmd, data, token, info, hunpack, hdata, hid, hsubid, htoken, hinfo, heq ▸ hsign⟩
    . cases h
  . cases h

def Accepts (config : Config) (s : State Fd) (msg uid : Bytes) (subid : Value) : Prop :=
  Checkable config s msg ∧ Verified config s msg uid subid

theorem accepts_iff {config : Config} {s : State Fd} {msg uid : Bytes} {subid : Value}
    : Accepts config s msg uid subid ↔ ofMsg config s msg = .login uid subid := by
  constructor
  . rintro ⟨hcheckable, cmd, data, token, info, hunpack, hdata, hid, hsubid, htoken, hinfo, hsign⟩
    obtain ⟨data', _, _, _, hdata', hencodes, -⟩ := hcheckable cmd hunpack
    rw [hdata, Option.some.injEq] at hdata'
    subst hdata'
    have hsome := sign_isSome config uid subid info.secret
    rw [hsign, Option.isSome_some, eq_comm, Bool.and_eq_true] at hsome
    have huid : (Value.string uid).truthy = true := rfl
    have htext : subid.truthy = true := by
      cases subid with
      | number text => rfl
      | string text => rfl
      | _ => simp [Value.checkstring] at hsome
    have hgiven : (Value.string token).truthy = true := rfl
    simp [ofMsg, hunpack, hdata, ofData, hencodes, hid, hsubid, htoken, huid, htext, hgiven, ofToken,
      State.secretInfo, hinfo, hsign]
  . intro h
    refine ⟨(ofMsg_ne_raise_iff config s msg).mp ?_, verified_of_login h⟩
    simp [h]

theorem rejects_iff {config : Config} {s : State Fd} {msg : Bytes}
    : Checkable config s msg ∧ (∀ uid subid, ¬Verified config s msg uid subid)
        ↔
      ofMsg config s msg = .kick := by
  rw [← ofMsg_ne_raise_iff]
  have hlogin : ∀ uid subid, ofMsg config s msg ≠ .raise →
      (Verified config s msg uid subid ↔ ofMsg config s msg = .login uid subid) := by
    intro uid subid hraise
    rw [← accepts_iff, Accepts, ← ofMsg_ne_raise_iff]
    simp [hraise]
  constructor
  . rintro ⟨hraise, hverified⟩
    cases hverdict : ofMsg config s msg with
    | raise => exact absurd hverdict hraise
    | kick => rfl
    | login uid subid => exact absurd ((hlogin uid subid hraise).mpr hverdict) (hverified uid subid)
  . intro hkick
    have hraise : ofMsg config s msg ≠ .raise := by simp [hkick]
    refine ⟨hraise, fun uid subid hverified => ?_⟩
    rw [hlogin uid subid hraise, hkick] at hverified
    cases hverified

section

variable [DecidableEq Fd]

def State.user (s : State Fd) (fd : Fd) : Option Bytes :=
  (s.sessionMap.lookup fd).map Session.userid

def Answered (config : Config) (fd : Fd) (msg : Bytes) (s s' : State Fd) : Prop :=
  (∃ uid subid, Verified config s msg uid subid ∧ s'.user fd = some uid)
    ∨ ∃ msgs, s'.sent = s.sent ++ msgs ∧ .kick fd ∈ msgs

def State.Kicks (config : Config) (fd : Fd) (s : State Fd) (action : Action Fd) : Prop :=
  (s.closes action = some fd ∧ (s.agent fd).isSome)
    ∨ ∃ msg, action = .socketData fd msg ∧ Checkable config s msg
        ∧ ∀ uid subid, ¬Verified config s msg uid subid

def State.Loses (config : Config) (fd : Fd) (uid : Bytes) (s : State Fd) (action : Action Fd)
    : Prop :=
  s.closes action = some fd
    ∨ ∃ msg uid' subid, action = .socketData fd msg ∧ Accepts config s msg uid' subid ∧ uid' ≠ uid

def State.Restores (config : Config) (fd : Fd) (uid : Bytes) (s : State Fd) (action : Action Fd)
    : Prop :=
  ∃ msg subid, action = .socketData fd msg ∧ Accepts config s msg uid subid

/--
What happens while `SOCKET.data` waits: either the client is kicked, or whatever takes its session
away is followed by another login of the same user.
-/
def Kept (config : Config) (fd : Fd) (uid : Bytes) (s : State Fd) (actions : List (Action Fd))
    : Prop :=
  (∃ past action rest, actions = past ++ action :: rest
      ∧ (past.foldl (step config) s).Kicks config fd action)
    ∨ Recovered (fun past => (past.foldl (step config) s).Loses config fd uid)
        (fun past => (past.foldl (step config) s).Restores config fd uid) actions

section

variable {config : Config} {fd : Fd} {s : State Fd}

theorem closeAgent_user (s : State Fd) (fd fd' : Fd)
    : (closeAgent fd' s).user fd = if fd' = fd then none else s.user fd := by
  have hlookup : (closeAgent fd' s).sessionMap = s.sessionMap.erase fd' := by
    unfold closeAgent
    dsimp only
    split
    . rfl
    . rfl
  unfold State.user
  rw [hlookup]
  split
  . rename_i heq
    rw [heq, AList.lookup_erase]
    rfl
  . rename_i hne
    rw [AList.lookup_erase_ne (Ne.symm hne)]

theorem closeAgent_sent (s : State Fd) (fd fd' : Fd)
    : ∃ msgs, (closeAgent fd' s).sent = s.sent ++ msgs
        ∧ (.kick fd ∈ msgs ↔ fd' = fd ∧ (s.agent fd).isSome) := by
  unfold closeAgent
  dsimp only
  split
  . rename_i a ha
    refine ⟨[.kick fd'], rfl, ?_⟩
    rw [List.mem_singleton, Msg.kick.injEq]
    constructor
    . rintro rfl
      exact ⟨rfl, by simp [ha]⟩
    . rintro ⟨rfl, -⟩
      rfl
  . rename_i ha
    refine ⟨[], by simp, ?_⟩
    simp only [List.not_mem_nil, false_iff, not_and]
    rintro rfl
    simp [ha]

theorem step_cases (config : Config) (s : State Fd) (action : Action Fd)
    : (∃ fd' s', s.closes action = some fd' ∧ step config s action = closeAgent fd' s'
        ∧ s'.sessionMap = s.sessionMap ∧ s'.agent = s.agent ∧ s'.sent = s.sent)
      ∨ (∃ fd' msg, action = .socketData fd' msg)
      ∨ (s.closes action = none ∧ (∀ fd' msg, action ≠ .socketData fd' msg)
        ∧ (step config s action).sessionMap = s.sessionMap
        ∧ ∃ msgs, (step config s action).sent = s.sent ++ msgs ∧ ∀ fd', .kick fd' ∉ msgs) := by
  cases action with
  | login uid secret => exact .inr (.inr ⟨rfl, by simp, rfl, [], by simp [step, login], by simp⟩)
  | kick uid lastSubid =>
    exact .inr (.inr ⟨rfl, by simp, rfl, [.logout uid lastSubid], rfl, by simp⟩)
  | close fd' => exact .inl ⟨fd', s, rfl, rfl, rfl, rfl, rfl⟩
  | socketOpen fd' => exact .inr (.inr ⟨rfl, by simp, rfl, [.accept fd'], rfl, by simp⟩)
  | socketData fd' msg => exact .inr (.inl ⟨fd', msg, rfl⟩)
  | socketClose fd' => exact .inl ⟨fd', s, rfl, rfl, rfl, rfl, rfl⟩
  | socketError fd' => exact .inl ⟨fd', s, rfl, rfl, rfl, rfl, rfl⟩
  | resume n reply order =>
    cases hthread : s.threads[n]? with
    | none =>
      refine .inr (.inr ⟨?_, by simp, ?_, [], ?_, by simp⟩)
      . simp [State.closes, hthread]
      . simp [step, resume, hthread]
      . simp [step, resume, hthread]
    | some thread =>
      cases thread with
      | newservice fd' uid =>
        refine .inr (.inr ⟨by simp [State.closes, hthread], by simp, ?_⟩)
        simp only [step, resume, hthread]
        cases reply with
        | value => exact ⟨rfl, [.start s.launched fd' uid], rfl, by simp⟩
        | empty => exact ⟨rfl, [], by simp [Thread.resume], by simp⟩
        | error => exact ⟨rfl, [], by simp [Thread.resume], by simp⟩
      | closing a =>
        refine .inr (.inr ⟨by simp [State.closes, hthread], by simp, ?_⟩)
        simp only [step, resume, hthread]
        cases reply with
        | value => exact ⟨rfl, [.disconnect a], rfl, by simp⟩
        | empty => exact ⟨rfl, [.disconnect a], rfl, by simp⟩
        | error => exact ⟨rfl, [], by simp [Thread.resume], by simp⟩
      | kick uid =>
        cases hfd : getFdByUserid order s uid with
        | none =>
          have hfd' := hfd
          unfold getFdByUserid at hfd'
          refine .inr (.inr ⟨by simp [State.closes, hthread, hfd], by simp, ?_⟩)
          simp only [step, resume, hthread, Thread.resume, getFdByUserid, hfd', true_and]
          exact ⟨[], by simp, by simp⟩
        | some fd' =>
          have hfd' := hfd
          unfold getFdByUserid at hfd'
          refine .inl ⟨fd', { s with
            threads := s.threads.eraseIdx n
            userSecret := Function.update s.userSecret uid none
          }, by simp [State.closes, hthread, hfd], ?_, rfl, rfl, rfl⟩
          simp only [step, resume, hthread, Thread.resume, getFdByUserid, hfd']
      | last =>
        refine .inr (.inr ⟨by simp [State.closes, hthread], by simp, ?_⟩)
        simp only [step, resume, hthread]
        exact ⟨rfl, [], by simp [Thread.resume], by simp⟩

theorem step_user (uid : Bytes) (s : State Fd) (action : Action Fd)
    : (step config s action).user fd = some uid
        ↔
      ¬s.Loses config fd uid action ∧ (s.Restores config fd uid action ∨ s.user fd = some uid) := by
  unfold State.Loses State.Restores
  rcases step_cases config s action with ⟨fd', s', hcloses, hstep, hsessions, -, -⟩
    | ⟨fd', msg, rfl⟩ | ⟨hcloses, hdata, hsessions, -⟩
  . have hdata : ∀ msg, action ≠ .socketData fd msg := by
      rintro msg rfl
      simp [State.closes] at hcloses
    rw [hstep, closeAgent_user, hcloses]
    have huser : s'.user fd = s.user fd := by
      unfold State.user
      rw [hsessions]
    by_cases hfd : fd' = fd
    . simp [hfd]
    . simp [hfd, hdata, huser]
  . have hcloses : s.closes (.socketData fd' msg) ≠ some fd := by simp [State.closes]
    simp only [accepts_iff, step, socketData, Action.socketData.injEq]
    by_cases hfd : fd' = fd
    . subst hfd
      cases hverdict : ofMsg config s msg with
      | raise => simp [hverdict, hcloses]
      | kick => simp [hverdict, hcloses, State.user]
      | login uid' subid =>
        by_cases huid : uid' = uid
        . simp [hverdict, hcloses, State.user, huid]
        . simp [hverdict, hcloses, State.user, huid]
    . have hother : (socketData config fd' msg s).user fd = s.user fd := by
        unfold socketData State.user
        split
        . rfl
        . rfl
        . rw [State.call_sessionMap, AList.lookup_insert_ne (Ne.symm hfd)]
      unfold socketData at hother
      rw [hother]
      simp [hfd, hcloses]
  . unfold State.user
    rw [hsessions]
    simp [hcloses, hdata]

theorem step_kicks (config : Config) (fd : Fd) (s : State Fd) (action : Action Fd)
    : ∃ msgs, (step config s action).sent = s.sent ++ msgs
        ∧ (.kick fd ∈ msgs ↔ s.Kicks config fd action) := by
  unfold State.Kicks
  rcases step_cases config s action with ⟨fd', s', hcloses, hstep, -, hagent, hsent⟩
    | ⟨fd', msg, rfl⟩ | ⟨hcloses, hdata, -, msgs, hsent, hkick⟩
  . have hdata : ∀ msg, action ≠ .socketData fd msg := by
      rintro msg rfl
      simp [State.closes] at hcloses
    obtain ⟨msgs, hmsgs, hkick⟩ := closeAgent_sent s' fd fd'
    refine ⟨msgs, by rw [hstep, hmsgs, hsent], ?_⟩
    rw [hkick, hagent, hcloses]
    simp [hdata]
  . have hcloses : s.closes (.socketData fd' msg) ≠ some fd := by simp [State.closes]
    simp only [rejects_iff, step, socketData, Action.socketData.injEq]
    cases hverdict : ofMsg config s msg with
    | raise => exact ⟨[], by simp, by simp [hcloses, hverdict]⟩
    | kick =>
      refine ⟨[.kick fd'], rfl, ?_⟩
      rw [List.mem_singleton, Msg.kick.injEq]
      constructor
      . rintro rfl
        exact .inr ⟨msg, ⟨rfl, rfl⟩, hverdict⟩
      . rintro (h | ⟨msg', ⟨rfl, -⟩, -⟩)
        . exact absurd h.1 hcloses
        . rfl
    | login uid subid => exact ⟨[.newservice], rfl, by simp [hcloses, hverdict]⟩
  . exact ⟨msgs, hsent, by simp [hkick, hcloses, hdata]⟩

theorem foldl_kicks (config : Config) (fd : Fd) (s : State Fd) (actions : List (Action Fd))
    : ∃ msgs, (actions.foldl (step config) s).sent = s.sent ++ msgs
        ∧ (.kick fd ∈ msgs
          ↔ ∃ past action rest, actions = past ++ action :: rest
            ∧ (past.foldl (step config) s).Kicks config fd action) := by
  induction actions using List.reverseRecOn with
  | nil => exact ⟨[], by simp, by simp⟩
  | append_singleton actions last ih =>
    obtain ⟨msgs, hsent, hkick⟩ := ih
    obtain ⟨new, hnew, hlast⟩ := step_kicks config fd (actions.foldl (step config) s) last
    refine ⟨msgs ++ new, ?_, ?_⟩
    . rw [List.foldl_append, List.foldl_cons, List.foldl_nil, hnew, hsent, List.append_assoc]
    rw [List.mem_append, hkick, hlast]
    constructor
    . rintro (⟨past, action, rest, rfl, h⟩ | h)
      . exact ⟨past, action, rest ++ [last], by simp, h⟩
      . exact ⟨actions, last, [], rfl, h⟩
    . rintro ⟨past, action, rest, heq, h⟩
      rcases append_singleton_eq_append_cons heq with ⟨rfl, rfl, -⟩ | ⟨rest, -, rfl⟩
      . exact .inr h
      . exact .inl ⟨past, action, rest, rfl, h⟩

end

theorem answered_iff_of_login {config : Config} {fd : Fd} {msg uid : Bytes} {subid : Value}
    {s : State Fd} (h : ofMsg config s msg = .login uid subid) (actions : List (Action Fd))
    : Answered config fd msg s (actions.foldl (step config) (socketData config fd msg s))
        ↔
      Kept config fd uid (socketData config fd msg s) actions := by
  have hverified : ∀ uid' subid',
      Verified config s msg uid' subid' ↔ uid = uid' ∧ subid = subid' := by
    intro uid' subid'
    have hcheckable : Checkable config s msg := (accepts_iff.mpr h).1
    have haccepts : Accepts config s msg uid' subid' ↔ _ := accepts_iff
    rw [h, Verdict.login.injEq] at haccepts
    simpa [Accepts, hcheckable] using haccepts
  have huser : (socketData config fd msg s).user fd = some uid := by
    simp [socketData, h, State.user]
  have hfirst : (socketData config fd msg s).sent = s.sent ++ [.newservice] := by
    simp [socketData, h]
  obtain ⟨msgs, hsent, hkick⟩ := foldl_kicks config fd (socketData config fd msg s) actions
  have hrecovered := Recovered.foldl_iff (Q := fun s' => State.user s' fd = some uid)
    (L := fun s' => State.Loses config fd uid s') (R := fun s' => State.Restores config fd uid s')
    huser (step_user uid) actions
  unfold Answered Kept
  rw [or_comm, ← hkick, ← hrecovered]
  apply or_congr
  . constructor
    . rintro ⟨all, hall, hmem⟩
      rw [hsent, hfirst, List.append_assoc, List.append_cancel_left_eq] at hall
      subst hall
      simpa using hmem
    . intro hmem
      exact ⟨.newservice :: msgs, by simp [hsent, hfirst], by simp [hmem]⟩
  . simp [hverified]

theorem not_answered_of_raise {config : Config} {fd : Fd} {msg : Bytes} {s : State Fd}
    (hnone : s.sessionMap.lookup fd = none) (h : ofMsg config s msg = .raise)
    : ¬Answered config fd msg s (socketData config fd msg s) := by
  have hsame : socketData config fd msg s = s := by simp [socketData, h]
  rw [hsame]
  rintro (⟨uid, subid, -, huser⟩ | ⟨msgs, hsent, hkick⟩)
  . simp [State.user, hnone] at huser
  . have hnil : msgs = [] := List.self_eq_append_right.mp hsent
    rw [hnil] at hkick
    cases hkick

theorem answered_of_reject {config : Config} {fd : Fd} {msg : Bytes} {s : State Fd}
    (h : ofMsg config s msg = .kick) (actions : List (Action Fd))
    : Answered config fd msg s (actions.foldl (step config) (socketData config fd msg s)) := by
  obtain ⟨rest, hrest, -⟩ := foldl_kicks config fd (socketData config fd msg s) actions
  refine .inr ⟨.kick fd :: rest, ?_, by simp⟩
  rw [hrest]
  simp [socketData, h]

/--
At whatever moment `SOCKET.data` ends: at once if it raises, else after any steps of the others and the
answers to its own calls.
-/
theorem answered_iff {config : Config} {fd : Fd} {msg : Bytes} {s : State Fd}
    {actions : List (Action Fd)} (hnone : s.sessionMap.lookup fd = none)
    (hraise : ofMsg config s msg = .raise → actions = [])
    : Answered config fd msg s (actions.foldl (step config) (socketData config fd msg s))
        ↔
      Checkable config s msg
        ∧ ∀ uid subid, Verified config s msg uid subid →
          Kept config fd uid (socketData config fd msg s) actions := by
  cases hverdict : ofMsg config s msg with
  | raise =>
    rw [hraise hverdict]
    refine iff_of_false (not_answered_of_raise hnone hverdict) ?_
    rintro ⟨hcheckable, -⟩
    exact (ofMsg_ne_raise_iff config s msg).mpr hcheckable hverdict
  | kick =>
    obtain ⟨hcheckable, hrejects⟩ := rejects_iff.mpr hverdict
    refine iff_of_true (answered_of_reject hverdict actions) ⟨hcheckable, ?_⟩
    intro uid subid hverified
    exact absurd hverified (hrejects uid subid)
  | login uid subid =>
    obtain ⟨hcheckable, hverified⟩ := accepts_iff.mpr hverdict
    rw [answered_iff_of_login hverdict]
    constructor
    . intro hkept
      refine ⟨hcheckable, fun uid' subid' hverified' => ?_⟩
      have hsame := accepts_iff.mp ⟨hcheckable, hverified'⟩
      rw [hverdict, Verdict.login.injEq] at hsame
      exact hsame.1 ▸ hkept
    . rintro ⟨-, hkept⟩
      exact hkept uid subid hverified

end

section

def loggedIn : State Nat :=
  after sampleConfig [.login ['u'.toUInt8] [1, 2, 3, 4, 5, 6, 7, 8]]

def launched : List (Action Nat) :=
  [.resume 0 .value (PairsOrder.inserted Nat), .resume 0 .value (PairsOrder.inserted Nat)]

def kicked : List (Action Nat) :=
  [.kick ['u'.toUInt8] [], .resume 1 .value (PairsOrder.inserted Nat)] ++ launched

theorem checkable_loggedIn : Checkable sampleConfig loggedIn samplePacket := by
  intro cmd hcmd
  have hcmd : Value.table (fun key => if key = keyData then .table sampleData else .nil) = cmd := by
    simpa [sampleConfig] using hcmd
  subst hcmd
  refine ⟨.table sampleData, .string ['u'.toUInt8], .string ['1'.toUInt8],
    sampleData keyToken, rfl, rfl, rfl, rfl, rfl, fun _ => ?_⟩
  exact ⟨['u'.toUInt8], ⟨[1, 2, 3, 4, 5, 6, 7, 8], 1⟩, ['1'.toUInt8], rfl, rfl, rfl, rfl⟩

end

theorem answered_launched
    : Answered sampleConfig (1 : Nat) samplePacket loggedIn
        (launched.foldl (step sampleConfig) (socketData sampleConfig 1 samplePacket loggedIn)) := by
  refine (answered_iff rfl ?_).mpr ⟨checkable_loggedIn, ?_⟩
  . intro hraise
    have hne := (ofMsg_ne_raise_iff sampleConfig loggedIn samplePacket).mpr checkable_loggedIn
    exact absurd hraise hne
  . intro uid subid hverified
    apply Or.inr
    have hlaunched : launched = [] ++ [launched[0]] ++ [launched[1]] := rfl
    rw [hlaunched, Recovered.append_singleton_iff, Recovered.append_singleton_iff]
    refine ⟨?_, .inr ⟨?_, .inr Recovered.nil⟩⟩
    . rintro (hcloses | ⟨msg, uid', subid', heq, -⟩)
      . revert hcloses
        decide +kernel
      . cases heq
    . rintro (hcloses | ⟨msg, uid', subid', heq, -⟩)
      . revert hcloses
        decide +kernel
      . cases heq

theorem not_answered_samples
    : ¬Answered sampleConfig (1 : Nat) samplePacket .init
        (socketData sampleConfig 1 samplePacket .init)
      ∧ ¬Answered sampleConfig (1 : Nat) samplePacket loggedIn
        (kicked.foldl (step sampleConfig) (socketData sampleConfig 1 samplePacket loggedIn)) := by
  refine ⟨not_answered_of_raise rfl rfl, ?_⟩
  rintro (⟨uid, subid, -, huser⟩ | ⟨msgs, hsent, hkick⟩)
  . have hnone : (kicked.foldl (step sampleConfig)
        (socketData sampleConfig 1 samplePacket loggedIn)).user 1 = none := by
      decide +kernel
    rw [hnone] at huser
    cases huser
  . have hnew : (kicked.foldl (step sampleConfig)
        (socketData sampleConfig 1 samplePacket loggedIn)).sent
          = [.newservice, .logout ['u'.toUInt8] [], .start 0 1 ['u'.toUInt8]] := by
      decide +kernel
    rw [hnew] at hsent
    have hmsgs : [.newservice, .logout ['u'.toUInt8] [], .start 0 1 ['u'.toUInt8]] = msgs := hsent
    rw [← hmsgs] at hkick
    simp at hkick

end Watchdog
