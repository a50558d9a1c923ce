import SkynetAoi.Lib.History
import SkynetAoi.Lib.Threads
import SkynetAoi.Logind.Basic

/-!
This module contains that the login service and the watchdogs agree on who is online. One handler at a
time works on a user, and where it is says what the others know of the user by then.
-/

namespace Watchdog

variable {Fd : Type} [DecidableEq Fd]

@[simp]
theorem closeAgent_userSecret (fd : Fd) (s : State Fd)
    : (closeAgent fd s).userSecret = s.userSecret := by
  unfold closeAgent
  cases s.agent fd with
  | none => rfl
  | some a => rfl

theorem socketData_userSecret (config : Config) (fd : Fd) (msg : Bytes) (s : State Fd)
    : (socketData config fd msg s).userSecret = s.userSecret := by
  unfold socketData
  split
  . rfl
  . rfl
  . rfl

theorem resume_kick_userSecret {s : State Fd} {n : Nat} {uid : Bytes}
    (h : s.threads[n]? = some (.kick uid)) (reply : Reply) (order : PairsOrder Fd)
    : (resume n reply order s).userSecret = Function.update s.userSecret uid none := by
  unfold resume
  simp only [h, Thread.resume]
  split
  . simp
  . rfl

theorem resume_userSecret {s : State Fd} {n : Nat} (h : ∀ uid, s.threads[n]? ≠ some (.kick uid))
    (reply : Reply) (order : PairsOrder Fd) : (resume n reply order s).userSecret = s.userSecret := by
  unfold resume
  cases hthread : s.threads[n]? with
  | none => rfl
  | some thread =>
    cases thread with
    | newservice fd uid =>
      cases reply with
      | value => rfl
      | empty => rfl
      | error => rfl
    | closing a =>
      cases reply with
      | value => rfl
      | empty => rfl
      | error => rfl
    | kick uid => exact absurd hthread (h uid)
    | last => rfl

end Watchdog

namespace Logind

variable {W Fd : Type}

namespace State

def secret (s : State W Fd) (w : W) (uid : Bytes) : Option Watchdog.UserSecret :=
  (s.watchdogs w).userSecret uid

structure SameFor (uid : Bytes) (s s' : State W Fd) : Prop where
  online : s'.userOnline uid = s.userOnline uid
  returned : s'.returned uid = s.returned uid
  secret : ∀ w, s'.secret w uid = s.secret w uid

/--
What the login service and the watchdogs know of a user that no handler works on.
-/
inductive Agree (s : State W Fd) (uid : Bytes) : Prop where
  | offline (hnone : s.userOnline uid = none) (hsecret : ∀ w, s.secret w uid = none)
  | online (online : Online W) (info : Watchdog.UserSecret)
      (honline : s.userOnline uid = some online) (hinfo : s.secret online.address uid = some info)
      (hother : ∀ w, w ≠ online.address → s.secret w uid = none)
      (hsubid : tostring info.subid = online.subid)
      (hlogin : s.returned uid = some ⟨online.address, online.subid, info.secret⟩)

def Staged (s : State W Fd) (handler : Handler W) : Prop :=
  match handler.stage with
  | .kick address _ =>
    s.Agree handler.uid ∧ ∃ online, s.userOnline handler.uid = some online ∧ online.address = address
  | .logout address =>
    s.Agree handler.uid ∧ ∃ online, s.userOnline handler.uid = some online ∧ online.address = address
  | .loggedOut address =>
    s.userOnline handler.uid = none ∧ ∀ w, w ≠ address → s.secret w handler.uid = none
  | .kicked => s.userOnline handler.uid = none ∧ ∀ w, s.secret w handler.uid = none
  | .login => s.userOnline handler.uid = none ∧ ∀ w, s.secret w handler.uid = none
  | .loggedIn subid =>
    s.userOnline handler.uid = none
      ∧ (∃ info, s.secret handler.gameserver handler.uid = some info
        ∧ tostring info.subid = subid ∧ info.secret = handler.secret)
      ∧ ∀ w, w ≠ handler.gameserver → s.secret w handler.uid = none

end State

structure Inv (s : State W Fd) : Prop where
  nodup : (s.handlers.map Handler.uid).Nodup
  lock : ∀ uid, s.userLogin uid = true ↔ uid ∈ s.handlers.map Handler.uid
  staged : ∀ handler ∈ s.handlers, s.Staged handler
  idle : ∀ uid, uid ∉ s.handlers.map Handler.uid → s.Agree uid

namespace State

variable {s s' : State W Fd} {uid : Bytes}

theorem SameFor.agree (h : SameFor uid s s') (hagree : s.Agree uid) : s'.Agree uid := by
  cases hagree with
  | offline hnone hsecret =>
    refine .offline (by rw [h.online, hnone]) ?_
    intro w
    rw [h.secret, hsecret]
  | online online info honline hinfo hother hsubid hlogin =>
    refine .online online info (by rw [h.online, honline]) (by rw [h.secret, hinfo]) ?_ hsubid
      (by rw [h.returned, hlogin])
    intro w hw
    rw [h.secret, hother w hw]

theorem SameFor.staged {handler : Handler W} (h : SameFor handler.uid s s')
    (hstaged : s.Staged handler) : s'.Staged handler := by
  unfold Staged at hstaged ⊢
  rw [h.online]
  simp only [h.secret]
  split
  . next heq =>
    rw [heq] at hstaged
    exact ⟨h.agree hstaged.1, hstaged.2⟩
  . next heq =>
    rw [heq] at hstaged
    exact ⟨h.agree hstaged.1, hstaged.2⟩
  all_goals
    next heq =>
    rw [heq] at hstaged
    exact hstaged

end State

namespace Inv

variable {s s' : State W Fd}

theorem init : Inv (.init : State W Fd) where
  nodup := by simp [State.init]
  lock := by simp [State.init]
  staged := by simp [State.init]
  idle := fun uid _ => .offline rfl (fun _ => rfl)

theorem frame (h : Inv s) (hhandlers : s'.handlers = s.handlers)
    (hlogin : s'.userLogin = s.userLogin) (hsame : ∀ uid, State.SameFor uid s s') : Inv s' where
  nodup := by rw [hhandlers]; exact h.nodup
  lock := by rw [hhandlers, hlogin]; exact h.lock
  staged := by
    rw [hhandlers]
    intro handler hhandler
    exact (hsame handler.uid).staged (h.staged handler hhandler)
  idle := by
    rw [hhandlers]
    intro uid huid
    exact (hsame uid).agree (h.idle uid huid)

theorem start (h : Inv s) {handler : Handler W} (hunlocked : s.userLogin handler.uid = false)
    (hhandlers : s'.handlers = s.handlers ++ [handler])
    (hlogin : s'.userLogin = Function.update s.userLogin handler.uid true)
    (hsame : ∀ uid, State.SameFor uid s s') (hstaged : s'.Staged handler) : Inv s' := by
  have hnew : handler.uid ∉ s.handlers.map Handler.uid := by
    rw [← h.lock, hunlocked]
    simp
  constructor
  . rw [hhandlers, List.map_append, List.nodup_append]
    refine ⟨h.nodup, by simp, ?_⟩
    intro uid huid uid' huid'
    have : uid' = handler.uid := by simpa using huid'
    rw [this]
    rintro rfl
    exact hnew huid
  . intro uid
    rw [hhandlers, hlogin, Function.update_apply, List.map_append, List.mem_append, ← h.lock]
    by_cases huid : uid = handler.uid
    . simp [huid]
    . simp [huid]
  . rw [hhandlers]
    intro handler' hmem
    rw [List.mem_append, List.mem_singleton] at hmem
    rcases hmem with hmem | rfl
    . exact (hsame handler'.uid).staged (h.staged handler' hmem)
    . exact hstaged
  . rw [hhandlers]
    intro uid huid
    rw [List.map_append, List.mem_append, not_or] at huid
    exact (hsame uid).agree (h.idle uid huid.1)

section

variable {n : Nat} {handler : Handler W}

theorem uid_ne (h : Inv s) (hn : s.handlers[n]? = some handler) {other : Handler W}
    (hother : other ∈ s.handlers.eraseIdx n) : other.uid ≠ handler.uid := by
  have hnodup := ((perm_of_getElem? hn).map Handler.uid).nodup_iff.mp h.nodup
  rw [List.map_cons, List.nodup_cons] at hnodup
  rintro heq
  exact hnodup.1 (heq ▸ List.mem_map_of_mem hother)

theorem finish (h : Inv s) (hn : s.handlers[n]? = some handler)
    (hhandlers : s'.handlers = s.handlers.eraseIdx n)
    (hlogin : s'.userLogin = Function.update s.userLogin handler.uid false)
    (hsame : ∀ uid, uid ≠ handler.uid → State.SameFor uid s s') (hagree : s'.Agree handler.uid)
    : Inv s' := by
  have hperm := (perm_of_getElem? hn).map Handler.uid
  rw [List.map_cons] at hperm
  have hmem : ∀ uid, uid ≠ handler.uid →
      (uid ∈ (s.handlers.eraseIdx n).map Handler.uid ↔ uid ∈ s.handlers.map Handler.uid) := by
    intro uid huid
    rw [hperm.mem_iff, List.mem_cons]
    simp [huid]
  have hnodup := hperm.nodup_iff.mp h.nodup
  rw [List.nodup_cons] at hnodup
  constructor
  . rw [hhandlers]
    exact hnodup.2
  . intro uid
    rw [hhandlers, hlogin, Function.update_apply]
    split
    . next huid =>
      rw [huid]
      simpa using hnodup.1
    . next huid => rw [hmem uid huid, h.lock]
  . rw [hhandlers]
    intro other hother
    have := h.staged other ((List.eraseIdx_sublist s.handlers n).subset hother)
    exact (hsame other.uid (h.uid_ne hn hother)).staged this
  . rw [hhandlers]
    intro uid huid
    by_cases heq : uid = handler.uid
    . rw [heq]
      exact hagree
    . rw [hmem uid heq] at huid
      exact (hsame uid heq).agree (h.idle uid huid)

theorem advance (h : Inv s) (hn : s.handlers[n]? = some handler) {stage : Stage W}
    (hhandlers : s'.handlers = s.handlers.set n { handler with stage := stage })
    (hlogin : s'.userLogin = s.userLogin)
    (hsame : ∀ uid, uid ≠ handler.uid → State.SameFor uid s s')
    (hstaged : s'.Staged { handler with stage := stage }) : Inv s' := by
  obtain ⟨hlt, hget⟩ := List.getElem?_eq_some_iff.mp hn
  have huids : s'.handlers.map Handler.uid = s.handlers.map Handler.uid := by
    rw [hhandlers, List.map_set]
    apply List.ext_getElem?
    intro m
    rw [List.getElem?_set]
    split
    . next heq =>
      subst heq
      simp [hlt, hget]
    . rfl
  constructor
  . rw [huids]
    exact h.nodup
  . rw [huids, hlogin]
    exact h.lock
  . intro other hother
    rw [hhandlers, List.mem_iff_getElem?] at hother
    obtain ⟨m, hm⟩ := hother
    rw [List.getElem?_set] at hm
    split at hm
    . rw [Option.some.injEq] at hm
      rw [← hm]
      exact hstaged
    . next hne =>
      have herase : other ∈ s.handlers.eraseIdx n :=
        List.mem_eraseIdx_iff_getElem?.mpr ⟨m, Ne.symm hne, hm⟩
      have := h.staged other (List.mem_of_getElem? hm)
      exact (hsame other.uid (h.uid_ne hn herase)).staged this
  . intro uid huid
    rw [huids] at huid
    have hne : uid ≠ handler.uid := by
      rintro rfl
      exact huid (List.mem_map_of_mem (List.mem_of_getElem? hn))
    exact (hsame uid hne).agree (h.idle uid huid)

theorem accept (h : Inv s) (server uid secret : Bytes) : Inv (Logind.accept server uid secret s) := by
  unfold Logind.accept
  split
  . exact h
  . next hunlocked =>
    rw [Bool.not_eq_true] at hunlocked
    split
    . exact h
    . next gameserver hgameserver =>
      have hagree : s.Agree uid := by
        apply h.idle
        rw [← h.lock, hunlocked]
        simp
      refine h.start hunlocked rfl rfl ?_ ?_
      . intro uid
        exact ⟨rfl, rfl, fun _ => rfl⟩
      . cases hagree with
        | offline hnone hsecret =>
          simp only [hnone]
          exact ⟨hnone, hsecret⟩
        | online online info honline hinfo hother hsubid hlogin =>
          simp only [honline]
          exact ⟨.online online info honline hinfo hother hsubid hlogin, online, honline, rfl⟩

theorem logout (h : Inv s) (hn : s.handlers[n]? = some handler) {address : W}
    (hstage : handler.stage = .logout address)
    : Inv ((Logind.logout handler.uid s).advance n handler (.loggedOut address)) := by
  have hstaged := h.staged handler (List.mem_of_getElem? hn)
  simp only [State.Staged, hstage] at hstaged
  obtain ⟨hagree, online, honline, rfl⟩ := hstaged
  simp only [Logind.logout, honline]
  refine h.advance hn rfl rfl ?_ ?_
  . intro uid huid
    refine ⟨?_, rfl, fun _ => rfl⟩
    simp [State.advance, huid]
  . refine ⟨by simp [State.advance], ?_⟩
    cases hagree with
    | offline hnone hsecret => exact fun w _ => hsecret w
    | online online' info honline' hinfo hother hsubid hlogin =>
      rw [honline, Option.some.injEq] at honline'
      rw [honline']
      exact hother

theorem kicked (h : Inv s) (hn : s.handlers[n]? = some handler) (hstage : handler.stage = .kicked)
    (ok : Bool) : Inv (Logind.kicked n handler ok s) := by
  have hstaged := h.staged handler (List.mem_of_getElem? hn)
  simp only [State.Staged, hstage] at hstaged
  unfold Logind.kicked
  split
  . refine h.advance hn rfl rfl ?_ ?_
    . intro uid _
      exact ⟨rfl, rfl, fun _ => rfl⟩
    . exact hstaged
  . refine h.finish hn rfl rfl ?_ ?_
    . intro uid _
      exact ⟨rfl, rfl, fun _ => rfl⟩
    . exact .offline hstaged.1 hstaged.2

theorem loggedIn (h : Inv s) (hn : s.handlers[n]? = some handler) {subid : Bytes}
    (hstage : handler.stage = .loggedIn subid) : Inv (Logind.loggedIn n handler subid s) := by
  have hstaged := h.staged handler (List.mem_of_getElem? hn)
  simp only [State.Staged, hstage] at hstaged
  obtain ⟨-, ⟨info, hinfo, hsubid, hsecret⟩, hother⟩ := hstaged
  refine h.finish hn rfl rfl ?_ ?_
  . intro uid huid
    refine ⟨?_, ?_, fun _ => rfl⟩
    . simp [Logind.loggedIn, State.finish, huid]
    . simp [Logind.loggedIn, State.finish, huid]
  . refine .online ⟨handler.gameserver, subid, handler.server⟩ info ?_ hinfo hother hsubid ?_
    . simp [Logind.loggedIn, State.finish]
    . simp [Logind.loggedIn, State.finish, hsecret]

end

end Inv

variable [DecidableEq W] [DecidableEq Fd]

theorem free_userSecret {config : Watchdog.Config} {s : Watchdog.State Fd}
    {action : Watchdog.Action Fd} (h : free s action = true)
    : (Watchdog.step config s action).userSecret = s.userSecret := by
  cases action with
  | login uid secret => simp [free] at h
  | kick uid lastSubid => simp [free] at h
  | close fd => exact Watchdog.closeAgent_userSecret fd s
  | socketOpen fd => rfl
  | socketData fd msg => exact Watchdog.socketData_userSecret config fd msg s
  | socketClose fd => exact Watchdog.closeAgent_userSecret fd s
  | socketError fd => exact Watchdog.closeAgent_userSecret fd s
  | resume n reply order =>
    apply Watchdog.resume_userSecret
    intro uid hthread
    simp [free, hthread] at h

namespace Inv

variable {s : State W Fd} {n : Nat} {handler : Handler W}

theorem secret_watch (config : W → Watchdog.Config) (w : W) (action : Watchdog.Action Fd) (w' : W)
    (uid : Bytes)
    : (watch config w action s).secret w' uid
        =
      if w' = w then (Watchdog.step (config w) (s.watchdogs w) action).userSecret uid
      else s.secret w' uid := by
  unfold State.secret watch
  simp only
  rw [Function.update_apply]
  split
  . rfl
  . rfl

theorem watchdog (h : Inv s) (config : W → Watchdog.Config) {w : W} {action : Watchdog.Action Fd}
    (hfree : free (s.watchdogs w) action = true) : Inv (watch config w action s) := by
  refine h.frame rfl rfl ?_
  intro uid
  refine ⟨rfl, rfl, ?_⟩
  intro w'
  rw [secret_watch]
  split
  . next heq =>
    rw [free_userSecret hfree, heq]
    rfl
  . rfl

theorem kick (h : Inv s) (config : W → Watchdog.Config) (hn : s.handlers[n]? = some handler)
    {address : W} {subid : Bytes} (hstage : handler.stage = .kick address subid)
    : Inv ((watch config address (.kick handler.uid subid) s).advance n handler (.logout address)) := by
  have hstaged := h.staged handler (List.mem_of_getElem? hn)
  have hsame : ∀ uid, State.SameFor uid s
      ((watch config address (.kick handler.uid subid) s).advance n handler (.logout address)) := by
    intro uid
    refine ⟨rfl, rfl, ?_⟩
    intro w
    refine (secret_watch config address (.kick handler.uid subid) w uid).trans ?_
    split
    . next heq =>
      rw [heq]
      rfl
    . rfl
  refine h.advance hn rfl rfl (fun uid _ => hsame uid) ?_
  simp only [State.Staged, hstage] at hstaged
  exact ⟨(hsame handler.uid).agree hstaged.1, hstaged.2⟩

theorem loggedOut (h : Inv s) (config : W → Watchdog.Config) (hn : s.handlers[n]? = some handler)
    {address : W} (hstage : handler.stage = .loggedOut address) {m : Nat}
    (hthread : (s.watchdogs address).threads[m]? = some (.kick handler.uid)) (reply : Watchdog.Reply)
    (order : PairsOrder Fd)
    : Inv ((watch config address (.resume m reply order) s).advance n handler .kicked) := by
  have hstaged := h.staged handler (List.mem_of_getElem? hn)
  simp only [State.Staged, hstage] at hstaged
  have hsecret : ∀ w uid,
      ((watch config address (.resume m reply order) s).advance n handler .kicked).secret w uid
        = if w = address ∧ uid = handler.uid then none else s.secret w uid := by
    intro w uid
    refine (secret_watch config address (.resume m reply order) w uid).trans ?_
    by_cases hw : w = address
    . subst hw
      simp only [↓reduceIte, true_and, Watchdog.step]
      rw [Watchdog.resume_kick_userSecret hthread, Function.update_apply]
      rfl
    . simp [hw]
  refine h.advance hn rfl rfl ?_ ?_
  . intro uid huid
    refine ⟨rfl, rfl, ?_⟩
    intro w
    rw [hsecret, if_neg (by simp [huid])]
  . refine ⟨hstaged.1, ?_⟩
    intro w
    rw [hsecret]
    split
    . rfl
    . next hw => exact hstaged.2 w (by simpa using hw)

theorem login (h : Inv s) (config : W → Watchdog.Config) (hn : s.handlers[n]? = some handler)
    (hstage : handler.stage = .login)
    {s' : State W Fd}
    (hs' : s' = watch config handler.gameserver (.login handler.uid handler.secret) s)
    : Inv (s'.advance n handler
        (.loggedIn (tostring (s'.watchdogs handler.gameserver).subid))) := by
  have hstaged := h.staged handler (List.mem_of_getElem? hn)
  simp only [State.Staged, hstage] at hstaged
  have hsubid : (s'.watchdogs handler.gameserver).subid
      = (s.watchdogs handler.gameserver).subid + 1 := by
    rw [hs']
    simp [watch, Watchdog.step, Watchdog.login]
  have hsecret : ∀ w uid, s'.secret w uid
      = if w = handler.gameserver ∧ uid = handler.uid then
          some ⟨handler.secret, (s'.watchdogs handler.gameserver).subid⟩
        else
          s.secret w uid := by
    intro w uid
    rw [hsubid, hs', secret_watch]
    by_cases hw : w = handler.gameserver
    . subst hw
      simp only [↓reduceIte, true_and, Watchdog.step, Watchdog.login]
      rw [Function.update_apply]
      rfl
    . simp [hw]
  have honline : s'.userOnline = s.userOnline := by rw [hs']; rfl
  have hreturned : s'.returned = s.returned := by rw [hs']; rfl
  have hhandlers : ∀ stage, (s'.advance n handler stage).handlers
      = s.handlers.set n { handler with stage := stage } := by
    intro stage
    rw [hs']
    rfl
  have hlogin : s'.userLogin = s.userLogin := by rw [hs']; rfl
  refine h.advance hn (hhandlers _) hlogin ?_ ?_
  . intro uid huid
    refine ⟨by simp [State.advance, honline], by simp [State.advance, hreturned], ?_⟩
    intro w
    refine (hsecret w uid).trans ?_
    rw [if_neg (by simp [huid])]
  . refine ⟨by simp [State.advance, honline, hstaged.1], ?_, ?_⟩
    . refine ⟨_, (hsecret handler.gameserver handler.uid).trans (if_pos ⟨rfl, rfl⟩), rfl, rfl⟩
    . intro w hw
      refine (hsecret w handler.uid).trans ?_
      rw [if_neg (fun hcond => hw hcond.1), hstaged.2]

theorem proceed (h : Inv s) (config : W → Watchdog.Config) (hn : s.handlers[n]? = some handler)
    (event : Event Fd) : Inv (Logind.proceed config n handler event s) := by
  unfold Logind.proceed
  split
  . next hstage => exact h.kick config hn hstage
  . next hstage => exact h.logout hn hstage
  . next hstage =>
    split
    . next hthread => exact h.loggedOut config hn hstage hthread _ _
    . exact h
  . next hstage => exact h.kicked hn hstage _
  . next hstage => exact h.login config hn hstage rfl
  . next hstage => exact h.loggedIn hn hstage
  . exact h

theorem step (h : Inv s) (config : W → Watchdog.Config) (action : Action W Fd)
    : Inv (Logind.step config s action) := by
  cases action with
  | registerGate server address => exact h.frame rfl rfl fun uid => ⟨rfl, rfl, fun _ => rfl⟩
  | accept server uid secret => exact h.accept server uid secret
  | proceed n event =>
    simp only [Logind.step]
    split
    . next handler hn => exact h.proceed config hn event
    . exact h
  | watchdog w action =>
    simp only [Logind.step]
    split
    . next hfree => exact h.watchdog config hfree
    . exact h

end Inv

theorem after_inv (config : W → Watchdog.Config) (actions : List (Action W Fd))
    : Inv (after config actions) := by
  unfold after
  apply Throughout.foldl_invariant (C := fun _ _ => True) (W := fun _ => True) Inv.init
  . intro s action h _ _
    exact h.step config action
  . simp
  . intro past action rest heq
    trivial

theorem one_handler_and_agree (config : W → Watchdog.Config) (actions : List (Action W Fd))
    : ((after config actions).handlers.map Handler.uid).Nodup
        ∧ ∀ uid, (∀ handler ∈ (after config actions).handlers, handler.uid ≠ uid) →
          (after config actions).Agree uid := by
  have h := after_inv config actions
  constructor
  . exact h.nodup
  . intro uid hidle
    apply h.idle
    intro hmem
    obtain ⟨handler, hhandler, huid⟩ := List.mem_map.mp hmem
    exact hidle handler hhandler huid

end Logind
