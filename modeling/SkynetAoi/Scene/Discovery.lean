import SkynetAoi.Ctrl.Carried
import SkynetAoi.Scene.Client
import SkynetAoi.Scene.Engine

/-!
This module contains when a player has everyone in sight who is inside the radius of the `caoi`
service. The map service forgets a monster that has gone far away, and the `caoi` service only
reports whom it has marked as moved. The two never lose a pair together as long as no pair drifts
inside unmarked.
-/

namespace Scene

variable {Agent : Type} {kind : UInt32 → Aoi.CharType}

def Moved (events : List Caoi.Event) (id : UInt32) : Prop :=
  ∃ t, Caoi.track events id = some t ∧ t.moved = true

/--
The pair needs no callback yet or will be reported by an `aoi_message` that is still to come.
-/
def Pending (events : List Caoi.Event) (handled : Nat) (p k : UInt32) : Prop :=
  Moved events p
    ∨ Moved events k
    ∨ (∃ before after, events = before ++ .message :: after
      ∧ handled ≤ before.length
      ∧ Caoi.Reportable before p k)
    ∨ OutsideBefore events p k

theorem Moved.update {events : List Caoi.Event} {id : UInt32} (h : Moved events id) {id' : UInt32}
    {mode : List Char} (hmode : id' = id → 'd' ∉ mode) (pos : Point)
    : Moved (events ++ [.update id' mode pos]) id := by
  obtain ⟨t, ht, hmoved⟩ := h
  unfold Moved
  rw [Caoi.track_update]
  split
  . next heq =>
    rw [ht]
    unfold Caoi.Track.update
    rw [if_neg (hmode heq)]
    dsimp only
    split
    . exact ⟨_, rfl, rfl⟩
    . exact ⟨_, rfl, hmoved⟩
  . exact ⟨t, ht, hmoved⟩

theorem moved_of_first {events : List Caoi.Event} {id : UInt32} (h : Caoi.track events id = none)
    {mode : List Char} (hmode : 'd' ∉ mode) (pos : Point)
    : Moved (events ++ [.update id mode pos]) id := by
  unfold Moved
  rw [Caoi.track_update, if_pos rfl, h]
  unfold Caoi.Track.update
  rw [if_neg hmode]
  exact ⟨_, rfl, rfl⟩

namespace Pending

variable {events : List Caoi.Event} {handled : Nat} {p k : UInt32}

theorem update (h : Pending events handled p k) {id : UInt32} {mode : List Char}
    (hmode : id = p ∨ id = k → 'd' ∉ mode) (pos : Point)
    : Pending (events ++ [.update id mode pos]) handled p k := by
  rcases h with h | h | ⟨before, after, rfl, hhandled, hreport⟩
    | ⟨before, after, tp, tk, rfl, hafter, htp, htk, hfar⟩
  . left
    exact h.update (fun heq => hmode (Or.inl heq)) pos
  . right
    left
    exact h.update (fun heq => hmode (Or.inr heq)) pos
  . right
    right
    left
    exact ⟨before, after ++ [.update id mode pos], by simp, hhandled, hreport⟩
  . right
    right
    right
    refine ⟨before, after ++ [.update id mode pos], tp, tk, by simp, ?_, htp, htk, hfar⟩
    simp [hafter]

/--
At an `aoi_message` it shows whether a pair is outside or will be reported. A pair that was outside
at the last one and is inside now, unmarked, has drifted.
-/
theorem message (h : Pending events handled p k) (hhandled : handled ≤ events.length)
    {tp tk : Caoi.Track} (hpair : Caoi.Pair events p k tp tk) (hdrift : Caoi.Undrifted events p k)
    : Pending (events ++ [.message]) handled p k := by
  have hreport : Caoi.Reportable events p k → Pending (events ++ [.message]) handled p k := by
    intro hreport
    right
    right
    left
    exact ⟨events, [], rfl, hhandled, hreport⟩
  by_cases hfar : Caoi.aoiRadis2 ≤ Point.dist2 tp.position tk.position
  . right
    right
    right
    exact ⟨events, [], tp, tk, rfl, by simp, hpair.watcher_track, hpair.marker_track, hfar⟩
  . have hnear := lt_of_not_ge hfar
    rcases h with ⟨t, ht, hmoved⟩ | ⟨t, ht, hmoved⟩ | ⟨before, after, rfl, hle, hrep⟩
      | ⟨before, after, tp0, tk0, hevents, hafter, htp0, htk0, hfar0⟩
    . rw [hpair.watcher_track, Option.some.injEq] at ht
      rw [← ht] at hmoved
      exact hreport ⟨tp, tk, hpair, hnear, Or.inl hmoved⟩
    . rw [hpair.marker_track, Option.some.injEq] at ht
      rw [← ht] at hmoved
      exact hreport ⟨tp, tk, hpair, hnear, Or.inr (Or.inl hmoved)⟩
    . right
      right
      left
      exact ⟨before, after ++ [.message], by simp, hle, hrep⟩
    . cases hmovedp : tp.moved with
      | true => exact hreport ⟨tp, tk, hpair, hnear, Or.inl hmovedp⟩
      | false =>
        cases hmovedk : tk.moved with
        | true => exact hreport ⟨tp, tk, hpair, hnear, Or.inr (Or.inl hmovedk)⟩
        | false =>
          rcases hdrift tp tk hpair hnear hmovedp hmovedk with hhot
            | ⟨before', after', tp', tk', hevents', hafter', htp', htk', hnear'⟩
          . exact hreport ⟨tp, tk, hpair, hnear, Or.inr (Or.inr hhot)⟩
          . rw [hevents] at hevents'
            obtain ⟨rfl, -⟩ := last_unique hevents' hafter hafter'
            rw [htp0, Option.some.injEq] at htp'
            rw [htk0, Option.some.injEq] at htk'
            rw [← htp', ← htk'] at hnear'
            exact absurd hnear' (not_lt.mpr hfar0)

theorem report (h : Pending events handled p k) {event : Caoi.Event}
    (hevent : events[handled]? = some event)
    : Pending events (handled + 1) p k
        ∨ (event = .message ∧ Caoi.Reportable (events.take handled) p k) := by
  rcases h with h | h | ⟨before, after, heq, hle, hreport⟩ | h
  . exact Or.inl (Or.inl h)
  . exact Or.inl (Or.inr (Or.inl h))
  . by_cases hnow : handled = before.length
    . right
      rw [heq, hnow] at hevent
      rw [heq, hnow, List.take_left]
      simp only [List.getElem?_append_right (Nat.le_refl _), Nat.sub_self,
        List.getElem?_cons_zero, Option.some.injEq] at hevent
      exact ⟨hevent.symm, hreport⟩
    . left
      right
      right
      left
      exact ⟨before, after, heq, by omega, hreport⟩
  . exact Or.inl (Or.inr (Or.inr (Or.inr h)))

theorem not_inside (h : Pending (events ++ [.message]) handled p k)
    (hhandled : handled = events.length + 1) {tp tk : Caoi.Track}
    (htp : Caoi.track (events ++ [.message]) p = some tp)
    (htk : Caoi.track (events ++ [.message]) k = some tk)
    : Caoi.aoiRadis2 ≤ Point.dist2 tp.position tk.position := by
  have hsettled : ∀ id, ¬Moved (events ++ [.message]) id := by
    rintro id ⟨t, ht, hmoved⟩
    rw [Caoi.track_message, Option.map_eq_some_iff] at ht
    obtain ⟨t0, -, rfl⟩ := ht
    simp at hmoved
  rcases h with h | h | ⟨before, after, heq, hle, -⟩
    | ⟨before, after, tp0, tk0, heq, hafter, htp0, htk0, hfar⟩
  . exact absurd h (hsettled p)
  . exact absurd h (hsettled k)
  . have := congrArg List.length heq
    simp only [List.length_append, List.length_cons, List.length_nil] at this
    omega
  . obtain ⟨rfl, -⟩ := last_unique heq (by simp) hafter
    rw [Caoi.track_message, htp0, Option.map_some, Option.some.injEq] at htp
    rw [Caoi.track_message, htk0, Option.map_some, Option.some.injEq] at htk
    rw [← htp, ← htk]
    exact hfar

end Pending

def Found (s : Scene Agent) (p k : UInt32) : Prop :=
  (s.aoi.getView .player p k).isSome = true ∨ s.Coming p k ∨ Pending s.events s.handled p k

def Driftless (s : Scene Agent) (p k : UInt32) : Prop :=
  Throughout (fun before event => event = .message → Caoi.Undrifted before p k) s.events

theorem Driftless.of_receive [DecidableEq Agent] {s : Scene Agent}
    {request : Aoi.Action UInt32 Agent} {mail : List (Aoi.Action UInt32 Agent)} {p k : UInt32}
    (h : (s.receive request mail).Driftless p k) (hinv : Inv kind s)
    (hwf : RequestWF kind request) : s.Driftless p k := by
  obtain ⟨new, htexts, -⟩ := handle_texts hinv.tables hwf
  have hevents : (s.receive request mail).events = s.events ++ new.map event := by
    unfold events receive
    dsimp only
    rw [htexts, List.map_append]
  unfold Driftless at h
  rw [hevents, Throughout.append_iff] at h
  exact h.1

structure Discovers (kind : UInt32 → Aoi.CharType) (s : Scene Agent) : Prop where
  synced : Aoi.Synced s.aoi
  flags : ∀ (p k : UInt32) (op ok : Aoi.Obj UInt32 Agent), s.aoi.OBJ p = some op →
    s.aoi.OBJ k = some ok → s.aoi.getView .player p k = some false → Aoi.near op.pos ok = false
  found : ∀ (p k : UInt32), kind p = .player → p ≠ k → s.Driftless p k →
    (s.aoi.OBJ p).isSome = true → (s.aoi.OBJ k).isSome = true → s.Found p k

namespace Discovers

variable {s : Scene Agent}

theorem init : Discovers kind (Scene.init : Scene Agent) where
  synced := Aoi.Synced.init
  flags := by
    intro p k op ok hp
    simp [Scene.init, Aoi.State.init] at hp
  found := by
    intro p k _ _ _ hp
    simp [Scene.init, Aoi.State.init] at hp

theorem pair (h : Discovers kind s) (hinv : Inv kind s) {p k : UInt32} (hp : kind p = .player)
    (hne : p ≠ k) {op ok : Aoi.Obj UInt32 Agent} (hop : s.aoi.OBJ p = some op)
    (hok : s.aoi.OBJ k = some ok)
    : ∃ tp tk, Caoi.Pair s.events p k tp tk
        ∧ tp.position = Aoi.scaled op.pos
        ∧ tk.position = Aoi.scaled ok.pos := by
  obtain ⟨tp, htp, hposp, hwatcher, -⟩ := track_of_present hinv h.synced hop
  obtain ⟨tk, htk, hposk, -, hmarker⟩ := track_of_present hinv h.synced hok
  exact ⟨tp, tk, ⟨hne, htp, htk, hwatcher hp, hmarker⟩, hposp, hposk⟩

theorem flags_receive (h : Discovers kind s) (hinv : Inv kind s) {request : Aoi.Action UInt32 Agent}
    (hwf : RequestWF kind request) (hraises : Aoi.raises (Aoi.handle request s.aoi) = false)
    {p k : UInt32} {op ok : Aoi.Obj UInt32 Agent}
    (hp : (Aoi.outcome (Aoi.handle request s.aoi)).OBJ p = some op)
    (hk : (Aoi.outcome (Aoi.handle request s.aoi)).OBJ k = some ok)
    (hv : (Aoi.outcome (Aoi.handle request s.aoi)).getView .player p k = some false)
    : Aoi.near op.pos ok = false := by
  have hcases : ∀ v, Aoi.FlagFrom s.aoi request p k op ok v → v = false →
      Aoi.near op.pos ok = false := by
    intro v hflag hfalse
    cases hflag with
    | distance => exact hfalse
    | before _ hget hp hk =>
      rw [hfalse] at hget
      exact h.flags p k op ok hp hk hget
    | callback hpair => simp at hfalse
  exact hcases false (Aoi.FlagFrom.handle hinv.tables hwf.1 hraises hp hk hv) rfl

variable [DecidableEq Agent]

theorem found_enter (h : Discovers kind s) (hinv : Inv kind s) {order : PairsOrder UInt32}
    {obj : Aoi.Obj UInt32 Agent} {mail : List (Aoi.Action UInt32 Agent)}
    (hmail : s.mail = .enter order obj :: mail)
    (hraises : Aoi.raises (Aoi.handle (.enter order obj) s.aoi) = false) {p k : UInt32}
    (hkind : kind p = .player) (hne : p ≠ k)
    (hdrift : s.Driftless p k)
    (hp : ((s.receive (.enter order obj) mail).aoi.OBJ p).isSome = true)
    (hk : ((s.receive (.enter order obj) mail).aoi.OBJ k).isSome = true)
    : (s.receive (.enter order obj) mail).Found p k := by
  have hwf := hinv.head hmail
  have hresult := (Aoi.enter_spec hinv.tables order hwf.1).2
  have hmode : 'd' ∉ obj.mode := by
    rw [hwf.1.mode]
    cases obj.type with
    | player => decide
    | monster => decide
  have hevents : (s.receive (.enter order obj) mail).events
      = s.events ++ [.update obj.tempid obj.mode (Aoi.scaled obj.pos)] := by
    have htexts := hresult.texts hraises
    unfold events receive Aoi.handle
    dsimp only
    rw [htexts, List.map_append]
    rfl
  have hobj : (s.receive (.enter order obj) mail).aoi.OBJ = (s.aoi.store obj).OBJ := hresult.obj
  by_cases hfresh : s.aoi.OBJ obj.tempid = none ∧ (p = obj.tempid ∨ k = obj.tempid)
  . -- Whoever comes new is marked as moved.
    right
    right
    have hmoved := moved_of_first (track_of_absent h.synced hfresh.1) hmode (Aoi.scaled obj.pos)
    rw [hevents]
    rcases hfresh.2 with rfl | rfl
    . exact Or.inl hmoved
    . exact Or.inr (Or.inl hmoved)
  . have hold : ∀ a, a = p ∨ a = k →
        ((s.receive (.enter order obj) mail).aoi.OBJ a).isSome = true →
        (s.aoi.OBJ a).isSome = true := by
      intro a ha hlive
      rw [hobj, Aoi.State.store_obj] at hlive
      split at hlive
      . next heq =>
        rw [← Option.ne_none_iff_isSome]
        intro hnone
        apply hfresh
        rw [heq] at ha hnone
        refine ⟨hnone, ?_⟩
        rcases ha with ha | ha
        . exact Or.inl ha.symm
        . exact Or.inr ha.symm
      . exact hlive
    rcases h.found p k hkind hne hdrift (hold p (Or.inl rfl) hp) (hold k (Or.inr rfl) hk)
      with hknown | hcoming | hpending
    . rcases hresult.known hinv.tables hraises hknown with hknown' | ⟨rfl, op, hop, hfar⟩
      . exact Or.inl hknown'
      . -- A monster that was forgotten is too far from where it was to be unmarked and inside.
        right
        right
        have hsynced' := (h.synced.handle_ok hinv.tables hwf.1 hraises).1
        have hinv' := hinv.receive hmail
        have hok : (s.receive (.enter order obj) mail).aoi.OBJ obj.tempid = some obj := by
          rw [hobj, Aoi.State.store_obj, if_pos rfl]
        obtain ⟨tp, htp, hposp, -⟩ := track_of_present hinv' hsynced' hop
        obtain ⟨tk, htk, hposk, -⟩ := track_of_present hinv' hsynced' hok
        have hfar' := scaled_far hfar
        rw [← hposp, ← hposk, Point.dist2_comm] at hfar'
        cases hmovedp : tp.moved with
        | true => exact Or.inl ⟨tp, htp, hmovedp⟩
        | false =>
          cases hmovedk : tk.moved with
          | true => exact Or.inr (Or.inl ⟨tk, htk, hmovedk⟩)
          | false =>
            right
            right
            right
            exact outsideBefore_of_far htp htk hmovedp hmovedk hfar'
    . right
      left
      rcases hcoming.receive hmail with heq | hcoming'
      . simp at heq
      . exact hcoming'
    . right
      right
      rw [hevents]
      exact hpending.update (fun _ => hmode) _

theorem found_leave (h : Discovers kind s) (hinv : Inv kind s) {order : PairsOrder UInt32}
    {obj : Aoi.Obj UInt32 Agent} {mail : List (Aoi.Action UInt32 Agent)}
    (hmail : s.mail = .leave order obj :: mail) {p k : UInt32} (hkind : kind p = .player)
    (hne : p ≠ k) (hdrift : s.Driftless p k)
    (hp : ((s.receive (.leave order obj) mail).aoi.OBJ p).isSome = true)
    (hk : ((s.receive (.leave order obj) mail).aoi.OBJ k).isSome = true)
    : (s.receive (.leave order obj) mail).Found p k := by
  have hwf := hinv.head hmail
  obtain ⟨aoi, hleave, -, hleft⟩ := Aoi.leave_spec hinv.tables order hwf.1
  have haoi := s.receive_of_ok (.leave order obj) mail hleave
  have hevents : (s.receive (.leave order obj) mail).events
      = s.events ++ [.update obj.tempid ['d'] obj.pos] := by
    unfold events
    rw [haoi, hleft.texts, List.map_append]
    rfl
  have hstays : ∀ a, (aoi.OBJ a).isSome = true → a ≠ obj.tempid ∧ (s.aoi.OBJ a).isSome = true := by
    intro a ha
    rw [hleft.OBJ] at ha
    split at ha
    . simp at ha
    . next hne => exact ⟨hne, ha⟩
  rw [haoi] at hp hk
  obtain ⟨hnep, hp⟩ := hstays p hp
  obtain ⟨hnek, hk⟩ := hstays k hk
  rcases h.found p k hkind hne hdrift hp hk with hknown | hcoming | hpending
  . left
    rw [haoi, hleft.get, if_neg (by simp [hnep]), if_neg (by simp [hnek])]
    exact hknown
  . right
    left
    rcases hcoming.receive hmail with heq | hcoming'
    . simp at heq
    . exact hcoming'
  . right
    right
    rw [hevents]
    apply hpending.update
    rintro (heq | heq)
    . exact absurd heq.symm hnep
    . exact absurd heq.symm hnek

theorem found_aoicallback (h : Discovers kind s) (hinv : Inv kind s) {w m : UInt32}
    {mail : List (Aoi.Action UInt32 Agent)} (hmail : s.mail = .aoicallback w m :: mail)
    {p k : UInt32} (hkind : kind p = .player) (hne : p ≠ k)
    (hdrift : s.Driftless p k)
    (hp : ((s.receive (.aoicallback w m) mail).aoi.OBJ p).isSome = true)
    (hk : ((s.receive (.aoicallback w m) mail).aoi.OBJ k).isSome = true)
    : (s.receive (.aoicallback w m) mail).Found p k := by
  have hwf := hinv.head hmail
  obtain ⟨aoi, hcallback, -, hresult⟩ := Aoi.aoicallback_spec hinv.tables hwf.1.1 hwf.1.2
  have haoi := s.receive_of_ok (.aoicallback w m) mail hcallback
  rw [haoi] at hp hk
  unfold Found events
  rw [haoi]
  cases hresult with
  | ignored hnone =>
    rcases h.found p k hkind hne hdrift hp hk with hknown | hcoming | hpending
    . exact Or.inl hknown
    . right
      left
      rcases hcoming.receive hmail with heq | hcoming'
      . rw [Aoi.Action.aoicallback.injEq] at heq
        rw [heq.1, heq.2] at hnone
        rcases hnone with hnone | hnone
        . simp [hnone] at hp
        . simp [hnone] at hk
      . exact hcoming'
    . exact Or.inr (Or.inr hpending)
  | sighted _ ow om how hom hs =>
    rw [hs.OBJ] at hp hk
    rw [hs.texts, hs.get]
    rcases h.found p k hkind hne hdrift hp hk with hknown | hcoming | hpending
    . left
      split
      . rfl
      . exact hknown
    . rcases hcoming.receive hmail with heq | hcoming'
      . left
        rw [Aoi.Action.aoicallback.injEq] at heq
        rw [if_pos]
        . rfl
        . rw [hkind, heq.1, heq.2]
          simp
      . exact Or.inr (Or.inl hcoming')
    . exact Or.inr (Or.inr hpending)

theorem found_messageUpdate (h : Discovers kind s) (hinv : Inv kind s)
    {mail : List (Aoi.Action UInt32 Agent)} (hmail : s.mail = .messageUpdate :: mail)
    {p k : UInt32} (hkind : kind p = .player) (hne : p ≠ k)
    (hdrift : (s.receive .messageUpdate mail).Driftless p k)
    (hp : ((s.receive .messageUpdate mail).aoi.OBJ p).isSome = true)
    (hk : ((s.receive .messageUpdate mail).aoi.OBJ k).isSome = true)
    : (s.receive .messageUpdate mail).Found p k := by
  have hold := hdrift.of_receive hinv (hinv.head hmail)
  have hcoming' : s.Coming p k → (s.receive .messageUpdate mail).Coming p k := by
    intro hcoming
    rcases hcoming.receive hmail with heq | hcoming'
    . simp at heq
    . exact hcoming'
  have haoi : (s.receive .messageUpdate mail).aoi = Aoi.messageUpdate s.aoi := rfl
  unfold Driftless events at hdrift
  unfold Found events
  rw [haoi] at hp hk hdrift ⊢
  unfold Aoi.messageUpdate at hp hk hdrift ⊢
  split
  . next hneed =>
    rw [if_pos hneed] at hp hk hdrift
    simp only [Aoi.State.sendText, List.map_append, List.map_cons, List.map_nil, event] at hdrift ⊢
    rw [Throughout.append_singleton_iff] at hdrift
    have hp : (s.aoi.OBJ p).isSome = true := hp
    have hk : (s.aoi.OBJ k).isSome = true := hk
    obtain ⟨op, hop⟩ := Option.isSome_iff_exists.mp hp
    obtain ⟨ok, hok⟩ := Option.isSome_iff_exists.mp hk
    obtain ⟨tp, tk, hpair, -, -⟩ := h.pair hinv hkind hne hop hok
    rcases h.found p k hkind hne hold hp hk with hknown | hcoming | hpending
    . exact Or.inl hknown
    . exact Or.inr (Or.inl (hcoming' hcoming))
    . right
      right
      apply hpending.message _ hpair (hdrift.2 rfl)
      unfold events
      rw [List.length_map]
      exact hinv.handled
  . next hneed =>
    rw [if_neg hneed] at hp hk
    rcases h.found p k hkind hne hold hp hk with hknown | hcoming | hpending
    . exact Or.inl hknown
    . exact Or.inr (Or.inl (hcoming' hcoming))
    . exact Or.inr (Or.inr hpending)

end Discovers

variable [DecidableEq Agent]

theorem discovers_step {s s' : Scene Agent} {action : Action Agent} (hinv : Inv kind s)
    (h : s.raised = false → Discovers kind s) (hstep : Stepped kind s action s')
    : s'.raised = false → Discovers kind s' := by
  intro hraised
  cases hstep with
  | idle => exact h hraised
  | post _ request hrequest =>
    have h := h hraised
    refine ⟨h.synced, h.flags, ?_⟩
    intro p k hkind hne hdrift hp hk
    rcases h.found p k hkind hne hdrift hp hk with hknown | hcoming | hpending
    . exact Or.inl hknown
    . exact Or.inr (Or.inl (hcoming.post request))
    . exact Or.inr (Or.inr hpending)
  | callbackmessage watcher marker rest hsending =>
    have h := h hraised
    refine ⟨h.synced, h.flags, ?_⟩
    intro p k hkind hne hdrift hp hk
    rcases h.found p k hkind hne hdrift hp hk with hknown | hcoming | hpending
    . exact Or.inl hknown
    . exact Or.inr (Or.inl (hcoming.callbackmessage hsending))
    . exact Or.inr (Or.inr hpending)
  | report event caoi cbs hsending hevent hcbs =>
    have h := h hraised
    refine ⟨h.synced, h.flags, ?_⟩
    intro p k hkind hne hdrift hp hk
    rcases h.found p k hkind hne hdrift hp hk with hknown | hcoming | hpending
    . exact Or.inl hknown
    . exact Or.inr (Or.inl (hcoming.report hsending caoi cbs))
    . rcases hpending.report hevent with hpending' | hreport
      . exact Or.inr (Or.inr hpending')
      . right
        left
        right
        exact (hcbs p k).mpr hreport
  | receive request mail hmail hwf =>
    have hraised : s.raised = false ∧ Aoi.raises (Aoi.handle request s.aoi) = false := by
      simpa [Scene.receive] using hraised
    have h := h hraised.1
    refine ⟨(h.synced.handle_ok hinv.tables hwf.1 hraised.2).1, ?_, ?_⟩
    . intro p k op ok
      exact h.flags_receive hinv hwf hraised.2
    . intro p k hkind hne hdrift hp hk
      have hold := hdrift.of_receive hinv hwf
      cases request with
      | enter order obj => exact h.found_enter hinv hmail hraised.2 hkind hne hold hp hk
      | leave order obj => exact h.found_leave hinv hmail hkind hne hold hp hk
      | aoicallback w m => exact h.found_aoicallback hinv hmail hkind hne hold hp hk
      | messageUpdate => exact h.found_messageUpdate hinv hmail hkind hne hdrift hp hk

def AfterTick (s : Scene Agent) : Prop :=
  Quiescent s ∧ ∃ texts, s.aoi.texts = texts ++ [.message]

/--
The texts that `caoi` has got stand for the events of the model, and whoever is inside its radius is
in sight.
-/
theorem inside_inSight (kind : UInt32 → Aoi.CharType) (actions : List (Action Agent))
    (hwf : ∀ action ∈ actions, action.WF kind) (hfits : ∀ action ∈ actions, action.Fits)
    : ∃ s, after actions = some s
        ∧ (∀ text ∈ s.aoi.texts, Ctrl.Reads text)
        ∧ (s.raised = false → AfterTick s →
          ∀ p k op ok, s.aoi.OBJ p = some op → op.type = .player → s.aoi.OBJ k = some ok → k ≠ p →
            'm' ∈ ok.mode → s.Driftless p k →
            Point.dist2 (Aoi.scaled op.pos) (Aoi.scaled ok.pos) < Caoi.aoiRadis2 →
            s.aoi.getView .player p k = some true) := by
  obtain ⟨s, hafter, hinv, h⟩ := after_invariant (C := fun _ _ => True)
    (P := fun s => s.raised = false → Discovers kind s)
    (fun _ => Discovers.init)
    (fun s action s' _ hinv hP _ hstep => discovers_step hinv hP hstep) hwf
    (by
      intro past action rest heq
      intros
      trivial)
    (List.prefix_refl actions)
  have hreads : ∀ text ∈ s.aoi.texts, Ctrl.Reads text := by
    obtain ⟨s', hafter', hreads⟩ := Ctrl.texts_read hwf hfits
    rw [hafter, Option.some.injEq] at hafter'
    exact hafter' ▸ hreads
  refine ⟨s, hafter, hreads, ?_⟩
  rintro hraised ⟨hq, texts, htexts⟩ p k op ok hop htype hok hne - hdrift hnear
  have h := h hraised
  have hkind : kind p = .player := by rw [← (hinv.tables.obj p op hop).2.1, htype]
  obtain ⟨tp, tk, hpair, hposp, hposk⟩ := h.pair hinv hkind hne.symm hop hok
  have hknown : (s.aoi.getView .player p k).isSome = true := by
    rcases h.found p k hkind hne.symm hdrift (by simp [hop]) (by simp [hok])
      with hknown | hcoming | hpending
    . exact hknown
    . exact absurd hcoming (hq.not_coming p k)
    . have hevents : s.events = texts.map event ++ [.message] := by
        unfold events
        rw [htexts, List.map_append]
        rfl
      have htp := hpair.watcher_track
      have htk := hpair.marker_track
      rw [hevents] at hpending htp htk
      have hlen : s.handled = (texts.map event).length + 1 := by
        rw [hq.2.2, htexts]
        simp
      have hfar := hpending.not_inside hlen htp htk
      rw [hposp, hposk] at hfar
      exact absurd hnear (not_lt.mpr hfar)
  obtain ⟨v, hv⟩ := Option.isSome_iff_exists.mp hknown
  cases v with
  | true => exact hv
  | false =>
    have hfar := h.flags p k op ok hop hok hv
    have := near_of_scaled hnear
    simp [Aoi.near, this] at hfar

theorem meeting_fits : ∀ action ∈ meeting, action.Fits := by
  have hfits : ∀ id, Fits (sampleObj id 0).pos := by
    intro id
    constructor <;> norm_num [sampleObj]
  simp [meeting, sampleEnter, Action.Fits, Action.request, RequestFits, hfits]

theorem inside_inSight_meeting
    : ∃ s, after meeting = some s
        ∧ s.raised = false
        ∧ s.Driftless 1 2
        ∧ AfterTick s
        ∧ s.aoi.getView .player 1 2 = some true := by
  obtain ⟨s, hafter, -, h⟩ := inside_inSight sampleKind meeting meeting_wf.1 meeting_fits
  have hstate : (after meeting).map (fun s => (s.raised, s.mail.isEmpty, s.sending, s.handled))
      = some (false, true, [], 3) := by
    decide +kernel
  have htables : (after meeting).map (fun s => (s.aoi.OBJ 1, s.aoi.OBJ 2, s.aoi.texts))
      = some (some (sampleObj 1 0), some (sampleObj 2 0),
        [.update 1 ['w', 'm'] ⟨0, 0, 0⟩, .update 2 ['w', 'm'] ⟨0, 0, 0⟩] ++ [.message]) := by
    decide +kernel
  rw [hafter] at hstate htables
  simp only [Option.map_some, Option.some.injEq, Prod.mk.injEq, List.isEmpty_iff] at hstate htables
  obtain ⟨hraised, hmail, hsending, hhandled⟩ := hstate
  obtain ⟨h1, h2, htexts⟩ := htables
  have hdrift : s.Driftless 1 2 := by
    unfold Driftless events
    rw [htexts, List.map_append, List.map_cons (l := []), List.map_nil,
      Throughout.append_singleton_iff]
    constructor
    . intro before e after heq hmessage
      have : Caoi.Event.message ∈ [Aoi.Text.update 1 ['w', 'm'] ⟨0, 0, 0⟩,
          .update 2 ['w', 'm'] ⟨0, 0, 0⟩].map event := by
        rw [heq, hmessage]
        simp
      simp [event] at this
    . -- Everyone is marked as moved before the first `aoi_message`.
      intro _ tw tm hpair _ hmoved
      rw [Caoi.moved_of_no_message (by simp [event]) hpair.watcher_track] at hmoved
      simp at hmoved
  have hq : Quiescent s := by
    refine ⟨hmail, hsending, ?_⟩
    rw [hhandled, htexts]
    rfl
  have htick : AfterTick s := ⟨hq, _, htexts⟩
  refine ⟨s, hafter, hraised, hdrift, htick, ?_⟩
  apply h hraised htick 1 2 _ _ h1 rfl h2
  . decide
  . decide
  . exact hdrift
  . decide +kernel

def midway : List (Action Nat) :=
  [sampleEnter 1 0, sampleEnter 2 500, .aoiRecv, .aoiRecv, .tick, .aoiRecv, .caoiRecv, .caoiRecv,
    .caoiRecv]

theorem midway_not_inSight
    : ¬∀ (actions : List (Action Nat)), (∀ action ∈ actions, action.WF sampleKind) →
        ∃ s, after actions = some s
          ∧ (s.raised = false → AfterTick s →
            ∀ p k op ok, s.aoi.OBJ p = some op → op.type = .player → s.aoi.OBJ k = some ok → k ≠ p →
              'm' ∈ ok.mode → Point.dist2 op.pos ok.pos ≤ Aoi.aoiRadis2 →
              s.aoi.getView .player p k = some true) := by
  intro h
  have hvalid : ValidId 1 ∧ ValidId 2 := by
    unfold ValidId
    decide
  obtain ⟨s, hafter, h⟩ := h midway
    (by simp [midway, sampleEnter_wf hvalid.1, sampleEnter_wf hvalid.2])
  have hstate : (after midway).map (fun s => (s.raised, s.mail.isEmpty, s.sending, s.handled))
      = some (false, true, [], 3) := by
    decide +kernel
  have htables : (after midway).map
      (fun s => (s.aoi.OBJ 1, s.aoi.OBJ 2, s.aoi.getView .player 1 2, s.aoi.texts))
      = some (some (sampleObj 1 0), some (sampleObj 2 500), none,
        [.update 1 ['w', 'm'] ⟨0, 0, 0⟩, .update 2 ['w', 'm'] ⟨50, 0, 0⟩] ++ [.message]) := by
    decide +kernel
  rw [hafter] at hstate htables
  simp only [Option.map_some, Option.some.injEq, Prod.mk.injEq, List.isEmpty_iff] at hstate htables
  obtain ⟨hraised, hmail, hsending, hhandled⟩ := hstate
  obtain ⟨h1, h2, hget, htexts⟩ := htables
  have hq : Quiescent s := by
    refine ⟨hmail, hsending, ?_⟩
    rw [hhandled, htexts]
    rfl
  have := h hraised ⟨hq, _, htexts⟩ 1 2 _ _ h1 rfl h2 (by decide) (by decide) (by decide +kernel)
  rw [hget] at this
  simp at this

end Scene
