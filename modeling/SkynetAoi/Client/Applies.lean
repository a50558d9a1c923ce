import SkynetAoi.Client.Process
import SkynetAoi.Lib.History

/-!
This module contains when the client applies the messages about the view of its player as they are
meant. It also raises on a message that `msgpack.unpackb` refuses: a table that another client has
sent as a position comes to it as it is.
-/

namespace Client

open Python

-- `LUACMSGPACK_MAX_NESTING`
def maxNesting : Nat := 16

/--
What `msgpack.unpackb` makes of the messages that `cmsgpack.pack` can write: the value, or it raises
where there is none.
-/
structure Unpacks (unpackb : Packed → Except Raise Value) : Prop where
  ok : ∀ p v, p.depth ≤ maxNesting → p.value? = some v → unpackb p = .ok v
  error : ∀ p, p.depth ≤ maxNesting → p.value? = none → ∃ e, unpackb p = .error e

def Nested (msg : Msg Packed) : Prop :=
  ∀ p, sendPackage Packed.builder msg = some p → p.depth ≤ maxNesting

def Obj.value? (obj : Obj Packed) : Option (Obj Value) :=
  match obj.pos.value?, obj.colors.mapM Packed.value?, obj.dir.mapM Packed.value? with
  | some pos, some colors, some dir =>
    some ⟨obj.tempid, obj.agent, obj.type, obj.mode, pos, colors, dir⟩
  | _, _, _ => none

def Msg.value? (msg : Msg Packed) : Option (Msg Value) :=
  match msg with
  | .updateaoiobj obj => obj.value?.map .updateaoiobj
  | .delaoiobj tempid reason => some (.delaoiobj tempid reason)
  | .addaoiobj obj reason => obj.value?.map (.addaoiobj · reason)
  | .updateaoilist enterlist leavelist =>
    match enterlist.playerlist.mapM Obj.value?, enterlist.monsterlist.mapM Obj.value? with
    | some playerlist, some monsterlist =>
      some (.updateaoilist ⟨playerlist, monsterlist⟩ leavelist)
    | _, _ => none

def deliver (unpackb : Packed → Except Raise Value) (host : Host) (msg : Msg Packed)
    (page : GamePage) : EStateM.Result Raise GamePage Unit :=
  match sendPackage Packed.builder msg with
  | none => .ok () page
  | some message => onGameMessage unpackb host message page

/--
The message is processed to its end, the balls are those that it tells of and an object that moves has
its position.
-/
def Applied (unpackb : Packed → Except Raise Value) (host : Host) (msg : Msg Packed)
    (page : GamePage) : Prop :=
  ∃ page', deliver unpackb host msg page = .ok () page'
    ∧ keys page'.balls = expected (keys page.balls) msg
    ∧ ∀ obj, msg = .updateaoiobj obj → ∀ ball, page.balls (idKey obj.tempid) = some ball →
      ∃ ball' pos, page'.balls (idKey obj.tempid) = some ball' ∧ obj.pos.value? = some pos
        ∧ Positioned pos ball'.x ball'.y

/--
The keys of the tables and the strings in the message are UTF-8 strings, nothing new comes by a list,
and what is read of the other messages is there.
-/
def Readable (known : Set Key) (msg : Msg Packed) : Prop :=
  ∃ msg', msg.value? = some msg' ∧ Usable known msg'

theorem Obj.value_value? (obj : Obj Packed)
    : (obj.value Packed.builder).value? = obj.value?.map (Obj.value Value.builder) := by
  obtain ⟨tempid, agent, type, mode, pos, colors, dir⟩ := obj
  unfold Obj.value? Obj.value
  cases hpos : pos.value? with
  | none => simp [List.mapM_cons, hpos]
  | some pos' =>
    cases colors with
    | none =>
      cases dir with
      | none => simp [List.mapM_cons, hpos]
      | some dir =>
        cases hdir : dir.value? with
        | none => simp [List.mapM_cons, hpos, hdir]
        | some dir' => simp [List.mapM_cons, hpos, hdir]
    | some colors =>
      cases hcolors : colors.value? with
      | none => simp [List.mapM_cons, hpos, hcolors]
      | some colors' =>
        cases dir with
        | none => simp [List.mapM_cons, hpos, hcolors]
        | some dir =>
          cases hdir : dir.value? with
          | none => simp [List.mapM_cons, hpos, hcolors, hdir]
          | some dir' => simp [List.mapM_cons, hpos, hcolors, hdir]

theorem Obj.value?_spec {obj : Obj Packed} {obj' : Obj Value} (h : obj.value? = some obj')
    : obj'.tempid = obj.tempid ∧ obj.pos.value? = some obj'.pos := by
  unfold Obj.value? at h
  split at h
  . rename_i pos colors dir hpos _ _
    cases h
    exact ⟨rfl, hpos⟩
  . cases h

theorem listsValue_value? (lists : Aoi.Lists (Obj Packed))
    : (listsValue Packed.builder (Obj.value Packed.builder) lists).value?
        = (lists.playerlist.mapM Obj.value?).bind fun playerlist =>
          (lists.monsterlist.mapM Obj.value?).map fun monsterlist =>
            listsValue Value.builder (Obj.value Value.builder) ⟨playerlist, monsterlist⟩ := by
  unfold listsValue
  rw [Packed.builder_dict]
  simp only [List.mapM_cons, List.mapM_nil, Packed.named?_mk,
    Packed.builder_list Obj.value_value?]
  cases lists.playerlist.mapM Obj.value? with
  | none => rfl
  | some playerlist =>
    cases lists.monsterlist.mapM Obj.value? with
    | none => rfl
    | some monsterlist => rfl

theorem briefs_value? (lists : Aoi.Lists Brief)
    : (listsValue Packed.builder (briefValue Packed.builder) lists).value?
        = some (listsValue Value.builder (briefValue Value.builder) lists) := by
  have hbrief : ∀ brief, (briefValue Packed.builder brief).value?
      = (some brief).map (briefValue Value.builder) := by
    intro brief
    rfl
  have hall : ∀ briefs : List Brief, briefs.mapM some = some briefs := by
    intro briefs
    induction briefs with
    | nil => rfl
    | cons brief briefs ih => simp [List.mapM_cons, ih]
  unfold listsValue
  rw [Packed.builder_dict]
  simp only [List.mapM_cons, List.mapM_nil, Packed.named?_mk, Packed.builder_list hbrief, hall]
  rfl

theorem length_of_mapM {objs : List (Obj Packed)} {objs' : List (Obj Value)}
    (h : objs.mapM Obj.value? = some objs') : objs'.length = objs.length := by
  have hunits := map_of_mapM (fun _ => ()) (fun _ => ()) (fun _ _ _ => rfl) h
  simpa using congrArg List.length hunits

theorem ne_nil_of_mapM {objs : List (Obj Packed)} (h : objs.mapM Obj.value? = none)
    : 0 < objs.length := by
  rw [List.length_pos_iff]
  rintro rfl
  cases h

theorem sendPackage_value?_lists (enterlist : Aoi.Lists (Obj Packed)) (leavelist : Aoi.Lists Brief)
    : (∃ msg', (Msg.updateaoilist enterlist leavelist).value? = some msg'
        ∧ sendPackage Packed.builder (.updateaoilist enterlist leavelist) = none
        ∧ sendPackage Value.builder msg' = none)
      ∨ (∃ msg' p v, (Msg.updateaoilist enterlist leavelist).value? = some msg'
        ∧ sendPackage Packed.builder (.updateaoilist enterlist leavelist) = some p
        ∧ sendPackage Value.builder msg' = some v ∧ p.value? = some v)
      ∨ ∃ p, (Msg.updateaoilist enterlist leavelist).value? = none
        ∧ sendPackage Packed.builder (.updateaoilist enterlist leavelist) = some p
        ∧ p.value? = none := by
  have henter := listsValue_value? enterlist
  have hleave := briefs_value? leavelist
  unfold Msg.value? sendPackage
  dsimp only
  cases hplayers : enterlist.playerlist.mapM Obj.value? with
  | none =>
    have hpos := ne_nil_of_mapM hplayers
    rw [hplayers] at henter
    refine .inr (.inr ⟨_, rfl, if_pos (by simp [hpos]), ?_⟩)
    simp [package, List.mapM_cons, henter]
  | some playerlist =>
    cases hmonsters : enterlist.monsterlist.mapM Obj.value? with
    | none =>
      have hpos := ne_nil_of_mapM hmonsters
      rw [hplayers, hmonsters] at henter
      refine .inr (.inr ⟨_, rfl, if_pos (by simp [hpos]), ?_⟩)
      simp [package, List.mapM_cons, henter]
    | some monsterlist =>
      rw [hplayers, hmonsters] at henter
      rw [← length_of_mapM hplayers, ← length_of_mapM hmonsters]
      by_cases hsent : (decide (playerlist.length > 0) || decide (monsterlist.length > 0)
          || decide (leavelist.playerlist.length > 0)
          || decide (leavelist.monsterlist.length > 0)) = true
      . refine .inr (.inl ⟨_, _, _, rfl, if_pos hsent, if_pos hsent, ?_⟩)
        simp [package, List.mapM_cons, henter, hleave]
      . exact .inl ⟨_, rfl, if_neg hsent, if_neg hsent⟩

theorem sendPackage_value? (msg : Msg Packed)
    : (∃ msg', msg.value? = some msg' ∧ sendPackage Packed.builder msg = none
        ∧ sendPackage Value.builder msg' = none)
      ∨ (∃ msg' p v, msg.value? = some msg' ∧ sendPackage Packed.builder msg = some p
        ∧ sendPackage Value.builder msg' = some v ∧ p.value? = some v)
      ∨ ∃ p, msg.value? = none ∧ sendPackage Packed.builder msg = some p ∧ p.value? = none := by
  cases msg with
  | updateaoiobj obj =>
    have hobj := obj.value_value?
    cases hvalue : obj.value? with
    | none =>
      rw [hvalue] at hobj
      refine .inr (.inr ⟨_, by simp [Msg.value?, hvalue], rfl, ?_⟩)
      simp [package, List.mapM_cons, hobj]
    | some obj' =>
      rw [hvalue] at hobj
      refine .inr (.inl ⟨.updateaoiobj obj', _, _, by simp [Msg.value?, hvalue], rfl, rfl, ?_⟩)
      simp [package, List.mapM_cons, hobj]
  | delaoiobj tempid reason =>
    refine .inr (.inl ⟨_, _, _, rfl, rfl, rfl, ?_⟩)
    cases reason with
    | none => rfl
    | some reason => rfl
  | addaoiobj obj reason =>
    have hobj := obj.value_value?
    cases hvalue : obj.value? with
    | none =>
      rw [hvalue] at hobj
      refine .inr (.inr ⟨_, by simp [Msg.value?, hvalue], rfl, ?_⟩)
      simp [package, List.mapM_cons, hobj]
    | some obj' =>
      rw [hvalue] at hobj
      refine .inr (.inl ⟨.addaoiobj obj' reason, _, _, by simp [Msg.value?, hvalue], rfl, rfl, ?_⟩)
      cases reason with
      | none => simp [package, reasonField, List.mapM_cons, hobj]
      | some reason => simp [package, reasonField, List.mapM_cons, hobj]
  | updateaoilist enterlist leavelist => exact sendPackage_value?_lists enterlist leavelist

theorem tempids_of_mapM {objs : List (Obj Packed)} {objs' : List (Obj Value)}
    (h : objs.mapM Obj.value? = some objs') : objs'.map Obj.tempid = objs.map Obj.tempid :=
  map_of_mapM Obj.tempid Obj.tempid (fun _ _ hobj => (Obj.value?_spec hobj).1) h

theorem expected_value? {msg : Msg Packed} {msg' : Msg Value} (h : msg.value? = some msg')
    (known : Set Key) : expected known msg' = expected known msg := by
  cases msg with
  | updateaoiobj obj =>
    obtain ⟨obj', -, rfl⟩ := Option.map_eq_some_iff.mp h
    rfl
  | delaoiobj tempid reason =>
    cases h
    rfl
  | addaoiobj obj reason =>
    obtain ⟨obj', hobj, rfl⟩ := Option.map_eq_some_iff.mp h
    simp only [expected, (Obj.value?_spec hobj).1]
  | updateaoilist enterlist leavelist =>
    unfold Msg.value? at h
    dsimp only at h
    split at h
    . rename_i playerlist monsterlist hplayers hmonsters
      cases h
      have htempids : ∀ (objs : List (Obj Packed)) (objs' : List (Obj Value)),
          objs'.map Obj.tempid = objs.map Obj.tempid →
          ∀ k, (∃ obj ∈ objs', k = idKey obj.tempid) ↔ ∃ obj ∈ objs, k = idKey obj.tempid := by
        intro objs objs' heq k
        have hmem : ∀ {α : Type} (objs : List (Obj α)),
            (∃ obj ∈ objs, k = idKey obj.tempid) ↔ ∃ id ∈ objs.map Obj.tempid, k = idKey id := by
          intro α objs
          simp
        rw [hmem, hmem, heq]
      unfold expected
      dsimp only
      have hboth := htempids (enterlist.playerlist ++ enterlist.monsterlist)
        (playerlist ++ monsterlist)
        (by rw [List.map_append, List.map_append, tempids_of_mapM hplayers, tempids_of_mapM hmonsters])
      simp only [hboth]
    . cases h

section

variable {unpackb : Packed → Except Raise Value} (host : Host) (page : GamePage)

theorem applied_iff_processed {msg : Msg Packed} {msg' : Msg Value} (h : msg.value? = some msg')
    (hdeliver : deliver unpackb host msg page = process host msg' page)
    : Applied unpackb host msg page ↔ Processed host msg' page := by
  unfold Applied Processed
  rw [hdeliver]
  apply exists_congr
  intro page'
  rw [expected_value? h]
  apply and_congr_right
  intro _
  apply and_congr_right
  intro _
  constructor
  . rintro hmoved obj' rfl ball hball
    cases msg with
    | updateaoiobj obj =>
      obtain ⟨obj', hobj, heq⟩ := Option.map_eq_some_iff.mp h
      cases heq
      obtain ⟨htempid, hpos⟩ := Obj.value?_spec hobj
      obtain ⟨ball', pos, hball', hvalue, hposition⟩ := hmoved obj rfl ball (by rw [← htempid, hball])
      rw [hpos, Option.some.injEq] at hvalue
      exact ⟨ball', by rw [htempid, hball'], hvalue ▸ hposition⟩
    | delaoiobj tempid reason => cases h
    | addaoiobj obj reason =>
      obtain ⟨_, -, heq⟩ := Option.map_eq_some_iff.mp h
      cases heq
    | updateaoilist enterlist leavelist =>
      unfold Msg.value? at h
      dsimp only at h
      split at h
      . cases h
      . cases h
  . rintro hmoved obj rfl ball hball
    obtain ⟨obj', hobj, rfl⟩ := Option.map_eq_some_iff.mp h
    obtain ⟨htempid, hpos⟩ := Obj.value?_spec hobj
    obtain ⟨ball', hball', hposition⟩ := hmoved obj' rfl ball (by rw [htempid, hball])
    exact ⟨ball', obj'.pos, by rw [← htempid, hball'], hpos, hposition⟩

theorem applied_iff_readable (hunpackb : Unpacks unpackb) {msg : Msg Packed} (hnested : Nested msg)
    : Applied unpackb host msg page ↔ Readable (keys page.balls) msg := by
  rcases sendPackage_value? msg with ⟨msg', hvalue, hnone, hnone'⟩
    | ⟨msg', p, v, hvalue, hsend, hsend', hp⟩ | ⟨p, hvalue, hsend, hp⟩
  . have hdeliver : deliver unpackb host msg page = process host msg' page := by
      simp [deliver, process, hnone, hnone']
    rw [applied_iff_processed host page hvalue hdeliver, processed_iff_usable]
    simp [Readable, hvalue]
  . have hunpack := hunpackb.ok p v (hnested p hsend) hp
    have hdeliver : deliver unpackb host msg page = process host msg' page := by
      simp [deliver, process, hsend, hsend', onGameMessage, hunpack]
    rw [applied_iff_processed host page hvalue hdeliver, processed_iff_usable]
    simp [Readable, hvalue]
  . obtain ⟨e, herror⟩ := hunpackb.error p (hnested p hsend) hp
    have hdeliver : deliver unpackb host msg page = .error e page := by
      simp [deliver, hsend, onGameMessage, herror]
    constructor
    . rintro ⟨page', hok, -⟩
      rw [hdeliver] at hok
      cases hok
    . rintro ⟨msg', hsome, -⟩
      rw [hvalue] at hsome
      cases hsome

end

def next (unpackb : Packed → Except Raise Value) (page : GamePage) (arrival : Host × Msg Packed)
    : GamePage :=
  match deliver unpackb arrival.1 arrival.2 page with
  | .ok () page => page
  | .error _ page => page

def received (unpackb : Packed → Except Raise Value) (page : GamePage)
    (history : List (Host × Msg Packed)) : GamePage :=
  history.foldl (next unpackb) page

def told (known : Set Key) (history : List (Host × Msg Packed)) : Set Key :=
  history.foldl (fun known arrival => expected known arrival.2) known

section

variable {unpackb : Packed → Except Raise Value} {page : GamePage}

theorem keys_next {arrival : Host × Msg Packed} (h : Applied unpackb arrival.1 arrival.2 page)
    : keys (next unpackb page arrival).balls = expected (keys page.balls) arrival.2 := by
  obtain ⟨page', hok, hkeys, -⟩ := h
  unfold next
  rw [hok]
  exact hkeys

theorem keys_received {history : List (Host × Msg Packed)}
    (h : Throughout (fun past arrival =>
      Applied unpackb arrival.1 arrival.2 (received unpackb page past)) history)
    : keys (received unpackb page history).balls = told (keys page.balls) history := by
  induction history using List.reverseRecOn with
  | nil => rfl
  | append_singleton history last ih =>
    rw [Throughout.append_singleton_iff] at h
    unfold received told
    rw [List.foldl_append, List.foldl_append]
    have hlast := keys_next h.2
    rw [ih h.1] at hlast
    exact hlast

end

theorem applies_iff {unpackb : Packed → Except Raise Value} (hunpackb : Unpacks unpackb)
    (page : GamePage) {history : List (Host × Msg Packed)}
    (hnested : ∀ arrival ∈ history, Nested arrival.2)
    : (Throughout (fun past arrival =>
          Applied unpackb arrival.1 arrival.2 (received unpackb page past)) history
        ∧ keys (received unpackb page history).balls = told (keys page.balls) history)
        ↔
      Throughout (fun past arrival => Readable (told (keys page.balls) past) arrival.2) history := by
  have hiff
      : Throughout (fun past arrival =>
          Applied unpackb arrival.1 arrival.2 (received unpackb page past)) history
        ↔
      Throughout (fun past arrival => Readable (told (keys page.balls) past) arrival.2) history := by
    induction history using List.reverseRecOn with
    | nil => simp
    | append_singleton history last ih =>
      have ih := ih fun arrival harrival => hnested arrival (by simp [harrival])
      rw [Throughout.append_singleton_iff, Throughout.append_singleton_iff, ih]
      apply and_congr_right
      intro hpast
      rw [applied_iff_readable _ _ hunpackb (hnested last (by simp)), keys_received (ih.mpr hpast)]
  rw [← hiff]
  constructor
  . exact And.left
  . intro h
    exact ⟨h, keys_received h⟩

namespace Arrival

def host : Host where
  x := 0
  y := 0
  radius := 10

def page : GamePage where
  balls := fun _ => none
  loginOk := true

def monster : Obj Packed where
  tempid := 100
  agent := 16777244
  type := 2
  mode := ['w', 'm']
  pos := .map [(.str Field.x, .number 10), (.str Field.y, .number 10)]
  colors := none
  dir := none

def unpackb (p : Packed) : Except Raise Value :=
  match p.value? with
  | some v => .ok v
  | none => .error .valueError

theorem unpackb_unpacks : Unpacks unpackb where
  ok := by
    intro p v _ h
    simp [unpackb, h]
  error := by
    intro p _ h
    exact ⟨.valueError, by simp [unpackb, h]⟩

def msg : Msg Packed := .updateaoilist ⟨[], [monster]⟩ ⟨[], []⟩

theorem msg_nested : Nested msg := by
  intro p hp
  cases hp
  decide

def monsterValue : Obj Value where
  tempid := 100
  agent := 16777244
  type := 2
  mode := ['w', 'm']
  pos := .dict [(Field.x, .number 10), (Field.y, .number 10)]
  colors := none
  dir := none

theorem msg_value? : msg.value? = some (.updateaoilist ⟨[], [monsterValue]⟩ ⟨[], []⟩) := rfl

def history : List (Host × Msg Packed) :=
  [(host, .addaoiobj monster (some ['a', 'o', 'i'])), (host, msg)]

theorem history_nested : ∀ arrival ∈ history, Nested arrival.2 := by
  intro arrival harrival
  simp only [history, List.mem_cons, List.not_mem_nil, or_false] at harrival
  rcases harrival with rfl | rfl
  . intro p hp
    cases hp
    decide
  . exact msg_nested

end Arrival

theorem applies_history
    : Throughout (fun past arrival => Applied Arrival.unpackb arrival.1 arrival.2
          (received Arrival.unpackb Arrival.page past)) Arrival.history
        ∧ keys (received Arrival.unpackb Arrival.page Arrival.history).balls
          = told (keys Arrival.page.balls) Arrival.history := by
  apply (applies_iff Arrival.unpackb_unpacks Arrival.page Arrival.history_nested).mpr
  rw [Arrival.history, Throughout.cons_iff, Throughout.cons_iff]
  refine ⟨⟨.addaoiobj Arrival.monsterValue _, rfl, ?_⟩, ⟨_, Arrival.msg_value?, ?_⟩, Throughout.nil⟩
  . intro _
    exact ⟨by simp, .number 10, .number 10, ⟨rfl, rfl⟩, rfl, rfl⟩
  . intro obj hobj
    rw [List.nil_append, List.mem_singleton] at hobj
    subst hobj
    exact .inl rfl

theorem not_applies_of_arrival
    : ¬∀ (page : GamePage) (history : List (Host × Msg Packed)),
        (∀ arrival ∈ history, Nested arrival.2) →
        Throughout (fun past arrival => Applied Arrival.unpackb arrival.1 arrival.2
            (received Arrival.unpackb page past)) history
          ∧ keys (received Arrival.unpackb page history).balls = told (keys page.balls) history := by
  intro h
  have happlied := (h Arrival.page [(Arrival.host, Arrival.msg)]
    (by simpa using Arrival.msg_nested)).1 [] (Arrival.host, Arrival.msg) [] rfl
  obtain ⟨msg', hvalue, husable⟩ :=
    (applied_iff_readable _ _ Arrival.unpackb_unpacks Arrival.msg_nested).mp happlied
  rw [Arrival.msg_value?, Option.some.injEq] at hvalue
  subst hvalue
  have hmem : idKey Arrival.monsterValue.tempid ∈ keys Arrival.page.balls := by
    apply husable
    simp
  exact hmem rfl

end Client
