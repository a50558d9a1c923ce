import SkynetAoi.Aoi.Flags

/-!
This module contains whom `enter` tells about an object that has moved: everyone in its view whose
flag has changed or who still has it in sight, once.
-/

namespace Aoi

variable {Id Agent : Type}

def Exactly (ids : List Id) (P : Id → Prop) : Prop :=
  ids.Nodup ∧ ∀ k, k ∈ ids ↔ P k

def notice (obj : Obj Id Agent) (reason : Reason Id) (old new : Bool) : List (Msg Id Agent) :=
  match old, new with
  | false, true => [.addaoiobj obj reason]
  | true, false => [.delaoiobj obj.tempid reason]
  | true, true => [.updateaoiobj obj]
  | false, false => []

def Obj.reason (obj : Obj Id Agent) : Reason Id :=
  match obj.type with
  | .player => .updateviewplayer
  | .monster => .updateviewmonster

theorem flatMap_eq_of_only {β : Type} {f : Id → List β} {k : Id} {ks : List Id} (hnodup : ks.Nodup)
    (hk : k ∈ ks) (honly : ∀ j ∈ ks, j ≠ k → f j = []) : ks.flatMap f = f k := by
  obtain ⟨front, back, rfl⟩ := List.append_of_mem hk
  rw [List.nodup_append, List.nodup_cons] at hnodup
  obtain ⟨-, ⟨hback, -⟩, hfront⟩ := hnodup
  have hnil : ∀ (js : List Id), (∀ j ∈ js, f j = []) → js.flatMap f = [] := by
    intro js hjs
    rw [List.flatMap_eq_nil_iff]
    exact hjs
  rw [List.flatMap_append, List.flatMap_cons, hnil front, hnil back, List.nil_append,
    List.append_nil]
  . intro j hj
    apply honly j (by simp [hj])
    rintro rfl
    exact hback hj
  . intro j hj
    apply honly j (by simp [hj])
    intro hjk
    exact hfront j hj k (by simp) hjk

theorem exactly_brief {ids : List (Obj Id Agent)} {P : Id → Prop}
    (h : Exactly (ids.map Obj.tempid) P) : Exactly ((ids.map Obj.brief).map Brief.tempid) P := by
  rw [List.map_map]
  exact h

variable [DecidableEq Id] {kind : Id → CharType}

def State.turns (s : State Id Agent) (obj : Obj Id Agent) (type : CharType) (k : Id)
    : Option (Bool × Bool) :=
  match s.getView obj.type obj.tempid k, s.OBJ k with
  | some old, some o => if o.type = type then some (old, near obj.pos o) else none
  | _, _ => none

def SetsFlags (s : State Id Agent) (obj : Obj Id Agent) (s' : State Id Agent) : Prop :=
  ∀ (k : Id) (v : Bool) (o : Obj Id Agent), s.getView obj.type obj.tempid k = some v →
    s.OBJ k = some o →
      s'.getView obj.type obj.tempid k = s'.getView o.type k obj.tempid
        ∧ (s'.getView obj.type obj.tempid k = some true ↔ Point.dist2 obj.pos o.pos ≤ aoiRadis2)

/--
The players in the view of `obj` are told what has become of their flag, and whoever has an agent of
its own gets nothing else there.
-/
def TellsPlayers [DecidableEq Agent] (s : State Id Agent) (obj : Obj Id Agent)
    (notices rest : List (Dest Agent × Msg Id Agent)) : Prop :=
  (∃ (ks : List Id) (note : Id → List (Dest Agent × Msg Id Agent)),
    Exactly ks (fun k => (s.turns obj .player k).isSome = true)
      ∧ (∀ k o old new, s.turns obj .player k = some (old, new) → s.OBJ k = some o →
        note k = (notice obj obj.reason old new).map fun msg => (.agent o.agent, msg))
      ∧ notices.Perm (ks.flatMap note))
    ∧ ∀ k o old new, s.turns obj .player k = some (old, new) → s.OBJ k = some o →
      obj.agent ≠ o.agent → (∀ j oj, s.OBJ j = some oj → oj.agent = o.agent → j = k) →
        (notices ++ rest).filter (·.1 = .agent o.agent)
          = (notice obj obj.reason old new).map fun msg => (.agent o.agent, msg)

/--
The agent of the map gets the monsters in the view of a player, in the list of what has become of
their flag.
-/
def TellsMapagent (s : State Id Agent) (obj : Obj Id Agent)
    (info : List (Dest Agent × Msg Id Agent)) : Prop :=
  info = [] ∧ (∀ k old new, s.turns obj .monster k = some (old, new) → old = false ∧ new = false)
    ∨ ∃ enterlist leavelist movelist,
      info = [(.mapagent, .updateaoiinfo obj enterlist leavelist movelist)]
        ∧ Exactly (enterlist.map Obj.tempid) (s.turns obj .monster · = some (false, true))
        ∧ Exactly (leavelist.map Brief.tempid) (s.turns obj .monster · = some (true, false))
        ∧ Exactly (movelist.map Brief.tempid) (s.turns obj .monster · = some (true, true))

/--
The own agent of `obj` gets those who come into sight and those who go out of it.
-/
def TellsOwn (s : State Id Agent) (obj : Obj Id Agent) (msg : Msg Id Agent) : Prop :=
  match msg with
  | .updateaoilist enterlist leavelist =>
    obj.type = .player
      ∧ ∀ type, Exactly ((enterlist.of type).map Obj.tempid) (s.turns obj type · = some (false, true))
        ∧ Exactly ((leavelist.of type).map Brief.tempid) (s.turns obj type · = some (true, false))
  | .updateaoilistMonster tempid enterlist leavelist =>
    obj.type = .monster
      ∧ tempid = obj.tempid
      ∧ (∀ k, s.turns obj .monster k = none)
      ∧ Exactly (enterlist.map Obj.tempid) (s.turns obj .player · = some (false, true))
      ∧ Exactly (leavelist.map Brief.tempid) (s.turns obj .player · = some (true, false))
  | _ => False

structure Informs [DecidableEq Agent] (s : State Id Agent) (obj : Obj Id Agent)
    (s' : State Id Agent) : Prop where
  flags : SetsFlags s obj s'
  told : ∃ notices info own, s'.sent = s.sent ++ notices ++ info ++ [(.agent obj.agent, own)]
    ∧ TellsPlayers s obj notices (info ++ [(.agent obj.agent, own)])
    ∧ TellsMapagent s obj info
    ∧ TellsOwn s obj own

section

variable {s : State Id Agent} {obj : Obj Id Agent}

theorem State.turns_eq_some_iff {type : CharType} {k : Id} {old new : Bool}
    : s.turns obj type k = some (old, new)
        ↔
      ∃ o, s.OBJ k = some o
        ∧ o.type = type
        ∧ s.getView obj.type obj.tempid k = some old
        ∧ near obj.pos o = new := by
  unfold State.turns
  cases s.getView obj.type obj.tempid k with
  | none => simp
  | some v =>
    cases s.OBJ k with
    | none => simp
    | some o => simp

theorem State.pick_store (hself : s.getView obj.type obj.tempid obj.tempid = none) (old new : Bool)
    : (s.store obj).pick obj.type obj.tempid obj.pos old new
        = s.pick obj.type obj.tempid obj.pos old new := by
  funext k
  have hget : (s.store obj).getView obj.type obj.tempid k = s.getView obj.type obj.tempid k := rfl
  unfold State.pick
  rw [hget, State.store_obj]
  by_cases hk : k = obj.tempid
  . rw [hk, hself]
  . rw [if_neg hk]

variable {ks : List Id}

def State.turned (s : State Id Agent) (obj : Obj Id Agent) (ks : List Id) (type : CharType)
    (old new : Bool) : List (Obj Id Agent) :=
  (ks.filterMap (s.pick obj.type obj.tempid obj.pos old new)).filter (·.type = type)

theorem State.mem_turned (hks : ∀ k, k ∈ ks ↔ (s.getView obj.type obj.tempid k).isSome = true)
    {type : CharType} {old new : Bool} {o : Obj Id Agent}
    : o ∈ s.turned obj ks type old new
        ↔
      ∃ k, s.OBJ k = some o ∧ s.turns obj type k = some (old, new) := by
  rw [State.turned, List.mem_filter, State.mem_picks hks, decide_eq_true_iff]
  simp only [State.turns_eq_some_iff]
  constructor
  . rintro ⟨⟨k, hobj, hget, hnear⟩, htype⟩
    exact ⟨k, hobj, o, hobj, htype, hget, hnear⟩
  . rintro ⟨k, hobj, o', hobj', htype, hget, hnear⟩
    rw [hobj, Option.some.injEq] at hobj'
    rw [← hobj'] at htype hnear
    exact ⟨⟨k, hobj, hget, hnear⟩, htype⟩

theorem State.map_picks (hid : ∀ k o, s.OBJ k = some o → o.tempid = k) (ks : List Id)
    (old new : Bool)
    : (ks.filterMap (s.pick obj.type obj.tempid obj.pos old new)).map Obj.tempid
        = ks.filter fun k => (s.pick obj.type obj.tempid obj.pos old new k).isSome := by
  induction ks with
  | nil => rfl
  | cons k ks ih =>
    cases hk : s.pick obj.type obj.tempid obj.pos old new k with
    | none => rw [List.filterMap_cons_none hk, List.filter_cons_of_neg (by simp [hk]), ih]
    | some o =>
      have hobj := (State.pick_eq_some_iff.mp hk).2.1
      rw [List.filterMap_cons_some hk, List.filter_cons_of_pos (by simp [hk]), List.map_cons, ih,
        hid k o hobj]

theorem State.exactly_turned (hid : ∀ k o, s.OBJ k = some o → o.tempid = k) (hnodup : ks.Nodup)
    (hks : ∀ k, k ∈ ks ↔ (s.getView obj.type obj.tempid k).isSome = true) (type : CharType)
    (old new : Bool)
    : Exactly ((s.turned obj ks type old new).map Obj.tempid)
        (s.turns obj type · = some (old, new)) := by
  constructor
  . have hpicks
        : ((ks.filterMap (s.pick obj.type obj.tempid obj.pos old new)).map Obj.tempid).Nodup := by
      rw [State.map_picks hid]
      exact hnodup.filter _
    exact List.Nodup.sublist (List.filter_sublist.map Obj.tempid) hpicks
  . intro k
    rw [List.mem_map]
    constructor
    . rintro ⟨o, ho, rfl⟩
      obtain ⟨j, hobj, hturns⟩ := (State.mem_turned hks).mp ho
      rw [hid j o hobj]
      exact hturns
    . intro hturns
      obtain ⟨o, hobj, -⟩ := State.turns_eq_some_iff.mp hturns
      exact ⟨o, (State.mem_turned hks).mpr ⟨k, hobj, hturns⟩, hid k o hobj⟩

def State.note (s : State Id Agent) (obj : Obj Id Agent) (k : Id)
    : List (Dest Agent × Msg Id Agent) :=
  match s.turns obj .player k, s.OBJ k with
  | some (old, new), some o =>
    (notice obj obj.reason old new).map fun msg => (.agent o.agent, msg)
  | _, _ => []

theorem State.note_eq {k : Id} {old new : Bool} (hturns : s.turns obj .player k = some (old, new))
    {o : Obj Id Agent} (hobj : s.OBJ k = some o)
    : s.note obj k = (notice obj obj.reason old new).map fun msg => (.agent o.agent, msg) := by
  unfold State.note
  rw [hturns, hobj]

theorem State.map_turned {β : Type} (f : Obj Id Agent → β) (ks : List Id) (type : CharType)
    (old new : Bool)
    : (s.turned obj ks type old new).map f
        = ks.flatMap fun k =>
          match s.turns obj type k, s.OBJ k with
          | some turn, some o => if turn = (old, new) then [f o] else []
          | _, _ => [] := by
  induction ks with
  | nil => rfl
  | cons k ks ih =>
    rw [List.flatMap_cons, ← ih]
    unfold State.turned State.pick State.turns
    rw [List.filterMap_cons]
    cases s.getView obj.type obj.tempid k with
    | none => simp
    | some v =>
      cases s.OBJ k with
      | none => simp
      | some o =>
        by_cases hturn : v = old ∧ near obj.pos o = new
        . by_cases htype : o.type = type
          . simp [hturn, htype]
          . simp [hturn, htype]
        . by_cases htype : o.type = type
          . simp [hturn, htype]
          . simp [hturn, htype]

theorem State.perm_note (ks : List Id)
    : ((s.turned obj ks .player true false).map
          (fun (v : Obj Id Agent) => (Dest.agent v.agent, Msg.delaoiobj obj.tempid obj.reason))
        ++ (s.turned obj ks .player false true).map
          (fun (v : Obj Id Agent) => (Dest.agent v.agent, Msg.addaoiobj obj obj.reason))
        ++ (s.turned obj ks .player true true).map
          (fun (v : Obj Id Agent) => (Dest.agent v.agent, Msg.updateaoiobj obj))).Perm
      (ks.flatMap (s.note obj)) := by
  rw [State.map_turned, State.map_turned, State.map_turned]
  refine ((List.flatMap_append_perm _ _ _).append_right _).trans ?_
  refine (List.flatMap_append_perm _ _ _).trans ?_
  apply List.Perm.of_eq
  congr 1
  funext k
  unfold State.note
  cases s.turns obj .player k with
  | none => rfl
  | some turn =>
    cases s.OBJ k with
    | none => rfl
    | some o =>
      obtain ⟨old, new⟩ := turn
      cases old with
      | false =>
        cases new with
        | false => rfl
        | true => rfl
      | true =>
        cases new with
        | false => rfl
        | true => rfl

theorem State.flatMap_note_filter (ks : List Id)
    : (ks.filter fun k => (s.turns obj .player k).isSome).flatMap (s.note obj)
        = ks.flatMap (s.note obj) := by
  induction ks with
  | nil => rfl
  | cons k ks ih =>
    rw [List.flatMap_cons, ← ih]
    cases hk : s.turns obj .player k with
    | none =>
      rw [List.filter_cons_of_neg (by simp [hk]), State.note, hk]
      rfl
    | some turn => rw [List.filter_cons_of_pos (by simp [hk]), List.flatMap_cons]

theorem State.playerLists_store (htype : obj.type = .player)
    (hself : s.getView obj.type obj.tempid obj.tempid = none) (ks : List Id)
    : (s.store obj).playerLists obj.tempid obj.pos ks
        = {
          leavelist := {
            playerlist := (s.turned obj ks .player true false).map Obj.brief
            monsterlist := (s.turned obj ks .monster true false).map Obj.brief
          }
          enterlist := {
            playerlist := s.turned obj ks .player false true
            monsterlist := s.turned obj ks .monster false true
          }
          movelist := {
            playerlist := (s.turned obj ks .player true true).map Obj.brief
            monsterlist := (s.turned obj ks .monster true true).map Obj.brief
          }
        } := by
  unfold State.playerLists Lists.sorted State.turned
  rw [← htype, State.pick_store hself, State.pick_store hself, State.pick_store hself, htype]
  simp only [List.map_id]

theorem tellsMapagent (hid : ∀ k o, s.OBJ k = some o → o.tempid = k) (hnodup : ks.Nodup)
    (hks : ∀ k, k ∈ ks ↔ (s.getView obj.type obj.tempid k).isSome = true)
    (htype : obj.type = .player) (hself : s.getView obj.type obj.tempid obj.tempid = none)
    : TellsMapagent s obj
        (updateviewplayer.info obj ((s.store obj).playerLists obj.tempid obj.pos ks)) := by
  rw [State.playerLists_store htype hself]
  unfold updateviewplayer.info
  split
  . exact Or.inr ⟨_, _, _, rfl, State.exactly_turned hid hnodup hks .monster false true,
      exactly_brief (State.exactly_turned hid hnodup hks .monster true false),
      exactly_brief (State.exactly_turned hid hnodup hks .monster true true)⟩
  . next hempty =>
    simp only [List.isEmpty_map, Bool.or_eq_true, Bool.not_eq_true', not_or, Bool.not_eq_false,
      List.isEmpty_iff] at hempty
    refine Or.inl ⟨rfl, ?_⟩
    intro k old new hturns
    obtain ⟨o, hobj, -⟩ := State.turns_eq_some_iff.mp hturns
    have hmem := (State.mem_turned hks).mpr ⟨k, hobj, hturns⟩
    cases old with
    | false =>
      cases new with
      | false => exact ⟨rfl, rfl⟩
      | true =>
        rw [hempty.1.2] at hmem
        simp at hmem
    | true =>
      cases new with
      | false =>
        rw [hempty.1.1] at hmem
        simp at hmem
      | true =>
        rw [hempty.2] at hmem
        simp at hmem

variable [DecidableEq Agent]

theorem tellsPlayers (hnodup : ks.Nodup)
    (hks : ∀ k, k ∈ ks ↔ (s.getView obj.type obj.tempid k).isSome = true)
    {notices rest : List (Dest Agent × Msg Id Agent)}
    (hnotices : notices.Perm (ks.flatMap (s.note obj)))
    (hrest : ∀ msg ∈ rest, ∀ a, msg.1 = .agent a → a = obj.agent)
    : TellsPlayers s obj notices rest := by
  have hmem : ∀ k old new, s.turns obj .player k = some (old, new) → k ∈ ks := by
    intro k old new hturns
    obtain ⟨o, -, -, hget, -⟩ := State.turns_eq_some_iff.mp hturns
    rw [hks, hget]
    rfl
  constructor
  . refine ⟨ks.filter fun k => (s.turns obj .player k).isSome, s.note obj, ⟨hnodup.filter _, ?_⟩,
      fun k o old new hturns hobj => State.note_eq hturns hobj, ?_⟩
    . intro k
      rw [List.mem_filter, and_iff_right_iff_imp]
      intro hk
      obtain ⟨turn, hturns⟩ := Option.isSome_iff_exists.mp hk
      exact hmem k _ _ hturns
    . rw [State.flatMap_note_filter]
      exact hnotices
  . intro k o old new hturns hobj hself halone
    have honly : ∀ j ∈ ks, j ≠ k → (s.note obj j).filter (·.1 = .agent o.agent) = [] := by
      intro j _ hjk
      rw [List.filter_eq_nil_iff]
      intro msg hmsg
      unfold State.note at hmsg
      split at hmsg
      . next old' new' oj _ hoj =>
        obtain ⟨msg, -, rfl⟩ := List.mem_map.mp hmsg
        rw [decide_eq_true_iff, Dest.agent.injEq]
        intro hagent
        exact hjk (halone j oj hoj hagent)
      . simp at hmsg
    have hsilent : rest.filter (·.1 = .agent o.agent) = [] := by
      rw [List.filter_eq_nil_iff]
      intro msg hmsg
      rw [decide_eq_true_iff]
      intro hagent
      exact hself (hrest msg hmsg o.agent hagent).symm
    have hall : (s.note obj k).filter (·.1 = .agent o.agent) = s.note obj k := by
      rw [List.filter_eq_self, State.note_eq hturns hobj]
      intro msg hmsg
      obtain ⟨msg, -, rfl⟩ := List.mem_map.mp hmsg
      simp
    have hperm := hnotices.filter (·.1 = .agent o.agent)
    rw [List.filter_flatMap, flatMap_eq_of_only hnodup (hmem k _ _ hturns) honly, hall,
      State.note_eq hturns hobj] at hperm
    rw [List.filter_append, hsilent, List.append_nil]
    cases old with
    | false =>
      cases new with
      | false => exact hperm.eq_nil
      | true => exact hperm.eq_singleton
    | true =>
      cases new with
      | false => exact hperm.eq_singleton
      | true => exact hperm.eq_singleton

theorem PlayerMoved.informs {s1 : State Id Agent} (hinv : Inv kind s) (hwf : obj.WF kind)
    (htype : obj.type = .player) (hmoved : PlayerMoved kind (s.store obj) obj.tempid obj s1)
    : Informs s obj (s1.announce obj) := by
  have hid : ∀ k o, s.OBJ k = some o → o.tempid = k := fun k o h => (hinv.obj k o h).1
  have hne : ∀ k v, s.getView obj.type obj.tempid k = some v → k ≠ obj.tempid := by
    intro k v hget
    rw [htype] at hget
    exact (hinv.mirror obj.tempid k v hget).1
  have hself : s.getView obj.type obj.tempid obj.tempid = none := by
    cases hget : s.getView obj.type obj.tempid obj.tempid with
    | none => rfl
    | some v => exact absurd rfl (hne obj.tempid v hget)
  constructor
  . intro k v o hget hobj
    have hk := hne k v hget
    rw [htype] at hget ⊢
    have hzone : (s.store obj).zone .player obj.pos k = some (near obj.pos o) := by
      rw [State.zone_eq (by rw [State.store_obj, if_neg hk, hobj]), zone_player]
    have hsome : ((s.store obj).getView .player obj.tempid k).isSome = true := by
      show (s.getView .player obj.tempid k).isSome = true
      rw [hget]
      rfl
    have hmine : (s1.announce obj).getView .player obj.tempid k = some (near obj.pos o) := by
      show s1.getView .player obj.tempid k = _
      rw [hmoved.get, if_pos ⟨by rw [← hwf.type, htype], rfl, hsome⟩, hzone]
    have htheirs : (s1.announce obj).getView o.type k obj.tempid = some (near obj.pos o) := by
      show s1.getView o.type k obj.tempid = _
      rw [hmoved.get, if_neg (by simp [hk]), if_pos ⟨(hinv.obj k o hobj).2.1, rfl, hsome⟩, hzone]
    rw [hmine, htheirs]
    simp [near]
  . obtain ⟨ks, hnodup, hks, hsent⟩ := hmoved.sent
    have hks : ∀ k, k ∈ ks ↔ (s.getView obj.type obj.tempid k).isSome = true := by
      rw [htype]
      exact hks
    have hreason : obj.reason = .updateviewplayer := by
      unfold Obj.reason
      rw [htype]
    have hinfo := tellsMapagent hid hnodup hks htype hself
    refine ⟨_, _, .updateaoilist ((s.store obj).playerLists obj.tempid obj.pos ks).enterlist
      ((s.store obj).playerLists obj.tempid obj.pos ks).leavelist, ?_,
      tellsPlayers hnodup hks (State.perm_note ks) ?_, hinfo, ?_⟩
    . show s1.sent = _
      rw [hsent, State.playerLists_store htype hself, hreason]
      simp only [updateviewplayer.msgs, List.map_map, List.append_assoc]
      rfl
    . intro msg hmsg a ha
      rw [List.mem_append, List.mem_singleton] at hmsg
      rcases hmsg with hmsg | rfl
      . unfold updateviewplayer.info at hmsg
        split at hmsg
        . rw [List.mem_singleton] at hmsg
          rw [hmsg] at ha
          simp at ha
        . simp at hmsg
      . exact (Dest.agent.inj ha).symm
    . rw [State.playerLists_store htype hself]
      refine ⟨htype, ?_⟩
      intro type
      cases type with
      | player => exact ⟨State.exactly_turned hid hnodup hks .player false true,
          exactly_brief (State.exactly_turned hid hnodup hks .player true false)⟩
      | monster => exact ⟨State.exactly_turned hid hnodup hks .monster false true,
          exactly_brief (State.exactly_turned hid hnodup hks .monster true false)⟩

theorem MonsterMoved.informs {s1 : State Id Agent} {done : List Id} (hinv : Inv kind s)
    (hseen : Seen s) (hwf : obj.WF kind) (htype : obj.type = .monster)
    (hdone : ∀ k, k ∈ done ↔ (s.getView .monster obj.tempid k).isSome = true)
    (hmoved : MonsterMoved (s.store obj) obj.tempid obj done s1)
    (htells : MonsterTells (s.store obj) obj.tempid obj s1)
    : Informs s obj (s1.announce obj) := by
  have hid : ∀ k o, s.OBJ k = some o → o.tempid = k := fun k o h => (hinv.obj k o h).1
  have hplayer : ∀ k v, s.getView obj.type obj.tempid k = some v → kind k = .player := by
    intro k v hget
    rw [htype] at hget
    exact hinv.watcher obj.tempid k v hget
  have hself : s.getView obj.type obj.tempid obj.tempid = none := by
    cases hget : s.getView obj.type obj.tempid obj.tempid with
    | none => rfl
    | some v =>
      have := hplayer obj.tempid v hget
      rw [← hwf.type, htype] at this
      simp at this
  constructor
  . intro k v o hget hobj
    have hkind := hplayer k v hget
    have hk : k ≠ obj.tempid := by
      rintro rfl
      rw [hself] at hget
      simp at hget
    have hotype : o.type = .player := by rw [(hinv.obj k o hobj).2.1, hkind]
    rw [htype] at hget ⊢
    have hzone : (s.store obj).zone .monster obj.pos k = zone .monster obj.pos o :=
      State.zone_eq (by rw [State.store_obj, if_neg hk, hobj]) .monster obj.pos
    have hmem : k ∈ done := by
      rw [hdone, hget]
      rfl
    have hmine : (s1.announce obj).getView .monster obj.tempid k = zone .monster obj.pos o := by
      show s1.getView .monster obj.tempid k = _
      rw [hmoved.get, if_pos ⟨rfl, rfl, hmem⟩, hzone]
    have htheirs : (s1.announce obj).getView .player k obj.tempid = zone .monster obj.pos o := by
      show s1.getView .player k obj.tempid = _
      rw [hmoved.get, if_neg (by simp), hzone]
      split
      . rfl
      . next hsame =>
        have hflag : s.getView .monster obj.tempid k = zone .monster obj.pos o := by
          by_contra hdiff
          exact hsame ⟨rfl, rfl, hmem, hdiff⟩
        show s.getView .player k obj.tempid = _
        rw [hseen obj.tempid k v (by simp [hobj]) hget, ← hflag, hget]
    rw [hmine, hotype, htheirs]
    refine ⟨rfl, ?_⟩
    constructor
    . intro htrue
      simpa [near] using near_of_zone htrue
    . intro hdist
      apply zone_of_near
      simpa [near] using hdist
  . obtain ⟨ks, hnodup, hks, hsent⟩ := htells
    have hks : ∀ k, k ∈ ks ↔ (s.getView obj.type obj.tempid k).isSome = true := by
      rw [htype]
      exact hks
    have hreason : obj.reason = .updateviewmonster := by
      unfold Obj.reason
      rw [htype]
    have hturned : ∀ old new, ks.filterMap (s.pick obj.type obj.tempid obj.pos old new)
        = s.turned obj ks .player old new := by
      intro old new
      symm
      rw [State.turned, List.filter_eq_self]
      intro o ho
      obtain ⟨k, hobj, hget, -⟩ := (State.mem_picks hks).mp ho
      rw [decide_eq_true_iff, (hinv.obj k o hobj).2.1]
      exact hplayer k old hget
    have hlists : (s.store obj).monsterLists obj.tempid obj.pos ks
        = {
          leavelist := (s.turned obj ks .player true false).map Obj.brief
          enterlist := s.turned obj ks .player false true
          movelist := (s.turned obj ks .player true true).map Obj.agent
        } := by
      unfold State.monsterLists
      rw [← htype, State.pick_store hself, State.pick_store hself, State.pick_store hself,
        hturned, hturned, hturned]
    have hnone : ∀ k, s.turns obj .monster k = none := by
      intro k
      cases hturns : s.turns obj .monster k with
      | none => rfl
      | some turn =>
        obtain ⟨o, hobj, hotype, hget, -⟩ := State.turns_eq_some_iff.mp hturns
        rw [(hinv.obj k o hobj).2.1, hplayer k _ hget] at hotype
        simp at hotype
    refine ⟨_, [], .updateaoilistMonster obj.tempid (s.turned obj ks .player false true)
      ((s.turned obj ks .player true false).map Obj.brief), ?_,
      tellsPlayers hnodup hks (State.perm_note ks) ?_, ?_, htype, rfl, hnone,
      State.exactly_turned hid hnodup hks .player false true,
      exactly_brief (State.exactly_turned hid hnodup hks .player true false)⟩
    . show s1.sent = _
      rw [hsent, hlists, hreason]
      simp only [updateviewmonster.msgs, List.map_map, List.append_assoc, List.append_nil]
      rfl
    . intro msg hmsg a ha
      rw [List.nil_append, List.mem_singleton] at hmsg
      rw [hmsg] at ha
      exact (Dest.agent.inj ha).symm
    . refine Or.inl ⟨rfl, ?_⟩
      intro k old new hturns
      rw [hnone] at hturns
      simp at hturns

theorem enter_informs_of_inv (hinv : Inv kind s) (hsym : Symmetric s) (hint : Integrity s)
    (order : PairsOrder Id) (hwf : obj.WF kind) (hview : s.hasView obj.type obj.tempid = true)
    : ∃ s', enter order obj s = .ok () s' ∧ Informs s obj s' := by
  have hlive : (s.OBJ obj.tempid).isSome = true := by
    cases htype : obj.type with
    | player =>
      rw [htype] at hview
      rw [← hinv.player_view obj.tempid (by rw [← hwf.type, htype])]
      exact hview
    | monster =>
      rw [htype] at hview
      exact hinv.live obj.tempid hview
  have hresult := (enter_spec hinv order hwf).2
  generalize enter order obj s = result at hresult
  cases hresult with
  | fresh s' hnew hobj hget htexts hneed hsent =>
    rw [hnew] at hlive
    simp at hlive
  | player s1 hold htype hmoved => exact ⟨_, rfl, hmoved.informs hinv hwf htype⟩
  | unseen hold htype hunseen =>
    rw [htype, hunseen] at hview
    simp at hview
  | monster s1 done hold htype hdone _ hmoved htells =>
    exact ⟨_, rfl,
      hmoved.informs hinv ((symmetric_iff_seen hinv).mp hsym) hwf htype hdone htells⟩
  | raised s1 done hold htype hlost hdone hmoved hsent =>
    obtain ⟨k, hk, hnone⟩ := hlost
    have := hint obj.tempid k .monster hlive hk
    rw [hnone] at this
    simp at this

theorem enter_informs (kind : Id → CharType) (actions : List (Action Id Agent))
    (hwf : ∀ action ∈ actions, action.WF kind) (hsym : Symmetric (after actions))
    (hint : Integrity (after actions)) (order : PairsOrder Id) (obj : Obj Id Agent)
    (hobj : obj.WF kind) (hview : (after actions).hasView obj.type obj.tempid = true)
    : ∃ s', enter order obj (after actions) = .ok () s' ∧ Informs (after actions) obj s' :=
  enter_informs_of_inv (after_inv hwf) hsym hint order hobj hview

end

theorem meets_clean : Throughout (fun past action => CleanLeave (after past) action) meets := by
  intro past action rest heq
  have hmem : action ∈ meets := by
    rw [heq]
    simp
  simp only [meets, List.mem_cons, List.not_mem_nil, or_false] at hmem
  rcases hmem with rfl | rfl | rfl
  . trivial
  . trivial
  . trivial

theorem enter_informs_meets
    : (Symmetric (after meets) ∧ Integrity (after meets))
        ∧ ∃ s', enter (.inserted Nat) (sampleObj 1 1000) (after meets) = .ok () s'
          ∧ Informs (after meets) (sampleObj 1 1000) s' := by
  obtain ⟨hinv, hseen, hresidue⟩ := after_noResidue meets_wf meets_clean
  have hsym := (symmetric_iff_seen hinv).mpr hseen
  have hint := integrity_of_noResidue hinv hresidue
  exact ⟨⟨hsym, hint⟩, enter_informs sampleKind meets meets_wf hsym hint (.inserted Nat)
    (sampleObj 1 1000) ⟨rfl, rfl⟩ (by decide +kernel)⟩

end Aoi
