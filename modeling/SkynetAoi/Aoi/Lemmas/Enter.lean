import SkynetAoi.Aoi.Lemmas.MonsterWalk

/-!
This module contains what `enter` does, for an object that is new to the map and for one that has
moved.
-/

namespace Aoi

variable {Id Agent : Type} [DecidableEq Id] {kind : Id → CharType}

def updateviewplayer.msgs (p : Id) (myobj : Obj Id Agent) (lists : PlayerLists Id Agent)
    (info : List (Dest Agent × Msg Id Agent)) : List (Dest Agent × Msg Id Agent) :=
  let leaves : List (Dest Agent × Msg Id Agent) := lists.leavelist.playerlist.map fun v =>
    (.agent v.agent, .delaoiobj p .updateviewplayer)
  let enters : List (Dest Agent × Msg Id Agent) := lists.enterlist.playerlist.map fun v =>
    (.agent v.agent, .addaoiobj myobj .updateviewplayer)
  let moves : List (Dest Agent × Msg Id Agent) := lists.movelist.playerlist.map fun v =>
    (.agent v.agent, .updateaoiobj myobj)
  leaves ++ enters ++ moves ++ info
    ++ [(.agent myobj.agent, .updateaoilist lists.enterlist lists.leavelist)]

-- The monsters are told all at once, and only if there is something to tell.
def updateviewplayer.info (myobj : Obj Id Agent) (lists : PlayerLists Id Agent)
    : List (Dest Agent × Msg Id Agent) :=
  if !lists.leavelist.monsterlist.isEmpty || !lists.enterlist.monsterlist.isEmpty
      || !lists.movelist.monsterlist.isEmpty then
    [(.mapagent, .updateaoiinfo myobj lists.enterlist.monsterlist lists.leavelist.monsterlist
      lists.movelist.monsterlist)]
  else
    []

def State.playerLists (s : State Id Agent) (p : Id) (mypos : Point) (ks : List Id)
    : PlayerLists Id Agent where
  leavelist := Lists.sorted Obj.brief (ks.filterMap (s.pick .player p mypos true false))
  enterlist := Lists.sorted id (ks.filterMap (s.pick .player p mypos false true))
  movelist := Lists.sorted Obj.brief (ks.filterMap (s.pick .player p mypos true true))

structure PlayerMoved (kind : Id → CharType) (s : State Id Agent) (p : Id) (myobj : Obj Id Agent)
    (s' : State Id Agent) : Prop where
  obj : s'.OBJ = s.OBJ
  needUpdate : s'.needUpdate = s.needUpdate
  texts : s'.texts = s.texts
  hasView : ∀ (type : CharType) (c : Id), s'.hasView type c = s.hasView type c
  get : ∀ (type : CharType) (c d : Id), s'.getView type c d
    =
  if type = kind c ∧ c = p ∧ (s.getView .player p d).isSome then
    s.zone .player myobj.pos d
  else if type = kind c ∧ d = p ∧ (s.getView .player p c).isSome then
    s.zone .player myobj.pos c
  else
    s.getView type c d
  sent : ∃ (ks : List Id), ks.Nodup
    ∧ (∀ k, k ∈ ks ↔ (s.getView .player p k).isSome = true)
    ∧ s'.sent = s.sent
      ++ updateviewplayer.msgs p myobj (s.playerLists p myobj.pos ks)
        (updateviewplayer.info myobj (s.playerLists p myobj.pos ks))

theorem PlayerMoved.tells {s : State Id Agent} {p : Id} {myobj : Obj Id Agent} {s' : State Id Agent}
    (h : PlayerMoved kind s p myobj s')
    : ∃ (lists : PlayerLists Id Agent) (info : List (Dest Agent × Msg Id Agent)),
        (∀ msg ∈ info, msg.1 = .mapagent)
          ∧ s'.sent = s.sent ++ updateviewplayer.msgs p myobj lists info
          ∧ (∀ type o, o ∈ lists.enterlist.of type
              ↔
            ∃ k, s.OBJ k = some o
              ∧ o.type = type
              ∧ s.getView .player p k = some false
              ∧ near myobj.pos o = true)
          ∧ ∀ type b, b ∈ lists.leavelist.of type
              ↔
            ∃ k o, s.OBJ k = some o
              ∧ o.type = type
              ∧ s.getView .player p k = some true
              ∧ near myobj.pos o = false
              ∧ b = o.brief := by
  obtain ⟨ks, -, hks, hsent⟩ := h.sent
  refine ⟨_, _, ?_, hsent, ?_, ?_⟩
  . intro msg hmsg
    unfold updateviewplayer.info at hmsg
    split at hmsg
    . rw [List.mem_singleton] at hmsg
      rw [hmsg]
    . simp at hmsg
  . intro type o
    rw [State.playerLists, Lists.of_sorted, List.map_id, List.mem_filter, State.mem_picks hks,
      decide_eq_true_iff]
    constructor
    . rintro ⟨⟨k, hobj, hget, hnear⟩, htype⟩
      exact ⟨k, hobj, htype, hget, hnear⟩
    . rintro ⟨k, hobj, htype, hget, hnear⟩
      exact ⟨⟨k, hobj, hget, hnear⟩, htype⟩
  . intro type b
    rw [State.playerLists, Lists.of_sorted, List.mem_map]
    simp only [List.mem_filter, State.mem_picks hks, decide_eq_true_iff]
    constructor
    . rintro ⟨o, ⟨⟨k, hobj, hget, hnear⟩, htype⟩, rfl⟩
      exact ⟨k, o, hobj, htype, hget, hnear, rfl⟩
    . rintro ⟨k, o, hobj, htype, hget, hnear, rfl⟩
      exact ⟨o, ⟨⟨k, hobj, hget, hnear⟩, htype⟩, rfl⟩

theorem updateviewplayer_spec {s : State Id Agent} (hinv : Inv kind s) (order : PairsOrder Id) {p : Id}
    (hp : kind p = .player) {myobj : Obj Id Agent} (hobj : s.OBJ p = some myobj)
    : ∃ s', updateviewplayer order p s = .ok () s'
        ∧ Inv kind s'
        ∧ PlayerMoved kind s p myobj s' := by
  have hlive : (s.OBJ p).isSome = true := by
    rw [hobj]
    rfl
  have hview : s.hasView .player p = true := by
    rw [hinv.player_view p hp]
    exact hlive
  obtain ⟨view, hview⟩ := (State.hasView_iff s .player p).mp hview
  have hkeys : ∀ k, k ∈ order.arrange view.keys ↔ (s.getView .player p k).isSome = true := by
    intro k
    rw [(order.perm view.keys).mem_iff, State.mem_keys_iff hview, Option.isSome_iff_exists]
  obtain ⟨lists, s1, hwalk, hinv1, hw⟩ :=
    updateviewplayer.walk_spec myobj.pos (order.arrange view.keys) s
      ⟨⟨[], []⟩, ⟨[], []⟩, ⟨[], []⟩⟩ hinv hlive
      ((order.perm view.keys).nodup_iff.mpr view.keys_nodup)
      (by
        intro k hk
        rw [hkeys] at hk
        exact Option.isSome_iff_exists.mp hk)
  unfold updateviewplayer
  unfold State.views at hview
  dsimp only at hview
  rw [hview, hobj]
  dsimp only
  rw [hwalk]
  dsimp only
  have hlists : lists = s.playerLists p myobj.pos (order.arrange view.keys) := by
    rw [State.playerLists, ← Lists.eq_sorted hw.leave, ← Lists.eq_sorted hw.move,
      ← Lists.eq_sorted (f := id) (by simpa using hw.enter)]
  have hinfo : ∀ (s : State Id Agent),
      (if !lists.leavelist.monsterlist.isEmpty || !lists.enterlist.monsterlist.isEmpty
          || !lists.movelist.monsterlist.isEmpty then
        s.send .mapagent (.updateaoiinfo myobj lists.enterlist.monsterlist
          lists.leavelist.monsterlist lists.movelist.monsterlist)
      else
        s)
        = s.sendAll (updateviewplayer.info myobj lists) := by
    intro s
    unfold updateviewplayer.info
    split
    . rfl
    . simp [State.sendAll]
  rw [hinfo]
  simp only [State.send, State.sendAll, hw.rest.sent]
  refine ⟨_, rfl, ?_, ?_⟩
  . exact hinv1.congr rfl rfl rfl
  . refine ⟨hw.rest.obj, hw.rest.needUpdate, hw.rest.texts, hw.hasView, ?_,
      order.arrange view.keys, (order.perm view.keys).nodup_iff.mpr view.keys_nodup, hkeys, ?_⟩
    . intro type c d
      simp only [← hkeys]
      exact hw.get type c d
    . rw [← hlists]
      simp only [updateviewplayer.msgs, List.append_assoc]

structure MonsterMoved (s : State Id Agent) (m : Id) (myobj : Obj Id Agent) (done : List Id)
    (s' : State Id Agent) : Prop where
  obj : s'.OBJ = s.OBJ
  needUpdate : s'.needUpdate = s.needUpdate
  texts : s'.texts = s.texts
  hasView : ∀ (type : CharType) (c : Id), s'.hasView type c = s.hasView type c
  get : ∀ (type : CharType) (c d : Id), s'.getView type c d
    =
  if type = .monster ∧ c = m ∧ d ∈ done then
    s.zone .monster myobj.pos d
  else if type = .player ∧ d = m ∧ c ∈ done
      ∧ s.getView .monster m c ≠ s.zone .monster myobj.pos c then
    s.zone .monster myobj.pos c
  else
    s.getView type c d

def updateviewmonster.msgs (myobj : Obj Id Agent) (lists : MonsterLists Id Agent)
    : List (Dest Agent × Msg Id Agent) :=
  let leaves : List (Dest Agent × Msg Id Agent) := lists.leavelist.map fun v =>
    (.agent v.agent, .delaoiobj myobj.tempid .updateviewmonster)
  let enters : List (Dest Agent × Msg Id Agent) := lists.enterlist.map fun v =>
    (.agent v.agent, .addaoiobj myobj .updateviewmonster)
  let moves : List (Dest Agent × Msg Id Agent) := lists.movelist.map fun v =>
    (.agent v, .updateaoiobj myobj)
  leaves ++ enters ++ moves
    ++ [(.agent myobj.agent, .updateaoilistMonster myobj.tempid lists.enterlist lists.leavelist)]

def State.monsterLists (s : State Id Agent) (m : Id) (mypos : Point) (ks : List Id)
    : MonsterLists Id Agent where
  leavelist := (ks.filterMap (s.pick .monster m mypos true false)).map Obj.brief
  enterlist := ks.filterMap (s.pick .monster m mypos false true)
  movelist := (ks.filterMap (s.pick .monster m mypos true true)).map Obj.agent

def MonsterTells (s : State Id Agent) (m : Id) (myobj : Obj Id Agent) (s' : State Id Agent) : Prop :=
  ∃ (ks : List Id), ks.Nodup
    ∧ (∀ k, k ∈ ks ↔ (s.getView .monster m k).isSome = true)
    ∧ s'.sent = s.sent ++ updateviewmonster.msgs myobj (s.monsterLists m myobj.pos ks)

theorem MonsterTells.tells {s : State Id Agent} {m : Id} {myobj : Obj Id Agent}
    {s' : State Id Agent} (h : MonsterTells s m myobj s')
    : ∃ (lists : MonsterLists Id Agent), s'.sent = s.sent ++ updateviewmonster.msgs myobj lists
        ∧ (∀ o, o ∈ lists.enterlist
            ↔
          ∃ k, s.OBJ k = some o ∧ s.getView .monster m k = some false ∧ near myobj.pos o = true)
        ∧ ∀ b, b ∈ lists.leavelist
            ↔
          ∃ k o, s.OBJ k = some o
            ∧ s.getView .monster m k = some true
            ∧ near myobj.pos o = false
            ∧ b = o.brief := by
  obtain ⟨ks, -, hks, hsent⟩ := h
  refine ⟨_, hsent, ?_, ?_⟩
  . intro o
    exact State.mem_picks hks
  . intro b
    rw [State.monsterLists, List.mem_map]
    simp only [State.mem_picks hks]
    constructor
    . rintro ⟨o, ⟨k, hobj, hget, hnear⟩, rfl⟩
      exact ⟨k, o, hobj, hget, hnear, rfl⟩
    . rintro ⟨k, o, hobj, hget, hnear, rfl⟩
      exact ⟨o, ⟨k, hobj, hget, hnear⟩, rfl⟩

inductive MonsterResult (kind : Id → CharType) (s : State Id Agent) (m : Id) (myobj : Obj Id Agent)
    : Result Id Agent Unit → Prop where
  | unseen (hview : s.hasView .monster m = false) : MonsterResult kind s m myobj (.ok () s)
  | moved (s' : State Id Agent) (done : List Id)
      (hview : s.hasView .monster m = true)
      (hdone : ∀ k, k ∈ done ↔ (s.getView .monster m k).isSome = true)
      (hlive : ∀ k ∈ done, (s.OBJ k).isSome = true)
      (hmoved : MonsterMoved s m myobj done s')
      (htells : MonsterTells s m myobj s')
    : MonsterResult kind s m myobj (.ok () s')
  | raised (s' : State Id Agent) (done : List Id)
      (hlost : ∃ k, (s.getView .monster m k).isSome = true ∧ s.OBJ k = none)
      (hdone : ∀ k ∈ done, (s.getView .monster m k).isSome = true ∧ (s.OBJ k).isSome = true)
      (hmoved : MonsterMoved s m myobj done s')
      (hsent : s'.sent = s.sent)
    : MonsterResult kind s m myobj (.error .index s')

theorem updateviewmonster_spec {s : State Id Agent} (hinv : Inv kind s) (order : PairsOrder Id) {m : Id}
    {myobj : Obj Id Agent} (hobj : s.OBJ m = some myobj)
    : Inv kind (outcome (updateviewmonster order m s))
        ∧ MonsterResult kind s m myobj (updateviewmonster order m s) := by
  unfold updateviewmonster
  cases hview : s.monsterview m with
  | none =>
    refine ⟨hinv, .unseen ?_⟩
    simp [State.hasView, State.views, hview]
  | some view =>
    have hview' : s.views .monster m = some view := hview
    have hhas : s.hasView .monster m = true := (State.hasView_iff s .monster m).mpr ⟨view, hview'⟩
    have hkeys : ∀ k, k ∈ order.arrange view.keys ↔ (s.getView .monster m k).isSome = true := by
      intro k
      rw [(order.perm view.keys).mem_iff, State.mem_keys_iff hview', Option.isSome_iff_exists]
    rw [hobj]
    dsimp only
    obtain ⟨done, lists, s1, hinv1, hw, hcase⟩ :=
      updateviewmonster.walk_spec (m := m) myobj.pos (order.arrange view.keys) s ⟨[], [], []⟩
        hinv ((order.perm view.keys).nodup_iff.mpr view.keys_nodup)
        (by
          intro k hk
          rw [hkeys] at hk
          exact Option.isSome_iff_exists.mp hk)
    have hmoved : ∀ sent, MonsterMoved s m myobj done { s1 with sent := sent } := by
      intro sent
      exact ⟨hw.rest.obj, hw.rest.needUpdate, hw.rest.texts, hw.hasView, hw.get⟩
    rcases hcase with ⟨rfl, hall, hwalk⟩ | ⟨⟨k, hk, hnone⟩, hdone, hwalk⟩
    . have hlists : lists = s.monsterLists m myobj.pos (order.arrange view.keys) := by
        have hleave := hw.leave
        have henter := hw.enter
        have hmove := hw.move
        cases lists
        simp only [List.nil_append] at hleave henter hmove
        rw [State.monsterLists, hleave, henter, hmove]
      rw [hwalk]
      simp only [State.send, State.sendAll, hw.rest.sent]
      refine ⟨?_, .moved _ _ hhas hkeys hall (hmoved _) ?_⟩
      . exact hinv1.congr rfl rfl rfl
      . refine ⟨order.arrange view.keys, (order.perm view.keys).nodup_iff.mpr view.keys_nodup, hkeys,
          ?_⟩
        rw [← hlists]
        simp only [updateviewmonster.msgs, List.append_assoc]
    . rw [hwalk]
      refine ⟨hinv1, .raised s1 done ⟨k, (hkeys k).mp hk, hnone⟩ ?_ (hmoved s1.sent) hw.rest.sent⟩
      intro j hj
      have := hdone j hj
      rw [hkeys] at this
      exact this

def State.store (s : State Id Agent) (obj : Obj Id Agent) : State Id Agent :=
  { s with OBJ := Function.update s.OBJ obj.tempid (some obj) }

def State.announce (s : State Id Agent) (obj : Obj Id Agent) : State Id Agent :=
  { s with
    texts := s.texts ++ [.update obj.tempid obj.mode (scaled obj.pos)]
    needUpdate := true
  }

theorem State.store_obj (s : State Id Agent) (obj : Obj Id Agent) (a : Id)
    : (s.store obj).OBJ a = if a = obj.tempid then some obj else s.OBJ a := by
  unfold State.store
  dsimp only
  rw [Function.update_apply]

theorem Inv.store {s : State Id Agent} (h : Inv kind s) {obj : Obj Id Agent} (hwf : obj.WF kind)
    (hold : (s.OBJ obj.tempid).isSome = true) : Inv kind (s.store obj) := by
  have hsome : ∀ a, ((s.store obj).OBJ a).isSome = (s.OBJ a).isSome := by
    intro a
    rw [State.store_obj]
    split
    . next heq =>
      rw [heq, hold]
      rfl
    . rfl
  constructor
  . intro a o ho
    rw [State.store_obj] at ho
    split at ho
    . next heq =>
      rw [Option.some.injEq] at ho
      rw [← ho, heq]
      exact ⟨rfl, hwf.type, by rw [hwf.mode, hwf.type]⟩
    . exact h.obj a o ho
  . intro a ha
    rw [hsome]
    exact h.player_view a ha
  . intro a ha hobj
    rw [hsome] at hobj
    exact h.monster_view a ha hobj
  . exact h.empty
  . exact h.no_monster_view
  . intro a ha
    rw [hsome]
    exact h.live a ha
  . intro p k v hget
    rw [hsome]
    exact h.mirror p k v hget
  . exact h.watcher

inductive EnterResult (kind : Id → CharType) (s : State Id Agent) (obj : Obj Id Agent)
    : Result Id Agent Unit → Prop where
  | fresh (s' : State Id Agent)
      (hnew : s.OBJ obj.tempid = none)
      (hobj : s'.OBJ = (s.store obj).OBJ)
      (hget : ∀ type c d, s'.getView type c d = s.getView type c d)
      (htexts : s'.texts = s.texts ++ [.update obj.tempid obj.mode (scaled obj.pos)])
      (hneed : s'.needUpdate = true)
      (hsent : s'.sent = s.sent)
    : EnterResult kind s obj (.ok () s')
  | player (s1 : State Id Agent)
      (hold : (s.OBJ obj.tempid).isSome = true)
      (htype : obj.type = .player)
      (hmoved : PlayerMoved kind (s.store obj) obj.tempid obj s1)
    : EnterResult kind s obj (.ok () (s1.announce obj))
  | unseen
      (hold : (s.OBJ obj.tempid).isSome = true)
      (htype : obj.type = .monster)
      (hview : s.hasView .monster obj.tempid = false)
    : EnterResult kind s obj (.ok () ((s.store obj).announce obj))
  | monster (s1 : State Id Agent) (done : List Id)
      (hold : (s.OBJ obj.tempid).isSome = true)
      (htype : obj.type = .monster)
      (hdone : ∀ k, k ∈ done ↔ (s.getView .monster obj.tempid k).isSome = true)
      (hlive : ∀ k ∈ done, ((s.store obj).OBJ k).isSome = true)
      (hmoved : MonsterMoved (s.store obj) obj.tempid obj done s1)
      (htells : MonsterTells (s.store obj) obj.tempid obj s1)
    : EnterResult kind s obj (.ok () (s1.announce obj))
  | raised (s1 : State Id Agent) (done : List Id)
      (hold : (s.OBJ obj.tempid).isSome = true)
      (htype : obj.type = .monster)
      (hlost : ∃ k, (s.getView .monster obj.tempid k).isSome = true ∧ s.OBJ k = none)
      (hdone : ∀ k ∈ done, (s.getView .monster obj.tempid k).isSome = true
        ∧ ((s.store obj).OBJ k).isSome = true)
      (hmoved : MonsterMoved (s.store obj) obj.tempid obj done s1)
      (hsent : s1.sent = s.sent)
    : EnterResult kind s obj (.error .index s1)

theorem EnterResult.obj {s : State Id Agent} {obj : Obj Id Agent} {result : Result Id Agent Unit}
    (h : EnterResult kind s obj result) : (outcome result).OBJ = (s.store obj).OBJ := by
  cases h with
  | fresh s' hnew hobj hget htexts hneed hsent => exact hobj
  | player s1 hold htype hmoved => exact hmoved.obj
  | unseen hold htype hview => rfl
  | monster s1 done hold htype hdone hlive hmoved htells => exact hmoved.obj
  | raised s1 done hold htype hlost hdone hmoved hsent => exact hmoved.obj

theorem EnterResult.texts_cases {s : State Id Agent} {obj : Obj Id Agent}
    {result : Result Id Agent Unit} (h : EnterResult kind s obj result)
    : (outcome result).texts = s.texts ++ [.update obj.tempid obj.mode (scaled obj.pos)]
        ∨ (outcome result).texts = s.texts ∧ ∃ s', result = .error .index s' := by
  have hannounce : ∀ s1 : State Id Agent, s1.texts = s.texts →
      (s1.announce obj).texts = s.texts ++ [.update obj.tempid obj.mode (scaled obj.pos)] := by
    intro s1 h1
    unfold State.announce
    rw [h1]
  cases h with
  | fresh s' hnew hobj hget htexts hneed hsent => exact .inl htexts
  | player s1 hold htype hmoved => exact .inl (hannounce s1 hmoved.texts)
  | unseen hold htype hview => exact .inl (hannounce (s.store obj) rfl)
  | monster s1 done hold htype hdone hlive hmoved htells => exact .inl (hannounce s1 hmoved.texts)
  | raised s1 done hold htype hlost hdone hmoved hsent => exact .inr ⟨hmoved.texts, s1, rfl⟩

theorem enter_fresh {s : State Id Agent} (hinv : Inv kind s) (order : PairsOrder Id) {obj : Obj Id Agent}
    (hwf : obj.WF kind) (hnew : s.OBJ obj.tempid = none)
    : Inv kind (outcome (enter order obj s)) ∧ EnterResult kind s obj (enter order obj s) := by
  have hmonster : s.hasView .monster obj.tempid = false := by
    cases h : s.hasView .monster obj.tempid with
    | false => rfl
    | true =>
      have := hinv.live _ h
      rw [hnew] at this
      simp at this
  have hupdateview : (if obj.type ≠ .player then updateviewmonster order obj.tempid (s.store obj)
      else updateviewplayer order obj.tempid (s.store obj)) = .ok () (s.store obj) := by
    split
    . unfold updateviewmonster
      have : (s.store obj).monsterview obj.tempid = none := by
        simpa [State.hasView, State.views, State.store] using hmonster
      rw [this]
    . next htype =>
      rw [not_not] at htype
      unfold updateviewplayer
      have : (s.store obj).playerview obj.tempid = none := by
        have hview := hinv.player_view obj.tempid (by rw [← hwf.type, htype])
        rw [hnew] at hview
        simpa [State.hasView, State.views, State.store] using hview
      rw [this]
  obtain ⟨s1, hs1, hrest, hhas, hget⟩ : ∃ s1,
      enter.openView (s.store obj) obj.tempid = s1
        ∧ State.SameRest (s.store obj) s1
        ∧ (∀ type c, s1.hasView type c
          = (s.hasView type c || decide (type = .player ∧ c = obj.tempid)))
        ∧ ∀ type c d, s1.getView type c d = s.getView type c d := by
    refine ⟨_, rfl, ?_⟩
    unfold enter.openView
    cases hview : (s.store obj).playerview obj.tempid with
    | some view =>
      refine ⟨State.SameRest.refl _, ?_, fun _ _ _ => rfl⟩
      intro type c
      by_cases h : type = .player ∧ c = obj.tempid
      . have : s.hasView type c = true := by
          rw [h.1, h.2, State.hasView_iff]
          exact ⟨view, hview⟩
        simp only [this, Bool.true_or]
        exact this
      . simp only [h, decide_false, Bool.or_false]
        rfl
    | none =>
      have hnone : s.playerview obj.tempid = none := hview
      refine ⟨State.setTable_sameRest _ _ _ _, ?_, ?_⟩
      . intro type c
        rw [State.hasView_setTable]
        split
        . next h => simp [h]
        . next h =>
          simp only [h, decide_false, Bool.or_false]
          rfl
      . intro type c d
        rw [State.getView_setTable]
        split
        . next h =>
          rw [h.1, h.2]
          simp [State.getView, State.views, hnone]
        . rfl
  have henter : enter order obj s = .ok () (s1.announce obj) := by
    unfold enter
    dsimp only
    rw [show ({ s with OBJ := Function.update s.OBJ obj.tempid (some obj) } : State Id Agent)
      = s.store obj from rfl, hupdateview]
    dsimp only
    rw [hs1]
    rfl
  rw [henter]
  refine ⟨?_, .fresh (s1.announce obj) hnew hrest.obj hget ?_ rfl hrest.sent⟩
  . have hinv1 : Inv kind s1 := by
      have hobj : ∀ a, (s1.OBJ a).isSome = ((s.OBJ a).isSome || decide (a = obj.tempid)) := by
        intro a
        rw [hrest.obj, State.store_obj]
        split
        . next h => simp [h]
        . next h => simp [h]
      constructor
      . intro a o ho
        rw [hrest.obj, State.store_obj] at ho
        split at ho
        . next heq =>
          rw [Option.some.injEq] at ho
          rw [← ho, heq]
          exact ⟨rfl, hwf.type, by rw [hwf.mode, hwf.type]⟩
        . exact hinv.obj a o ho
      . intro a ha
        rw [hhas, hobj, hinv.player_view a ha]
        simp
      . intro a ha hlive
        rw [hhas]
        rw [hobj] at hlive
        by_cases heq : a = obj.tempid
        . simp [heq]
        . simp only [heq, decide_false, Bool.or_false] at hlive
          rw [hinv.monster_view a ha hlive]
          rfl
      . intro a k ha
        rw [hget]
        exact hinv.empty a k ha
      . intro a ha
        rw [hhas, hinv.no_monster_view a ha]
        simp
      . intro a ha
        rw [hhas] at ha
        simp only [reduceCtorEq, false_and, decide_false, Bool.or_false] at ha
        rw [hobj, hinv.live a ha]
        rfl
      . intro p k v hv
        rw [hget] at hv
        rw [hget, hobj]
        obtain ⟨hne, hlive, hmirror⟩ := hinv.mirror p k v hv
        refine ⟨hne, ?_, hmirror⟩
        rw [hlive]
        rfl
      . intro a k v hv
        rw [hget] at hv
        exact hinv.watcher a k v hv
    exact hinv1.congr rfl rfl rfl
  . unfold State.announce
    dsimp only
    rw [hrest.texts]
    rfl

theorem enter_spec {s : State Id Agent} (hinv : Inv kind s) (order : PairsOrder Id) {obj : Obj Id Agent}
    (hwf : obj.WF kind)
    : Inv kind (outcome (enter order obj s)) ∧ EnterResult kind s obj (enter order obj s) := by
  cases hold : s.OBJ obj.tempid with
  | none => exact enter_fresh hinv order hwf hold
  | some old =>
    have hsome : (s.OBJ obj.tempid).isSome = true := by
      rw [hold]
      rfl
    have hinv0 := hinv.store hwf hsome
    have hobj0 : (s.store obj).OBJ obj.tempid = some obj := by
      rw [State.store_obj]
      simp
    have hfinish : ∀ s1 : State Id Agent, (∀ type c, s1.hasView type c = s.hasView type c) →
        enter.openView s1 obj.tempid = s1 := by
      intro s1 hhas
      have hview : s1.hasView .player obj.tempid = true := by
        rw [hhas]
        cases hkind : kind obj.tempid with
        | player =>
          rw [hinv.player_view _ hkind]
          exact hsome
        | monster => exact hinv.monster_view _ hkind hsome
      obtain ⟨view, hview⟩ := (State.hasView_iff s1 .player obj.tempid).mp hview
      have : s1.playerview obj.tempid = some view := hview
      unfold enter.openView
      rw [this]
    unfold enter
    dsimp only
    rw [show ({ s with OBJ := Function.update s.OBJ obj.tempid (some obj) } : State Id Agent)
      = s.store obj from rfl]
    cases htype : obj.type with
    | player =>
      obtain ⟨s1, hupdate, hinv1, hmoved⟩ :=
        updateviewplayer_spec hinv0 order (by rw [← hwf.type, htype]) hobj0
      simp only [ne_eq, not_true_eq_false, ↓reduceIte]
      rw [hupdate]
      dsimp only
      rw [hfinish s1 hmoved.hasView]
      exact ⟨hinv1.congr rfl rfl rfl, .player s1 hsome htype hmoved⟩
    | monster =>
      obtain ⟨hinv1, hresult⟩ := updateviewmonster_spec hinv0 order hobj0
      simp only [ne_eq, reduceCtorEq, not_false_eq_true, ↓reduceIte]
      generalize updateviewmonster order obj.tempid (s.store obj) = result at hinv1 hresult
      cases hresult with
      | unseen hview =>
        dsimp only
        rw [hfinish (s.store obj) (fun _ _ => rfl)]
        exact ⟨hinv1.congr rfl rfl rfl, .unseen hsome htype hview⟩
      | moved s1 done hview hdone hlive hmoved htells =>
        dsimp only
        rw [hfinish s1 hmoved.hasView]
        exact ⟨hinv1.congr rfl rfl rfl, .monster s1 done hsome htype hdone hlive hmoved htells⟩
      | raised s1 done hlost hdone hmoved hsent =>
        dsimp only
        refine ⟨hinv1, .raised s1 done hsome htype ?_ hdone hmoved hsent⟩
        obtain ⟨k, hk, hnone⟩ := hlost
        refine ⟨k, hk, ?_⟩
        rw [State.store_obj] at hnone
        split at hnone
        . simp at hnone
        . exact hnone

end Aoi
