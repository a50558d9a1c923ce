import SkynetAoi.Client.Basic

/-!
This module contains when `on_game_message` does with a message that has been unpacked what it is
meant for. It raises on an object that comes into view by a list.
-/

namespace Client

open Python

def idKey (tempid : Int) : Key := .number tempid

def keys (balls : Balls) : Set Key := {k | balls k ≠ none}

def expected {α : Type} (known : Set Key) (msg : Msg α) : Set Key :=
  match msg with
  | .updateaoiobj _ => known
  | .delaoiobj tempid _ => known \ {idKey tempid}
  | .addaoiobj obj _ => insert (idKey obj.tempid) known
  | .updateaoilist enterlist leavelist =>
    (known ∪ {k | ∃ obj ∈ enterlist.playerlist ++ enterlist.monsterlist, k = idKey obj.tempid})
      \ {k | ∃ brief ∈ leavelist.playerlist ++ leavelist.monsterlist, k = idKey brief.tempid}

def Positioned (pos x y : Value) : Prop :=
  pos.index Field.x = .ok x ∧ pos.index Field.y = .ok y

def Placeable (obj : Obj Value) : Prop :=
  ∃ x y, Positioned obj.pos x y ∧ x.isNumber = true ∧ y.isNumber = true

def process (host : Host) (msg : Msg Value) (page : GamePage) : EStateM.Result Raise GamePage Unit :=
  match sendPackage Value.builder msg with
  | none => .ok () page
  | some cmd => onGameMessage.process host cmd page

def Processed (host : Host) (msg : Msg Value) (page : GamePage) : Prop :=
  ∃ page', process host msg page = .ok () page'
    ∧ keys page'.balls = expected (keys page.balls) msg
    ∧ ∀ obj, msg = .updateaoiobj obj → ∀ ball, page.balls (idKey obj.tempid) = some ball →
      ∃ ball', page'.balls (idKey obj.tempid) = some ball' ∧ Positioned obj.pos ball'.x ball'.y

/--
Nothing new comes by a list, and what is read of the other messages is there.
-/
def Usable (known : Set Key) (msg : Msg Value) : Prop :=
  match msg with
  | .updateaoiobj obj => idKey obj.tempid ∈ known → ∃ x y, Positioned obj.pos x y
  | .delaoiobj _ reason => reason ≠ none
  | .addaoiobj obj reason => idKey obj.tempid ∉ known → reason ≠ none ∧ Placeable obj
  | .updateaoilist enterlist _ =>
    ∀ obj ∈ enterlist.playerlist ++ enterlist.monsterlist, idKey obj.tempid ∈ known

theorem createEnemy_spec (host : Host) (x y id tp color d : Value)
    : (∃ ball, createEnemy host x y id tp color d = .ok ball)
        ↔ x.isNumber = true ∧ y.isNumber = true := by
  unfold createEnemy
  cases hx : x.isNumber with
  | false => simp [Value.sub_of_not_isNumber hx, bind, Except.bind]
  | true =>
    obtain ⟨dx, hdx⟩ := Value.sub_of_isNumber hx host.x
    cases hy : y.isNumber with
    | false => simp [hdx, Value.sub_of_not_isNumber hy, bind, Except.bind]
    | true =>
      obtain ⟨dy, hdy⟩ := Value.sub_of_isNumber hy host.y
      simp [hdx, hdy, bind, Except.bind, pure, Except.pure]

theorem getOrNone_value (obj : Obj Value) (key : List Char)
    : ∃ v, (obj.value Value.builder).getOrNone key = .ok v :=
  Value.getOrNone_dict _ key

def movementValue (obj : Obj Value) : Value :=
  .dict [(Field.mode, .str obj.mode), (Field.pos, obj.pos)]

theorem newBall_spec (host : Host) (obj : Obj Value) (tempid tp : Value)
    : (∃ ball, newBall host (.ok (obj.value Value.builder)) (obj.value Value.builder) tempid
          (movementValue obj) tp = .ok ball)
        ↔ Placeable obj := by
  obtain ⟨c, hc⟩ := getOrNone_value obj Field.colors
  obtain ⟨d, hd⟩ := getOrNone_value obj Field.dir
  have hpos : (movementValue obj).index Field.pos = .ok obj.pos := rfl
  unfold newBall Placeable Positioned
  simp only [hc, hd, hpos, bind, Except.bind]
  cases hx : obj.pos.index Field.x with
  | error e => simp
  | ok x =>
    cases hy : obj.pos.index Field.y with
    | error e => simp
    | ok y =>
      dsimp only
      rw [createEnemy_spec]
      simp

theorem not_mem_keys {balls : Balls} {k : Key} (h : k ∉ keys balls) : balls k = none := by
  simpa [keys] using h

theorem mem_keys {balls : Balls} {k : Key} (h : k ∈ keys balls) : ∃ ball, balls k = some ball :=
  Option.ne_none_iff_exists'.mp h

theorem keys_update_some (balls : Balls) (k : Key) (ball : Ball)
    : keys (Function.update balls k (some ball)) = insert k (keys balls) := by
  ext k'
  by_cases h : k' = k
  . simp [keys, h]
  . simp [keys, h]

theorem keys_update_none (balls : Balls) (k : Key)
    : keys (Function.update balls k none) = keys balls \ {k} := by
  ext k'
  by_cases h : k' = k
  . simp [keys, h]
  . simp [keys, h]

namespace addaoiobj

variable (host : Host) (obj : Obj Value) (reason : Option (List Char)) (balls : Balls)

def cmd : Value :=
  package Value.builder Word.addaoiobj
    ((Field.obj, obj.value Value.builder) :: reasonField Value.builder reason)

theorem eq_ite
    : addaoiobj host (cmd obj reason) balls
        = if (balls (idKey obj.tempid)).isNone then
            match reason with
            | none => .error (.keyError Field.reason)
            | some _ =>
              (newBall host (.ok (obj.value Value.builder)) (obj.value Value.builder)
                (.number obj.tempid) (movementValue obj) (.number obj.type)).map fun ball =>
                  Function.update balls (idKey obj.tempid) (some ball)
          else
            .ok balls := by
  cases reason with
  | none => rfl
  | some s => rfl

theorem of_known (h : idKey obj.tempid ∈ keys balls)
    : addaoiobj host (cmd obj reason) balls = .ok balls := by
  rw [eq_ite, if_neg]
  simpa [keys] using h

theorem of_unknown (h : idKey obj.tempid ∉ keys balls)
    : (∃ ball, addaoiobj host (cmd obj reason) balls
          = .ok (Function.update balls (idKey obj.tempid) (some ball)))
        ∧ reason ≠ none ∧ Placeable obj
      ∨ (∃ e, addaoiobj host (cmd obj reason) balls = .error e)
        ∧ ¬(reason ≠ none ∧ Placeable obj) := by
  rw [eq_ite, if_pos (by simp [not_mem_keys h])]
  cases reason with
  | none => simp
  | some s =>
    have hspec := newBall_spec host obj (.number obj.tempid) (.number obj.type)
    cases hball : newBall host (.ok (obj.value Value.builder)) (obj.value Value.builder)
      (.number obj.tempid) (movementValue obj) (.number obj.type) with
    | ok ball =>
      left
      refine ⟨⟨ball, rfl⟩, by simp, ?_⟩
      exact hspec.mp ⟨ball, hball⟩
    | error e =>
      right
      refine ⟨⟨e, rfl⟩, ?_⟩
      rintro ⟨-, hplaceable⟩
      obtain ⟨ball, hok⟩ := hspec.mpr hplaceable
      rw [hball] at hok
      cases hok

end addaoiobj

namespace updateaoiobj

variable (obj : Obj Value) (balls : Balls)

def cmd : Value := package Value.builder Word.updateaoiobj [(Field.obj, obj.value Value.builder)]

theorem eq_match
    : updateaoiobj (cmd obj) balls
        = match balls (idKey obj.tempid) with
          | none => .ok () balls
          | some ball =>
            assign (obj.value Value.builder) (movementValue obj) (idKey obj.tempid) ball balls := rfl

theorem of_unknown (h : idKey obj.tempid ∉ keys balls)
    : updateaoiobj (cmd obj) balls = .ok () balls := by
  rw [eq_match, not_mem_keys h]

theorem assign_spec (key : Key) (ball : Ball)
    : (∃ ball', assign (obj.value Value.builder) (movementValue obj) key ball balls
          = .ok () (Function.update balls key (some ball')) ∧ Positioned obj.pos ball'.x ball'.y)
      ∨ (∃ e balls', assign (obj.value Value.builder) (movementValue obj) key ball balls
          = .error e balls')
        ∧ ¬∃ x y, Positioned obj.pos x y := by
  have hpos : (movementValue obj).index Field.pos = .ok obj.pos := rfl
  unfold assign Positioned
  simp only [hpos, Except.bind]
  cases hx : obj.pos.index Field.x with
  | error e => simp
  | ok x =>
    cases hy : obj.pos.index Field.y with
    | error e => simp
    | ok y =>
      left
      dsimp only
      obtain ⟨found, hfound⟩
          : ∃ found, (obj.value Value.builder).contains Field.dir = .ok found := ⟨_, rfl⟩
      rw [hfound]
      cases found with
      | false => exact ⟨{ ball with x := x, y := y }, by simp, rfl, rfl⟩
      | true =>
        obtain ⟨d, hd⟩ : ∃ d, (obj.value Value.builder).index Field.dir = .ok d :=
          Value.index_of_contains hfound
        simp only [hd]
        exact ⟨{ ball with x := x, y := y, dir := d }, by simp, rfl, rfl⟩

theorem of_known (h : idKey obj.tempid ∈ keys balls)
    : (∃ ball', updateaoiobj (cmd obj) balls
          = .ok () (Function.update balls (idKey obj.tempid) (some ball'))
        ∧ Positioned obj.pos ball'.x ball'.y)
      ∨ (∃ e balls', updateaoiobj (cmd obj) balls = .error e balls')
        ∧ ¬∃ x y, Positioned obj.pos x y := by
  obtain ⟨ball, hball⟩ := mem_keys h
  rw [eq_match, hball]
  exact assign_spec obj balls (idKey obj.tempid) ball

end updateaoiobj

namespace updateaoilist

variable (host : Host) (enterlist : Aoi.Lists (Obj Value)) (leavelist : Aoi.Lists Brief)

def cmd : Value :=
  package Value.builder Word.updateaoilist [
    (Field.enterlist, listsValue Value.builder (Obj.value Value.builder) enterlist),
    (Field.leavelist, listsValue Value.builder (briefValue Value.builder) leavelist)
  ]

def entered : List (Obj Value) := enterlist.playerlist ++ enterlist.monsterlist

def left : List Brief := leavelist.playerlist ++ leavelist.monsterlist

theorem eq_match (balls : Balls)
    : updateaoilist host (cmd enterlist leavelist) balls
        = match forObjs (enter host (cmd enterlist leavelist))
            ((entered enterlist).map (Obj.value Value.builder)) balls with
          | .error e balls => .error e balls
          | .ok () balls => forObjs leave ((left leavelist).map (briefValue Value.builder)) balls := by
  unfold entered left
  rw [List.map_append, List.map_append]
  rfl

theorem enter_eq (obj : Obj Value) (balls : Balls)
    : enter host (cmd enterlist leavelist) (obj.value Value.builder) balls
        = if (balls (idKey obj.tempid)).isNone then
            .error (.keyError Field.obj)
          else
            .ok balls := rfl

theorem forObjs_enter (objs : List (Obj Value)) (balls : Balls)
    : (∀ obj ∈ objs, idKey obj.tempid ∈ keys balls)
        ∧ forObjs (enter host (cmd enterlist leavelist)) (objs.map (Obj.value Value.builder)) balls
          = .ok () balls
      ∨ (¬∀ obj ∈ objs, idKey obj.tempid ∈ keys balls)
        ∧ forObjs (enter host (cmd enterlist leavelist)) (objs.map (Obj.value Value.builder)) balls
          = .error (.keyError Field.obj) balls := by
  induction objs with
  | nil => exact .inl ⟨by simp, rfl⟩
  | cons obj objs ih =>
    rw [List.map_cons, forObjs, enter_eq]
    by_cases hobj : idKey obj.tempid ∈ keys balls
    . obtain ⟨ball, hball⟩ := mem_keys hobj
      simpa [hball, hobj] using ih
    . right
      simp [not_mem_keys hobj, hobj]

theorem forObjs_leave (briefs : List Brief) (balls : Balls)
    : ∃ balls', forObjs leave (briefs.map (briefValue Value.builder)) balls = .ok () balls'
        ∧ keys balls' = keys balls \ {k | ∃ brief ∈ briefs, k = idKey brief.tempid} := by
  induction briefs generalizing balls with
  | nil => exact ⟨balls, rfl, by simp⟩
  | cons brief briefs ih =>
    have hleave : leave (briefValue Value.builder brief) balls
        = .ok (Function.update balls (idKey brief.tempid) none) := rfl
    obtain ⟨balls', hballs', hkeys⟩ := ih (Function.update balls (idKey brief.tempid) none)
    refine ⟨balls', by rw [List.map_cons, forObjs, hleave]; exact hballs', ?_⟩
    rw [hkeys, keys_update_none]
    ext k
    simp only [Set.mem_sdiff, Set.mem_singleton_iff, Set.mem_ofPred_eq, List.mem_cons,
      exists_eq_or_imp, not_or, and_assoc]

theorem spec (balls : Balls)
    : (∀ obj ∈ entered enterlist, idKey obj.tempid ∈ keys balls)
        ∧ (∃ balls', updateaoilist host (cmd enterlist leavelist) balls = .ok () balls'
          ∧ keys balls'
            = keys balls \ {k | ∃ brief ∈ left leavelist, k = idKey brief.tempid})
      ∨ (¬∀ obj ∈ entered enterlist, idKey obj.tempid ∈ keys balls)
        ∧ updateaoilist host (cmd enterlist leavelist) balls
          = .error (.keyError Field.obj) balls := by
  rw [eq_match]
  rcases forObjs_enter host enterlist leavelist (entered enterlist) balls with
    ⟨hknown, henter⟩ | ⟨hknown, henter⟩
  . rw [henter]
    exact .inl ⟨hknown, forObjs_leave (left leavelist) balls⟩
  . rw [henter]
    exact .inr ⟨hknown, rfl⟩

end updateaoilist

namespace delaoiobj

variable (tempid : Int) (reason : Option (List Char)) (balls : Balls)

def cmd : Value :=
  package Value.builder Word.delaoiobj
    ((Field.tempid, .number tempid) :: reasonField Value.builder reason)

theorem eq_match
    : delaoiobj (cmd tempid reason) balls
        = match reason with
          | none => .error (.keyError Field.reason)
          | some _ => .ok (Function.update balls (idKey tempid) none) := by
  cases reason with
  | none => rfl
  | some s => rfl

end delaoiobj

theorem process_updateaoilist (host : Host) (enterlist : Aoi.Lists (Obj Value))
    (leavelist : Aoi.Lists Brief) (page : GamePage)
    (h : updateaoilist.entered enterlist ≠ [] ∨ updateaoilist.left leavelist ≠ [])
    : process host (.updateaoilist enterlist leavelist) page
        = page.result (updateaoilist host (updateaoilist.cmd enterlist leavelist) page.balls) := by
  have hsend : sendPackage Value.builder (.updateaoilist enterlist leavelist)
      = some (updateaoilist.cmd enterlist leavelist) := by
    apply if_pos
    simp only [updateaoilist.entered, updateaoilist.left, ne_eq, ← List.length_eq_zero_iff,
      List.length_append] at h
    simp only [gt_iff_lt, Bool.or_eq_true, decide_eq_true_eq]
    omega
  unfold process
  rw [hsend]
  rfl

theorem process_nothing (host : Host) (enterlist : Aoi.Lists (Obj Value))
    (leavelist : Aoi.Lists Brief) (page : GamePage)
    (henter : updateaoilist.entered enterlist = []) (hleave : updateaoilist.left leavelist = [])
    : process host (.updateaoilist enterlist leavelist) page = .ok () page := by
  unfold updateaoilist.entered at henter
  unfold updateaoilist.left at hleave
  rw [List.append_eq_nil_iff] at henter hleave
  simp [process, sendPackage, henter.1, henter.2, hleave.1, hleave.2]

section

variable (host : Host) (page : GamePage)

theorem not_processed_of_error {msg : Msg Value} {e : Raise} {page' : GamePage}
    (h : process host msg page = .error e page')
    : ¬Processed host msg page := by
  rintro ⟨page'', hok, -⟩
  rw [h] at hok
  cases hok

theorem processed_of_ok {msg : Msg Value} {page' : GamePage} (h : process host msg page = .ok () page')
    (hmsg : ∀ obj, msg ≠ .updateaoiobj obj)
    (hkeys : keys page'.balls = expected (keys page.balls) msg)
    : Processed host msg page := by
  refine ⟨page', h, hkeys, ?_⟩
  intro obj hobj
  exact absurd hobj (hmsg obj)

theorem processed_updateaoiobj (obj : Obj Value)
    : Processed host (.updateaoiobj obj) page ↔ Usable (keys page.balls) (.updateaoiobj obj) := by
  have hprocess : process host (.updateaoiobj obj) page
      = page.result (updateaoiobj (updateaoiobj.cmd obj) page.balls) := rfl
  by_cases hknown : idKey obj.tempid ∈ keys page.balls
  . rcases updateaoiobj.of_known obj page.balls hknown with
      ⟨ball', hok, hposition⟩ | ⟨⟨e, balls', herror⟩, hposition⟩
    . rw [hok] at hprocess
      constructor
      . intro _ _
        exact ⟨_, _, hposition⟩
      . intro _
        refine ⟨_, hprocess, ?_, ?_⟩
        . rw [keys_update_some, Set.insert_eq_of_mem hknown]
          rfl
        . intro obj' hobj' ball hball
          cases hobj'
          exact ⟨ball', by simp, hposition⟩
    . rw [herror] at hprocess
      constructor
      . intro h
        exact absurd h (not_processed_of_error host page hprocess)
      . intro h
        exact absurd (h hknown) hposition
  . rw [updateaoiobj.of_unknown obj page.balls hknown] at hprocess
    constructor
    . intro _ h
      exact absurd h hknown
    . intro _
      refine ⟨page, hprocess, rfl, ?_⟩
      intro obj' hobj' ball hball
      cases hobj'
      rw [not_mem_keys hknown] at hball
      cases hball

theorem processed_delaoiobj (tempid : Int) (reason : Option (List Char))
    : Processed host (.delaoiobj tempid reason) page
        ↔
      Usable (keys page.balls) (.delaoiobj tempid reason) := by
  have hprocess : process host (.delaoiobj tempid reason) page
      = page.read (delaoiobj (delaoiobj.cmd tempid reason) page.balls) := rfl
  rw [delaoiobj.eq_match] at hprocess
  cases reason with
  | none =>
    constructor
    . intro h
      exact absurd h (not_processed_of_error host page hprocess)
    . intro h
      exact absurd rfl h
  | some s =>
    constructor
    . intro _
      simp [Usable]
    . intro _
      exact processed_of_ok host page hprocess (by simp) (keys_update_none _ _)

theorem processed_addaoiobj (obj : Obj Value) (reason : Option (List Char))
    : Processed host (.addaoiobj obj reason) page
        ↔
      Usable (keys page.balls) (.addaoiobj obj reason) := by
  have hprocess : process host (.addaoiobj obj reason) page
      = page.read (addaoiobj host (addaoiobj.cmd obj reason) page.balls) := rfl
  by_cases hknown : idKey obj.tempid ∈ keys page.balls
  . rw [addaoiobj.of_known host obj reason page.balls hknown] at hprocess
    constructor
    . intro _ h
      exact absurd hknown h
    . intro _
      exact processed_of_ok host page hprocess (by simp) (Set.insert_eq_of_mem hknown).symm
  . rcases addaoiobj.of_unknown host obj reason page.balls hknown with
      ⟨⟨ball, hok⟩, husable⟩ | ⟨⟨e, herror⟩, husable⟩
    . rw [hok] at hprocess
      constructor
      . intro _ _
        exact husable
      . intro _
        exact processed_of_ok host page hprocess (by simp) (keys_update_some _ _ _)
    . rw [herror] at hprocess
      constructor
      . intro h
        exact absurd h (not_processed_of_error host page hprocess)
      . intro h
        exact absurd (h hknown) husable

theorem expected_updateaoilist {known : Set Key} {enterlist : Aoi.Lists (Obj Value)}
    {leavelist : Aoi.Lists Brief}
    (h : ∀ obj ∈ updateaoilist.entered enterlist, idKey obj.tempid ∈ known)
    : expected known (.updateaoilist enterlist leavelist)
        = known \ {k | ∃ brief ∈ updateaoilist.left leavelist, k = idKey brief.tempid} := by
  unfold expected
  dsimp only
  rw [Set.union_eq_self_of_subset_right]
  . rfl
  . rintro k ⟨obj, hobj, rfl⟩
    exact h obj hobj

theorem processed_updateaoilist (enterlist : Aoi.Lists (Obj Value)) (leavelist : Aoi.Lists Brief)
    : Processed host (.updateaoilist enterlist leavelist) page
        ↔
      Usable (keys page.balls) (.updateaoilist enterlist leavelist) := by
  by_cases hempty : updateaoilist.entered enterlist = [] ∧ updateaoilist.left leavelist = []
  . obtain ⟨henter, hleave⟩ := hempty
    have hall : ∀ obj ∈ updateaoilist.entered enterlist, idKey obj.tempid ∈ keys page.balls := by
      simp [henter]
    constructor
    . intro _
      exact hall
    . intro _
      apply processed_of_ok host page (process_nothing host enterlist leavelist page henter hleave)
      . simp
      . rw [expected_updateaoilist hall, hleave]
        simp
  . have hprocess := process_updateaoilist host enterlist leavelist page (by tauto)
    rcases updateaoilist.spec host enterlist leavelist page.balls with
      ⟨hknown, balls', hok, hkeys⟩ | ⟨hknown, herror⟩
    . rw [hok] at hprocess
      constructor
      . intro _
        exact hknown
      . intro _
        apply processed_of_ok host page hprocess
        . simp
        . rw [expected_updateaoilist hknown]
          exact hkeys
    . rw [herror] at hprocess
      constructor
      . intro h
        exact absurd h (not_processed_of_error host page hprocess)
      . intro h
        exact absurd h hknown

theorem processed_iff_usable (msg : Msg Value)
    : Processed host msg page ↔ Usable (keys page.balls) msg := by
  cases msg with
  | updateaoiobj obj => exact processed_updateaoiobj host page obj
  | delaoiobj tempid reason => exact processed_delaoiobj host page tempid reason
  | addaoiobj obj reason => exact processed_addaoiobj host page obj reason
  | updateaoilist enterlist leavelist => exact processed_updateaoilist host page enterlist leavelist

end

end Client
