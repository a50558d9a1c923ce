import SkynetAoi.Aoi.Raw

/-!
This module contains what a request of `mainscene.move` leaves behind that raises. The asserts come
before anything is written, whatever raises after them comes after `OBJ` has got the new object.
-/

namespace Aoi.Raw

open Lua (Value Arith)

variable {Id Agent Num : Type}

def raises {α : Type} (result : Result Id Agent Num α) : Bool :=
  match result with
  | .ok _ _ => false
  | .error _ _ => true

structure Keeps (s s' : State Id Agent Num) : Prop where
  obj : s'.OBJ = s.OBJ
  texts : s'.texts = s.texts
  views : ∀ type a, (s'.views type a).isSome = (s.views type a).isSome

namespace Keeps

theorem refl (s : State Id Agent Num) : Keeps s s := ⟨rfl, rfl, fun _ _ => rfl⟩

theorem trans {s₁ s₂ s₃ : State Id Agent Num} (h : Keeps s₁ s₂) (h' : Keeps s₂ s₃)
    : Keeps s₁ s₃ where
  obj := by rw [h'.obj, h.obj]
  texts := by rw [h'.texts, h.texts]
  views := by
    intro type a
    rw [h'.views, h.views]

end Keeps

namespace State

variable [DecidableEq Id]

theorem views_setTable (s : State Id Agent Num) (type : CharType) (a : Id) (view : Option (View Id))
    (type' : CharType) (a' : Id)
    : (s.setTable type a view).views type' a'
        =
      if type' = type ∧ a' = a then view else s.views type' a' := by
  cases type <;> cases type' <;> simp [setTable, views, Function.update_apply]

theorem setView_eq_none_iff {s : State Id Agent Num} {type : CharType} {a k : Id} {v : Bool}
    : s.setView type a k v = none ↔ (s.views type a).isSome = false := by
  unfold setView
  cases s.views type a with
  | none => simp
  | some view => simp

theorem setView_spec {s s' : State Id Agent Num} {type : CharType} {a k : Id} {v : Bool}
    (h : s.setView type a k v = some s')
    : Keeps s s' ∧ ∀ type' a' k', (type' = type → a' = a → k' ≠ k) →
        s'.getView type' a' k' = s.getView type' a' k' := by
  unfold setView at h
  cases hview : s.views type a with
  | none =>
    rw [hview] at h
    simp at h
  | some view =>
    rw [hview] at h
    simp only [Option.some.injEq] at h
    subst h
    refine ⟨⟨?_, ?_, ?_⟩, ?_⟩
    . cases type <;> rfl
    . cases type <;> rfl
    . intro type' a'
      rw [views_setTable]
      split
      . next heq =>
        rw [heq.1, heq.2, hview]
        rfl
      . rfl
    . intro type' a' k' hne
      unfold getView
      rw [views_setTable]
      by_cases heq : type' = type ∧ a' = a
      . rw [if_pos heq, heq.1, heq.2, hview]
        exact AList.lookup_insert_ne (hne heq.1 heq.2)
      . rw [if_neg heq]

end State

variable [DecidableEq Id]

theorem setBoth_cases {α : Type} (type : CharType) (a k : Id) (v : Bool) (lists : α)
    (s : State Id Agent Num) (ha : (s.views .player a).isSome = true)
    : Keeps s (outcome (setBoth .player type a k v lists s))
        ∧ ((s.views type k).isSome = false ∧ raises (setBoth .player type a k v lists s) = true
          ∨ (s.views type k).isSome = true
            ∧ ∃ s', setBoth .player type a k v lists s = .ok lists s'
              ∧ ∀ k', k' ≠ k → s'.getView .player a k' = s.getView .player a k') := by
  unfold setBoth
  cases h₁ : s.setView .player a k v with
  | none =>
    rw [State.setView_eq_none_iff, ha] at h₁
    simp at h₁
  | some s₁ =>
    obtain ⟨hkeeps₁, hget₁⟩ := State.setView_spec h₁
    dsimp only
    cases h₂ : s₁.setView type k a v with
    | none =>
      rw [State.setView_eq_none_iff, hkeeps₁.views] at h₂
      exact ⟨hkeeps₁, Or.inl ⟨h₂, rfl⟩⟩
    | some s₂ =>
      obtain ⟨hkeeps₂, hget₂⟩ := State.setView_spec h₂
      have hview : (s.views type k).isSome = true := by
        rw [← hkeeps₁.views]
        by_contra hnone
        rw [Bool.not_eq_true, ← State.setView_eq_none_iff (k := a) (v := v), h₂] at hnone
        simp at hnone
      refine ⟨hkeeps₁.trans hkeeps₂, Or.inr ⟨hview, s₂, rfl, ?_⟩⟩
      intro k' hne
      rw [hget₂, hget₁]
      . intro _ _
        exact hne
      . rintro - rfl rfl
        exact hne rfl

variable (arith : Arith Num)

def near (distance : Num) : Bool :=
  arith.le distance (aoiRadis2 arith)

def between (distance : Num) : Bool :=
  arith.lt (aoiRadis2 arith) distance && arith.le distance (leaveAoiRadis2 arith)

def writes (distance : Num) (v : Bool) : Bool :=
  if near arith distance then !v else if between arith distance then v else true

def enters (distance : Num) (v : Bool) : Bool :=
  near arith distance && !v

def mentions (distance : Num) (v : Bool) : Bool :=
  near arith distance || v

def Light (myobj other : Obj Id Agent Num) (distance : Num) (v : Bool) : Prop :=
  (enters arith distance v = true → 2 + other.depth ≤ maxDepth)
    ∧ (mentions arith distance v = true → other.type = .monster → 1 + myobj.depth ≤ maxDepth)

/--
Nothing raises because of the key `k` of the view of `myobj`: its object is there and has numbers
for coordinates, as `myobj` has, there are tables for the entries and the messages can be packed.
-/
def Passes (s : State Id Agent Num) (myobj : Obj Id Agent Num) (k : Id) : Prop :=
  ∃ v other distance, s.getView .player myobj.tempid k = some v
    ∧ s.OBJ k = some other
    ∧ dist2 arith myobj.pos other.pos = some distance
    ∧ (writes arith distance v = true → (s.views other.type k).isSome = true)
    ∧ Light arith myobj other distance v

structure Packs (myobj : Obj Id Agent Num) (lists : PlayerLists Id Agent Num) : Prop where
  player : ∀ other ∈ lists.enterlist.playerlist, 2 + other.depth ≤ maxDepth
  monster : ∀ other ∈ lists.enterlist.monsterlist, 2 + other.depth ≤ maxDepth
  info : lists.leavelist.monsterlist ≠ [] ∨ lists.enterlist.monsterlist ≠ []
    ∨ lists.movelist.monsterlist ≠ [] → 1 + myobj.depth ≤ maxDepth

namespace Packs

variable {myobj : Obj Id Agent Num} {lists : PlayerLists Id Agent Num}

omit [DecidableEq Id] in
theorem enter_iff (other : Obj Id Agent Num)
    : Packs myobj { lists with enterlist := inserttotablebytype lists.enterlist other other.type }
        ↔
      Packs myobj lists ∧ 2 + other.depth ≤ maxDepth
        ∧ (other.type = .monster → 1 + myobj.depth ≤ maxDepth) := by
  cases htype : other.type with
  | player =>
    constructor
    . rintro ⟨hplayer, hmonster, hinfo⟩
      simp only [inserttotablebytype, ne_eq, not_true_eq_false, ↓reduceIte, List.mem_append,
        List.mem_singleton] at hplayer hmonster hinfo
      exact ⟨⟨fun o ho => hplayer o (Or.inl ho), hmonster, hinfo⟩, hplayer other (Or.inr rfl),
        by simp⟩
    . rintro ⟨⟨hplayer, hmonster, hinfo⟩, hdepth, -⟩
      refine ⟨?_, hmonster, hinfo⟩
      simp only [inserttotablebytype, ne_eq, not_true_eq_false, ↓reduceIte, List.mem_append,
        List.mem_singleton]
      rintro o (ho | rfl)
      . exact hplayer o ho
      . exact hdepth
  | monster =>
    constructor
    . rintro ⟨hplayer, hmonster, hinfo⟩
      simp only [inserttotablebytype, ne_eq, reduceCtorEq, not_false_eq_true, ↓reduceIte,
        List.mem_append, List.mem_singleton] at hplayer hmonster hinfo
      have hdepth := hinfo (Or.inr (Or.inl (by simp)))
      exact ⟨⟨hplayer, fun o ho => hmonster o (Or.inl ho), fun _ => hdepth⟩,
        hmonster other (Or.inr rfl), fun _ => hdepth⟩
    . rintro ⟨⟨hplayer, hmonster, hinfo⟩, hdepth, hmy⟩
      refine ⟨hplayer, ?_, fun _ => hmy rfl⟩
      simp only [inserttotablebytype, ne_eq, reduceCtorEq, not_false_eq_true, ↓reduceIte,
        List.mem_append, List.mem_singleton]
      rintro o (ho | rfl)
      . exact hmonster o ho
      . exact hdepth

omit [DecidableEq Id] in
theorem leave_iff (brief : Brief Id Agent) (type : CharType)
    : Packs myobj { lists with leavelist := inserttotablebytype lists.leavelist brief type }
        ↔
      Packs myobj lists ∧ (type = .monster → 1 + myobj.depth ≤ maxDepth) := by
  cases type with
  | player =>
    constructor
    . rintro ⟨hplayer, hmonster, hinfo⟩
      exact ⟨⟨hplayer, hmonster, hinfo⟩, by simp⟩
    . rintro ⟨⟨hplayer, hmonster, hinfo⟩, -⟩
      exact ⟨hplayer, hmonster, hinfo⟩
  | monster =>
    constructor
    . rintro ⟨hplayer, hmonster, hinfo⟩
      have hdepth := hinfo (Or.inl (by simp [inserttotablebytype]))
      exact ⟨⟨hplayer, hmonster, fun _ => hdepth⟩, fun _ => hdepth⟩
    . rintro ⟨⟨hplayer, hmonster, -⟩, hmy⟩
      exact ⟨hplayer, hmonster, fun _ => hmy rfl⟩

omit [DecidableEq Id] in
theorem move_iff (brief : Brief Id Agent) (type : CharType)
    : Packs myobj { lists with movelist := inserttotablebytype lists.movelist brief type }
        ↔
      Packs myobj lists ∧ (type = .monster → 1 + myobj.depth ≤ maxDepth) := by
  cases type with
  | player =>
    constructor
    . rintro ⟨hplayer, hmonster, hinfo⟩
      exact ⟨⟨hplayer, hmonster, hinfo⟩, by simp⟩
    . rintro ⟨⟨hplayer, hmonster, hinfo⟩, -⟩
      exact ⟨hplayer, hmonster, hinfo⟩
  | monster =>
    constructor
    . rintro ⟨hplayer, hmonster, hinfo⟩
      have hdepth := hinfo (Or.inr (Or.inr (by simp [inserttotablebytype])))
      exact ⟨⟨hplayer, hmonster, fun _ => hdepth⟩, fun _ => hdepth⟩
    . rintro ⟨⟨hplayer, hmonster, -⟩, hmy⟩
      exact ⟨hplayer, hmonster, fun _ => hmy rfl⟩

end Packs

namespace updateviewplayer

variable {arith} {s : State Id Agent Num} {myobj : Obj Id Agent Num} {k : Id} {v : Bool}

structure Visited (arith : Arith Num) (s : State Id Agent Num) (myobj : Obj Id Agent Num) (k : Id)
    (lists lists' : PlayerLists Id Agent Num) (s' : State Id Agent Num) : Prop where
  keeps : Keeps s s'
  get : ∀ k', k' ≠ k → s'.getView .player myobj.tempid k' = s.getView .player myobj.tempid k'
  packs : Packs myobj lists' ↔ Packs myobj lists ∧ Passes arith s myobj k

theorem passes_iff {other : Obj Id Agent Num} {distance : Num}
    (hget : s.getView .player myobj.tempid k = some v) (hobj : s.OBJ k = some other)
    (hdist : dist2 arith myobj.pos other.pos = some distance)
    : Passes arith s myobj k
        ↔
      (writes arith distance v = true → (s.views other.type k).isSome = true)
        ∧ Light arith myobj other distance v := by
  constructor
  . rintro ⟨v', other', distance', hget', hobj', hdist', hrest⟩
    rw [hget, Option.some.injEq] at hget'
    rw [hobj, Option.some.injEq] at hobj'
    subst hget' hobj'
    rw [hdist, Option.some.injEq] at hdist'
    subst hdist'
    exact hrest
  . intro hrest
    exact ⟨v, other, distance, hget, hobj, hdist, hrest⟩

theorem stay_visited {type : CharType} {light : Prop} {lists lists' : PlayerLists Id Agent Num}
    (hpasses : Passes arith s myobj k ↔ (false = true → (s.views type k).isSome = true) ∧ light)
    (hpacks : Packs myobj lists' ↔ Packs myobj lists ∧ light)
    : Visited arith s myobj k lists lists' s where
  keeps := .refl s
  get := fun _ _ => rfl
  packs := by
    rw [hpacks, hpasses]
    simp

theorem setBoth_visited (hget : s.getView .player myobj.tempid k = some v) {type : CharType}
    {light : Prop} {lists lists' : PlayerLists Id Agent Num}
    (hpasses : Passes arith s myobj k ↔ (true = true → (s.views type k).isSome = true) ∧ light)
    (hpacks : Packs myobj lists' ↔ Packs myobj lists ∧ light) (x : Bool)
    : Keeps s (outcome (setBoth .player type myobj.tempid k x lists' s))
        ∧ (raises (setBoth .player type myobj.tempid k x lists' s) = true
            ∧ ¬Passes arith s myobj k
          ∨ ∃ lists₁ s', setBoth .player type myobj.tempid k x lists' s = .ok lists₁ s'
            ∧ Visited arith s myobj k lists lists₁ s') := by
  have hview : (s.views .player myobj.tempid).isSome = true := by
    unfold State.getView at hget
    cases hviews : s.views .player myobj.tempid with
    | none =>
      rw [hviews] at hget
      simp at hget
    | some view => rfl
  obtain ⟨hkeeps, hcase⟩ := setBoth_cases type myobj.tempid k x lists' s hview
  refine ⟨hkeeps, ?_⟩
  rcases hcase with ⟨hnone, hraises⟩ | ⟨hsome, s', hok, hget'⟩
  . refine Or.inl ⟨hraises, ?_⟩
    rw [hpasses, hnone]
    simp
  . refine Or.inr ⟨lists', s', hok, ?_, hget', ?_⟩
    . rw [hok] at hkeeps
      exact hkeeps
    . rw [hpacks, hpasses, hsome]
      simp

theorem visit_cases (hget : s.getView .player myobj.tempid k = some v)
    (lists : PlayerLists Id Agent Num)
    : Keeps s (outcome (visit arith myobj.tempid myobj.pos k lists s))
        ∧ (raises (visit arith myobj.tempid myobj.pos k lists s) = true
            ∧ ¬Passes arith s myobj k
          ∨ ∃ lists' s', visit arith myobj.tempid myobj.pos k lists s = .ok lists' s'
            ∧ Visited arith s myobj k lists lists' s') := by
  unfold visit
  rw [hget]
  dsimp only
  cases hobj : s.OBJ k with
  | none =>
    refine ⟨.refl s, Or.inl ⟨rfl, ?_⟩⟩
    rintro ⟨_, other, _, _, hother, _⟩
    rw [hobj] at hother
    simp at hother
  | some other =>
    dsimp only
    cases hdist : dist2 arith myobj.pos other.pos with
    | none =>
      refine ⟨.refl s, Or.inl ⟨rfl, ?_⟩⟩
      rintro ⟨_, other', _, _, hother, hdistance, _⟩
      rw [hobj, Option.some.injEq] at hother
      rw [← hother, hdist] at hdistance
      simp at hdistance
    | some distance =>
      dsimp only
      have hpasses := passes_iff hget hobj hdist
      unfold writes Light enters mentions near between at hpasses
      by_cases hnear : arith.le distance (aoiRadis2 arith) = true
      . rw [hnear] at hpasses ⊢
        cases v with
        | false => exact setBoth_visited hget hpasses (by simp [Packs.enter_iff]) true
        | true =>
          exact ⟨.refl s, Or.inr ⟨_, s, rfl, stay_visited hpasses (by simp [Packs.move_iff])⟩⟩
      . rw [Bool.not_eq_true] at hnear
        rw [hnear] at hpasses ⊢
        simp only [Bool.false_eq_true, ↓reduceIte] at hpasses ⊢
        by_cases hbetween : (arith.lt (aoiRadis2 arith) distance
            && arith.le distance (leaveAoiRadis2 arith)) = true
        . rw [hbetween] at hpasses ⊢
          cases v with
          | false => exact ⟨.refl s, Or.inr ⟨_, s, rfl, stay_visited hpasses (by simp)⟩⟩
          | true => exact setBoth_visited hget hpasses (by simp [Packs.leave_iff]) false
        . rw [Bool.not_eq_true] at hbetween
          rw [hbetween] at hpasses ⊢
          cases v with
          | false => exact setBoth_visited hget hpasses (by simp) false
          | true => exact setBoth_visited hget hpasses (by simp [Packs.leave_iff]) false

theorem Visited.passes_iff {lists lists' : PlayerLists Id Agent Num} {s' : State Id Agent Num}
    (h : Visited arith s myobj k lists lists' s') {k' : Id} (hne : k' ≠ k)
    : Passes arith s' myobj k' ↔ Passes arith s myobj k' := by
  unfold Passes
  rw [h.get k' hne, h.keeps.obj]
  simp only [h.keeps.views]

variable (arith myobj) in
theorem walk_cases (ks : List Id) (s : State Id Agent Num) (lists : PlayerLists Id Agent Num)
    (hnodup : ks.Nodup) (hks : ∀ k ∈ ks, ∃ v, s.getView .player myobj.tempid k = some v)
    : Keeps s (outcome (forPairs (visit arith myobj.tempid myobj.pos) ks lists s))
        ∧ (raises (forPairs (visit arith myobj.tempid myobj.pos) ks lists s) = true
            ∧ ¬(∀ k ∈ ks, Passes arith s myobj k)
          ∨ ∃ lists' s', forPairs (visit arith myobj.tempid myobj.pos) ks lists s = .ok lists' s'
            ∧ Keeps s s'
            ∧ (Packs myobj lists' ↔ Packs myobj lists ∧ ∀ k ∈ ks, Passes arith s myobj k)) := by
  induction ks generalizing s lists with
  | nil => exact ⟨.refl s, Or.inr ⟨lists, s, rfl, .refl s, by simp⟩⟩
  | cons k ks ih =>
    obtain ⟨v, hget⟩ := hks k (by simp)
    rw [List.nodup_cons] at hnodup
    obtain ⟨hkeeps, hcase⟩ := visit_cases hget lists
    rw [forPairs]
    rcases hcase with ⟨hraises, hnot⟩ | ⟨lists₁, s₁, hok, hvisited⟩
    . cases hvisit : visit arith myobj.tempid myobj.pos k lists s with
      | ok lists₁ s₁ =>
        rw [hvisit] at hraises
        simp [raises] at hraises
      | error e s₁ =>
        rw [hvisit] at hkeeps
        refine ⟨hkeeps, Or.inl ⟨rfl, ?_⟩⟩
        intro hall
        exact hnot (hall k (by simp))
    . rw [hok]
      dsimp only
      have hne : ∀ k' ∈ ks, k' ≠ k := by
        rintro k' hk' rfl
        exact hnodup.1 hk'
      have hpasses : (∀ k' ∈ ks, Passes arith s₁ myobj k')
          ↔ ∀ k' ∈ ks, Passes arith s myobj k' := by
        constructor
        . intro h k' hk'
          rw [← hvisited.passes_iff (hne k' hk')]
          exact h k' hk'
        . intro h k' hk'
          rw [hvisited.passes_iff (hne k' hk')]
          exact h k' hk'
      have hks₁ : ∀ k' ∈ ks, ∃ v, s₁.getView .player myobj.tempid k' = some v := by
        intro k' hk'
        rw [hvisited.get k' (hne k' hk')]
        apply hks
        simp [hk']
      obtain ⟨hkeeps', hcase'⟩ := ih s₁ lists₁ hnodup.2 hks₁
      refine ⟨hvisited.keeps.trans hkeeps', ?_⟩
      rw [List.forall_mem_cons]
      rcases hcase' with ⟨hraises, hnot⟩ | ⟨lists', s', hok', hkeeps₁, hpacks⟩
      . refine Or.inl ⟨hraises, ?_⟩
        rw [hpasses] at hnot
        rintro ⟨-, hall⟩
        exact hnot hall
      . refine Or.inr ⟨lists', s', hok', hvisited.keeps.trans hkeeps₁, ?_⟩
        rw [hpacks, hvisited.packs, hpasses, and_assoc]

end updateviewplayer

omit [DecidableEq Id] in
theorem sendAll_cases (msgs : List (Dest Agent × Msg Id Agent Num)) (s : State Id Agent Num)
    : Keeps s (outcome (sendAll msgs s))
        ∧ (raises (sendAll msgs s) = false ↔ ∀ msg ∈ msgs, msg.2.packs = true) := by
  induction msgs generalizing s with
  | nil => exact ⟨.refl s, by simp [sendAll, raises]⟩
  | cons msg msgs ih =>
    obtain ⟨dest, msg⟩ := msg
    rw [sendAll, send, List.forall_mem_cons]
    cases hpacks : msg.packs with
    | false => exact ⟨.refl s, by simp [raises]⟩
    | true =>
      obtain ⟨hkeeps, hiff⟩ := ih { s with sent := s.sent ++ [(dest, msg)] }
      have hsent : Keeps s { s with sent := s.sent ++ [(dest, msg)] } :=
        ⟨rfl, rfl, fun type _ => by cases type <;> rfl⟩
      refine ⟨hsent.trans hkeeps, ?_⟩
      rw [← hiff]
      simp

omit [DecidableEq Id] in
theorem messages_pack_iff (p : Id) {myobj : Obj Id Agent Num} (hdepth : myobj.depth ≤ maxDepth)
    (lists : PlayerLists Id Agent Num)
    : (∀ msg ∈ updateviewplayer.messages p myobj lists, msg.2.packs = true)
        ↔ Packs myobj lists := by
  unfold updateviewplayer.messages
  simp only [List.forall_mem_append, List.forall_mem_map, Msg.packs, List.forall_mem_singleton,
    Bool.and_eq_true, List.all_eq_true, decide_eq_true_eq]
  constructor
  . rintro ⟨⟨-, hinfo⟩, hplayer, hmonster⟩
    refine ⟨hplayer, hmonster, ?_⟩
    intro hsome
    rw [if_pos] at hinfo
    . have := hinfo _ (List.mem_singleton_self _)
      simp only [Bool.and_eq_true, decide_eq_true_eq] at this
      exact this.1
    . simpa [or_assoc] using hsome
  . intro h
    refine ⟨⟨⟨⟨by simp, fun _ _ => hdepth⟩, fun _ _ => hdepth⟩, ?_⟩, h.player, h.monster⟩
    split
    . next hsome =>
      have hsome' : lists.leavelist.monsterlist ≠ [] ∨ lists.enterlist.monsterlist ≠ []
          ∨ lists.movelist.monsterlist ≠ [] := by simpa [or_assoc] using hsome
      simpa [Msg.packs] using ⟨h.info hsome', h.monster⟩
    . simp

def Survives (s : State Id Agent Num) (myobj : Obj Id Agent Num) : Prop :=
  ∀ view, s.playerview myobj.tempid = some view → ∀ k ∈ view.keys, Passes arith s myobj k

theorem updateviewplayer_cases (order : PairsOrder Id) {s : State Id Agent Num}
    {myobj : Obj Id Agent Num} (hobj : s.OBJ myobj.tempid = some myobj)
    (hdepth : myobj.depth ≤ maxDepth)
    : Keeps s (outcome (updateviewplayer arith order myobj.tempid s))
        ∧ (raises (updateviewplayer arith order myobj.tempid s) = false
          ↔ Survives arith s myobj) := by
  unfold updateviewplayer Survives
  cases hview : s.playerview myobj.tempid with
  | none => exact ⟨.refl s, by simp [raises]⟩
  | some view =>
    dsimp only
    rw [hobj]
    dsimp only
    have hperm := order.perm view.keys
    have hks : ∀ k ∈ order.arrange view.keys,
        ∃ v, s.getView .player myobj.tempid k = some v := by
      intro k hk
      rw [hperm.mem_iff, ← AList.mem_keys, ← AList.lookup_isSome,
        Option.isSome_iff_exists] at hk
      unfold State.getView State.views
      dsimp only
      rw [hview]
      exact hk
    obtain ⟨hkeeps, hcase⟩ := updateviewplayer.walk_cases arith myobj
      (order.arrange view.keys) s ⟨⟨[], []⟩, ⟨[], []⟩, ⟨[], []⟩⟩
      (hperm.nodup_iff.mpr view.keys_nodup) hks
    simp only [hperm.mem_iff, Option.some.injEq, forall_eq'] at hcase ⊢
    rcases hcase with ⟨hraises, hnot⟩ | ⟨lists, s', hok, hkeeps', hpacks⟩
    . cases hwalk : forPairs (updateviewplayer.visit arith myobj.tempid myobj.pos)
          (order.arrange view.keys) ⟨⟨[], []⟩, ⟨[], []⟩, ⟨[], []⟩⟩ s with
      | ok lists s' =>
        rw [hwalk] at hraises
        simp [raises] at hraises
      | error e s' =>
        rw [hwalk] at hkeeps
        refine ⟨hkeeps, ?_⟩
        rw [iff_false_right hnot]
        simp [raises]
    . rw [hok]
      dsimp only
      obtain ⟨hkeeps₁, hiff⟩ := sendAll_cases
        (updateviewplayer.messages myobj.tempid myobj lists) s'
      refine ⟨hkeeps'.trans hkeeps₁, ?_⟩
      rw [hiff, messages_pack_iff _ hdepth, hpacks]
      simp only [and_iff_right_iff_imp]
      intro _
      exact ⟨by simp, by simp, by simp⟩

def Numeric (pos : Value Num) : Prop :=
  ∀ name ∈ [['x'], ['y'], ['z']], ∃ v n, pos.index name = some v ∧ v.operand arith = some n

theorem scaled_isSome_iff (pos : Value Num) (name : List Char)
    : (scaled arith pos name).isSome = true
        ↔ ∃ v n, pos.index name = some v ∧ v.operand arith = some n := by
  unfold scaled
  cases pos.index name with
  | none => simp
  | some v =>
    cases hv : v.operand arith with
    | none => simp [hv]
    | some n => simp [hv]

theorem enter.openView_same (s : State Id Agent Num) (a : Id)
    : (openView s a).OBJ = s.OBJ ∧ (openView s a).texts = s.texts := by
  unfold openView
  split
  . exact ⟨rfl, rfl⟩
  . exact ⟨rfl, rfl⟩

theorem enter.report_cases (tempid : Id) (mode : List Char) (pos : Value Num)
    (s : State Id Agent Num)
    : (outcome (report arith tempid mode pos s)).OBJ = s.OBJ
        ∧ (¬Numeric arith pos ∧ raises (report arith tempid mode pos s) = true
            ∧ (outcome (report arith tempid mode pos s)).texts = s.texts
          ∨ Numeric arith pos ∧ raises (report arith tempid mode pos s) = false
            ∧ ∃ x y z, (outcome (report arith tempid mode pos s)).texts
              = s.texts ++ [.update tempid mode x y z]) := by
  have hnumeric : Numeric arith pos
      ↔ (scaled arith pos ['x']).isSome = true ∧ (scaled arith pos ['y']).isSome = true
        ∧ (scaled arith pos ['z']).isSome = true := by
    simp only [Numeric, scaled_isSome_iff, List.forall_mem_cons, List.not_mem_nil,
      IsEmpty.forall_iff, implies_true, and_true]
  obtain ⟨hobj, htexts⟩ := openView_same s tempid
  rw [hnumeric]
  unfold report
  dsimp only
  cases scaled arith pos ['x'] with
  | none => exact ⟨hobj, .inl ⟨by simp, rfl, htexts⟩⟩
  | some x =>
    cases scaled arith pos ['y'] with
    | none => exact ⟨hobj, .inl ⟨by simp, rfl, htexts⟩⟩
    | some y =>
      cases scaled arith pos ['z'] with
      | none => exact ⟨hobj, .inl ⟨by simp, rfl, htexts⟩⟩
      | some z =>
        refine ⟨hobj, .inr ⟨by simp, rfl, .number x, .number y, .number z, ?_⟩⟩
        rw [← htexts]
        rfl

theorem enter_asserted (order : PairsOrder Id) {req : Request Id Agent Num}
    {s : State Id Agent Num} (hassert : asserted req.pos = true)
    : (outcome (enter arith order req s)).OBJ = (s.received req).OBJ
        ∧ (raises (enter arith order req s) = false
          ↔ Survives arith (s.received req) (req.obj s.refs) ∧ Numeric arith req.pos)
        ∧ (raises (enter arith order req s) = true →
          (outcome (enter arith order req s)).texts = s.texts)
        ∧ (raises (enter arith order req s) = false →
          ∃ x y z, (outcome (enter arith order req s)).texts
            = s.texts ++ [.update req.tempid ['w', 'm'] x y z]) := by
  have hobj : (s.received req).OBJ (req.obj s.refs).tempid = some (req.obj s.refs) :=
    Function.update_self ..
  obtain ⟨hkeeps, hiff⟩ := updateviewplayer_cases arith order hobj req.depth_le
  have htempid : (req.obj s.refs).tempid = req.tempid := rfl
  have htexts : (s.received req).texts = s.texts := rfl
  rw [htempid] at hkeeps hiff
  unfold enter
  rw [if_pos hassert, ← hiff]
  dsimp only
  cases hupdate : updateviewplayer arith order req.tempid (s.received req) with
  | error e s' =>
    rw [hupdate] at hkeeps
    exact ⟨hkeeps.obj, by simp [raises], fun _ => hkeeps.texts, by simp [raises]⟩
  | ok _ s' =>
    rw [hupdate] at hkeeps
    have hs' : s'.texts = s.texts := hkeeps.texts
    dsimp only
    obtain ⟨hreport, hcases⟩ := enter.report_cases arith req.tempid ['w', 'm'] req.pos s'
    refine ⟨hreport.trans hkeeps.obj, ?_⟩
    rw [← hs']
    rcases hcases with ⟨hnot, hraises, hsame⟩ | ⟨hnumeric, hraises, hsent⟩
    . exact ⟨by simp [hraises, hnot], fun _ => hsame, by simp [hraises]⟩
    . refine ⟨?_, by simp [hraises], fun _ => hsent⟩
      simp only [hraises, hnumeric, and_true, true_iff]
      rfl

/--
If the handler raises then there is nothing to see of the request.
-/
def FailsClean (order : PairsOrder Id) (req : Request Id Agent Num) (s : State Id Agent Num)
    : Prop :=
  raises (enter arith order req s) = true →
    (outcome (enter arith order req s)).OBJ = s.OBJ
      ∧ (outcome (enter arith order req s)).playerview = s.playerview
      ∧ (outcome (enter arith order req s)).monsterview = s.monsterview
      ∧ (outcome (enter arith order req s)).texts = s.texts

/--
It leaves nothing behind just if it fails in the asserts or does not fail: then its coordinates are
numbers, and everyone in the view of the player is there, has numbers for coordinates as well, has a
table to write to and can be packed.
-/
theorem failsClean_iff (order : PairsOrder Id) (req : Request Id Agent Num) (s : State Id Agent Num)
    : FailsClean arith order req s
        ↔
      asserted req.pos = false
        ∨ Survives arith (s.received req) (req.obj s.refs) ∧ Numeric arith req.pos := by
  constructor
  . intro h
    by_contra hnot
    rw [not_or, Bool.not_eq_false] at hnot
    obtain ⟨hobj, hiff, -⟩ := enter_asserted arith order (s := s) hnot.1
    rw [← hiff, Bool.not_eq_false] at hnot
    have hsame := (h hnot.2).1
    have hnew : s.OBJ req.tempid = some (req.obj s.refs) := by
      rw [← hsame, hobj]
      exact Function.update_self ..
    exact Nat.lt_irrefl _ (s.ref_lt _ _ hnew)
  . rintro (hassert | hsurvives)
    . intro _
      unfold enter
      rw [hassert]
      exact ⟨rfl, rfl, rfl, rfl⟩
    . intro hraises
      cases hassert : asserted req.pos with
      | false =>
        unfold enter
        rw [hassert]
        exact ⟨rfl, rfl, rfl, rfl⟩
      | true =>
        have hok := (enter_asserted arith order hassert).2.1.mpr hsurvives
        rw [hraises] at hok
        simp at hok

namespace Failing

def request : Request Nat Nat ℚ where
  tempid := 1
  agent := 1
  pos := .table (.cons (.string ['x']) (.string ['a']) (.cons (.string ['y']) (.number 1)
    (.cons (.string ['z']) (.number 1) .nil)))
  depth_le := by decide

end Failing

theorem not_failsClean_of_string
    : ¬FailsClean (.exact fun _ => none) (.inserted Nat) Failing.request
        (.init : State Nat Nat ℚ) := by
  intro h
  have hraises
      : raises (enter (.exact fun _ => none) (.inserted Nat) Failing.request .init) = true := by
    decide +kernel
  have hobj : ((outcome (enter (.exact fun _ => none) (.inserted Nat) Failing.request .init)).OBJ
      1).isSome = true := by
    decide +kernel
  rw [(h hraises).1] at hobj
  simp [State.init] at hobj

end Aoi.Raw
