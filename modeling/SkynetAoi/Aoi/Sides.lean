import SkynetAoi.Aoi.Invariant

/-!
This module contains whether it matters which side of a pair evaluates it, the player or the
monster. Up to `leaveAoiRadis2` it does not. Further away the player keeps the entries of the pair
and the monster removes them, so that only the player can be told later that the monster enters
again.
-/

namespace Aoi

variable {Id Agent : Type}

inductive Told where
  | enters
  | leaves
  deriving DecidableEq, Repr

inductive Band where
  | inside
  | between
  | outside
  deriving DecidableEq, Repr

namespace Band

def settle (side : CharType) (band : Band) (entry : Option Bool) : Option Bool :=
  match entry with
  | none => none
  | some _ =>
    match band with
    | .inside => some true
    | .between => some false
    | .outside =>
      match side with
      | .player => some false
      | .monster => none

variable {rounds rounds' : List (CharType × Band)}

variable {bands : List Band}

end Band

/--
What `OBJ` holds for a player and a monster when their pair is evaluated.
-/
structure Meeting (Id Agent : Type) (p m : Id) where
  player : Obj Id Agent
  monster : Obj Id Agent
  player_tempid : player.tempid = p
  monster_tempid : monster.tempid = m
  player_type : player.type = .player
  monster_type : monster.type = .monster
  ne : p ≠ m

namespace Meeting

variable {p m : Id}

def distance (meeting : Meeting Id Agent p m) : ℚ :=
  Point.dist2 meeting.player.pos meeting.monster.pos

def band (meeting : Meeting Id Agent p m) : Band :=
  if meeting.distance ≤ aoiRadis2 then
    .inside
  else if meeting.distance ≤ leaveAoiRadis2 then
    .between
  else
    .outside

variable [DecidableEq Id]

def put (meeting : Meeting Id Agent p m) (s : State Id Agent) : State Id Agent :=
  { s with
    OBJ := Function.update (Function.update s.OBJ p (some meeting.player)) m
      (some meeting.monster) }

@[simp]
theorem put_getView (meeting : Meeting Id Agent p m) (s : State Id Agent) (type : CharType)
    (a k : Id) : (meeting.put s).getView type a k = s.getView type a k := by
  cases type with
  | player => rfl
  | monster => rfl

end Meeting

section

variable {p m : Id}

end

variable [DecidableEq Id] {p m : Id}

def PlayerLists.told (lists : PlayerLists Id Agent) (m : Id) : Option Told :=
  if m ∈ lists.enterlist.monsterlist.map Obj.tempid then
    some .enters
  else if m ∈ lists.leavelist.monsterlist.map Brief.tempid then
    some .leaves
  else
    none

def MonsterLists.told (lists : MonsterLists Id Agent) (p : Id) : Option Told :=
  if p ∈ lists.enterlist.map Obj.tempid then
    some .enters
  else if p ∈ lists.leavelist.map Brief.tempid then
    some .leaves
  else
    none

structure Entries (p m : Id) (s : State Id Agent) (entry : Option Bool) : Prop where
  player : s.getView .player p m = entry
  monster : s.getView .monster m p = entry

namespace Entries

variable {s : State Id Agent}

theorem put {entry : Option Bool} (h : Entries p m s entry) (meeting : Meeting Id Agent p m)
    : Entries p m (meeting.put s) entry where
  player := by
    rw [meeting.put_getView]
    exact h.player
  monster := by
    rw [meeting.put_getView]
    exact h.monster

theorem setBoth_spec {v : Bool} (h : Entries p m s (some v)) (hne : p ≠ m) {α : Type} (lists : α)
    (entry : Option Bool)
    : (∃ s', setBoth .player .monster p m entry lists s = .ok lists s' ∧ Entries p m s' entry)
        ∧ ∃ s', setBoth .monster .player m p entry lists s = .ok lists s'
          ∧ Entries p m s' entry := by
  let kind : Id → CharType := fun k => if k = p then .player else .monster
  have hp : kind p = .player := if_pos rfl
  have hm : kind m = .monster := if_neg hne.symm
  have hviewp : s.hasView (kind p) p = true := by
    rw [hp]
    exact State.hasView_of_getView h.player
  have hviewm : s.hasView (kind m) m = true := by
    rw [hm]
    exact State.hasView_of_getView h.monster
  constructor
  . obtain ⟨s', hset, hsets⟩ := Aoi.setBoth_spec hviewp hviewm lists entry
    rw [hp, hm] at hset
    refine ⟨s', hset, ?_, ?_⟩
    . rw [hsets.get, if_pos ⟨hp.symm, Or.inl ⟨rfl, rfl⟩⟩]
    . rw [hsets.get, if_pos ⟨hm.symm, Or.inr ⟨rfl, rfl⟩⟩]
  . obtain ⟨s', hset, hsets⟩ := Aoi.setBoth_spec hviewm hviewp lists entry
    rw [hp, hm] at hset
    refine ⟨s', hset, ?_, ?_⟩
    . rw [hsets.get, if_pos ⟨hp.symm, Or.inr ⟨rfl, rfl⟩⟩]
    . rw [hsets.get, if_pos ⟨hm.symm, Or.inl ⟨rfl, rfl⟩⟩]

end Entries

section Step

variable {s : State Id Agent} {v : Bool}

end Step

structure SameEntries (p m : Id) (s₁ s₂ : State Id Agent) : Prop where
  player : s₁.getView .player p m = s₂.getView .player p m
  monster : s₁.getView .monster m p = s₂.getView .monster m p

section

variable {s : State Id Agent} {v : Bool} {meetings : List (Meeting Id Agent p m)}

end

namespace Sides

def player : Obj Nat Nat where
  tempid := 1
  agent := 1
  type := .player
  mode := ['w', 'm']
  pos := ⟨0, 0, 0⟩

def monster (x : ℚ) : Obj Nat Nat where
  tempid := 2
  agent := 2
  type := .monster
  mode := ['w', 'm']
  pos := ⟨x, 0, 0⟩

def meeting (x : ℚ) : Meeting Nat Nat 1 2 where
  player := player
  monster := monster x
  player_tempid := rfl
  monster_tempid := rfl
  player_type := rfl
  monster_type := rfl
  ne := by decide

def entry {α : Type} (result : Result Nat Nat α) : Option Bool :=
  match result with
  | .ok _ s => s.getView .player 1 2
  | .error _ _ => none

end Sides

end Aoi
