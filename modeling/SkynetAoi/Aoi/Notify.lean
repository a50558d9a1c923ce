import Mathlib.Data.Finset.Basic
import SkynetAoi.Aoi.Flags

/-!
This module contains what the notifications tell the client of an agent about who is in sight, and
that a request tells every agent about the flags that it changes. The one exception is the marker of
an `aoicallback`.
-/

namespace Aoi

variable {Id Agent : Type}

def Lists.ids {α : Type} (lists : Lists α) (tempid : α → Id) : List Id :=
  lists.playerlist.map tempid ++ lists.monsterlist.map tempid

theorem Lists.mem_ids {α : Type} (lists : Lists α) (tempid : α → Id) (k : Id)
    : k ∈ lists.ids tempid ↔ ∃ type, ∃ o ∈ lists.of type, tempid o = k := by
  unfold ids
  rw [List.mem_append, List.mem_map, List.mem_map]
  constructor
  . rintro (h | h)
    . exact ⟨.player, h⟩
    . exact ⟨.monster, h⟩
  . rintro ⟨type, h⟩
    cases type with
    | player => exact Or.inl h
    | monster => exact Or.inr h

def Adds (k : Id) (msg : Msg Id Agent) : Prop :=
  match msg with
  | .addaoiobj obj _ => k = obj.tempid
  | .updateaoilist enterlist leavelist =>
    k ∈ enterlist.ids Obj.tempid ∧ k ∉ leavelist.ids Brief.tempid
  | _ => False

def Removes (k : Id) (msg : Msg Id Agent) : Prop :=
  match msg with
  | .delaoiobj tempid _ => k = tempid
  | .updateaoilist _ leavelist => k ∈ leavelist.ids Brief.tempid
  | _ => False

def Owned (owner : Agent → Option Id) (s : State Id Agent) : Prop :=
  ∀ (id : Id) (o : Obj Id Agent), s.OBJ id = some o →
    owner o.agent = if o.type = .player then some id else none

theorem Owned.eq_of_agent {owner : Agent → Option Id} {s : State Id Agent} (h : Owned owner s)
    {p k : Id} {op ok : Obj Id Agent} (hp : s.OBJ p = some op) (htype : op.type = .player)
    (hk : s.OBJ k = some ok) (hagent : ok.agent = op.agent) : k = p := by
  have hownp := h p op hp
  have hownk := h k ok hk
  rw [if_pos htype] at hownp
  rw [hagent, hownp] at hownk
  split at hownk
  . rw [Option.some.injEq] at hownk
    exact hownk.symm
  . simp at hownk

def Hears (agent : Agent) (msgs : List (Dest Agent × Msg Id Agent)) (P : Msg Id Agent → Prop) : Prop :=
  ∃ msg, (.agent agent, msg) ∈ msgs ∧ P msg

namespace Hears

variable {agent : Agent} {P : Msg Id Agent → Prop}

@[simp]
theorem nil_iff : Hears agent [] P ↔ False := by
  simp [Hears]

@[simp]
theorem append_iff (msgs more : List (Dest Agent × Msg Id Agent))
    : Hears agent (msgs ++ more) P ↔ Hears agent msgs P ∨ Hears agent more P := by
  simp only [Hears, List.mem_append, or_and_right, exists_or]

@[simp]
theorem cons_iff (dest : Dest Agent) (msg : Msg Id Agent) (msgs : List (Dest Agent × Msg Id Agent))
    : Hears agent ((dest, msg) :: msgs) P ↔ dest = .agent agent ∧ P msg ∨ Hears agent msgs P := by
  unfold Hears
  constructor
  . rintro ⟨m, hmem, hP⟩
    rw [List.mem_cons, Prod.mk.injEq] at hmem
    rcases hmem with ⟨heq, rfl⟩ | hmem
    . exact Or.inl ⟨heq.symm, hP⟩
    . exact Or.inr ⟨m, hmem, hP⟩
  . rintro (⟨rfl, hP⟩ | ⟨m, hmem, hP⟩)
    . exact ⟨msg, by simp, hP⟩
    . exact ⟨m, List.mem_cons_of_mem _ hmem, hP⟩

@[simp]
theorem map_iff {α : Type} (f : α → Agent) (msg : α → Msg Id Agent) (vs : List α)
    : Hears agent (vs.map fun v => (.agent (f v), msg v)) P ↔ ∃ v ∈ vs, f v = agent ∧ P (msg v) := by
  induction vs with
  | nil => simp
  | cons v vs ih =>
    rw [List.map_cons, cons_iff, ih]
    simp

theorem not_of_mapagent {msgs : List (Dest Agent × Msg Id Agent)} (h : ∀ msg ∈ msgs, msg.1 = .mapagent)
    : ¬Hears agent msgs P := by
  rintro ⟨msg, hmem, -⟩
  have := h _ hmem
  simp at this

end Hears

/--
The messages to `agent` follow what becomes of a flag: whether `k` was in sight and whether it is
now.
-/
structure Tells (agent : Agent) (k : Id) (msgs : List (Dest Agent × Msg Id Agent))
    (old new : Option Bool) : Prop where
  adds : Hears agent msgs (Adds k) → new = some true
  removes : Hears agent msgs (Removes k) → new ≠ some true
  added : old ≠ some true → new = some true → Hears agent msgs (Adds k)
  removed : old = some true → new ≠ some true → Hears agent msgs (Removes k)

theorem Tells.silent {agent : Agent} {k : Id} {msgs : List (Dest Agent × Msg Id Agent)}
    {flag : Option Bool} (hadds : ¬Hears agent msgs (Adds k))
    (hremoves : ¬Hears agent msgs (Removes k)) : Tells agent k msgs flag flag where
  adds := fun h => absurd h hadds
  removes := fun h => absurd h hremoves
  added := fun hold hnew => absurd hnew hold
  removed := fun hold hnew => absurd hold hnew

theorem Tells.of_iff {agent : Agent} {k : Id} {msgs : List (Dest Agent × Msg Id Agent)} {v n : Bool}
    (hadds : Hears agent msgs (Adds k) ↔ v = false ∧ n = true)
    (hremoves : Hears agent msgs (Removes k) ↔ v = true ∧ n = false)
    : Tells agent k msgs (some v) (some n) := by
  constructor
  . intro h
    rw [(hadds.mp h).2]
  . intro h
    rw [(hremoves.mp h).2]
    simp
  . intro hv hn
    rw [hadds]
    simp only [ne_eq, Option.some.injEq, Bool.not_eq_true] at hv hn
    exact ⟨hv, hn⟩
  . intro hv hn
    rw [hremoves]
    simp only [ne_eq, Option.some.injEq, Bool.not_eq_true] at hv hn
    exact ⟨hv, hn⟩

variable [DecidableEq Id]

def told (known : Finset Id) (msg : Msg Id Agent) : Finset Id :=
  match msg with
  | .addaoiobj obj _ => insert obj.tempid known
  | .delaoiobj tempid _ => known.erase tempid
  | .updateaoilist enterlist leavelist =>
    (known ∪ (enterlist.ids Obj.tempid).toFinset) \ (leavelist.ids Brief.tempid).toFinset
  | _ => known

theorem mem_told_iff (known : Finset Id) (msg : Msg Id Agent) (k : Id)
    : k ∈ told known msg ↔ Adds k msg ∨ k ∈ known ∧ ¬Removes k msg := by
  cases msg with
  | addaoiobj obj reason => simp [told, Adds, Removes]
  | delaoiobj tempid reason =>
    simp only [told, Adds, Removes, Finset.mem_erase, false_or]
    tauto
  | updateaoilist enterlist leavelist =>
    simp only [told, Adds, Removes, Finset.mem_sdiff, Finset.mem_union, List.mem_toFinset]
    tauto
  | _ => simp [told, Adds, Removes]

section

variable [DecidableEq Agent]

def client (agent : Agent) (known : Finset Id) (msgs : List (Dest Agent × Msg Id Agent))
    : Finset Id :=
  msgs.foldl (fun known msg => if msg.1 = .agent agent then told known msg.2 else known) known

theorem client_append (agent : Agent) (known : Finset Id) (msgs more : List (Dest Agent × Msg Id Agent))
    : client agent known (msgs ++ more) = client agent (client agent known msgs) more := by
  unfold client
  rw [List.foldl_append]

theorem mem_client_of_no_removes {agent : Agent} {k : Id} {msgs : List (Dest Agent × Msg Id Agent)}
    (h : ¬Hears agent msgs (Removes k)) (known : Finset Id)
    : k ∈ client agent known msgs ↔ k ∈ known ∨ Hears agent msgs (Adds k) := by
  induction msgs generalizing known with
  | nil => simp [client]
  | cons msg msgs ih =>
    obtain ⟨dest, msg⟩ := msg
    rw [Hears.cons_iff, not_or] at h
    have hrest := ih h.2
    unfold client at hrest ⊢
    rw [List.foldl_cons, hrest, Hears.cons_iff]
    dsimp only
    split
    . next heq =>
      have hfirst : ¬Removes k msg := fun hremoves => h.1 ⟨heq, hremoves⟩
      rw [mem_told_iff]
      tauto
    . tauto

theorem mem_client_of_no_adds {agent : Agent} {k : Id} {msgs : List (Dest Agent × Msg Id Agent)}
    (h : ¬Hears agent msgs (Adds k)) (known : Finset Id)
    : k ∈ client agent known msgs ↔ k ∈ known ∧ ¬Hears agent msgs (Removes k) := by
  induction msgs generalizing known with
  | nil => simp [client]
  | cons msg msgs ih =>
    obtain ⟨dest, msg⟩ := msg
    rw [Hears.cons_iff, not_or] at h
    have hrest := ih h.2
    unfold client at hrest ⊢
    rw [List.foldl_cons, hrest, Hears.cons_iff]
    dsimp only
    split
    . next heq =>
      have hfirst : ¬Adds k msg := fun hadds => h.1 ⟨heq, hadds⟩
      rw [mem_told_iff]
      tauto
    . tauto

theorem Tells.client {agent : Agent} {k : Id} {msgs : List (Dest Agent × Msg Id Agent)}
    {old new : Option Bool} (h : Tells agent k msgs old new) {known : Finset Id}
    (hknown : k ∈ known → old = some true)
    : (k ∈ client agent known msgs → new = some true)
        ∧ (new = some true → k ∉ client agent known msgs → old = some true ∧ k ∉ known) := by
  by_cases hnew : new = some true
  . refine ⟨fun _ => hnew, ?_⟩
    intro _ hnot
    rw [mem_client_of_no_removes (fun hremoves => h.removes hremoves hnew), not_or] at hnot
    refine ⟨?_, hnot.1⟩
    by_contra hold
    exact hnot.2 (h.added hold hnew)
  . refine ⟨?_, fun htrue => absurd htrue hnew⟩
    intro hmem
    rw [mem_client_of_no_adds (fun hadds => hnew (h.adds hadds))] at hmem
    exact absurd (h.removed (hknown hmem.1) hnew) hmem.2

end

variable {kind : Id → CharType} {owner : Agent → Option Id}

theorem PlayerMoved.hears {s s' : State Id Agent} (hinv : Inv kind s) (hown : Owned owner s)
    {q : Id} {myobj : Obj Id Agent} (hq : s.OBJ q = some myobj)
    (hmoved : PlayerMoved kind s q myobj s')
    : ∃ msgs, s'.sent = s.sent ++ msgs
        ∧ ∀ p op k, s.OBJ p = some op → op.type = .player →
          (Hears op.agent msgs (Adds k)
            ↔ (k = q ∧ s.getView .player q p = some false ∧ near myobj.pos op = true)
              ∨ (p = q ∧ ∃ ok, s.OBJ k = some ok
                ∧ s.getView .player q k = some false
                ∧ near myobj.pos ok = true))
          ∧ (Hears op.agent msgs (Removes k)
            ↔ (k = q ∧ s.getView .player q p = some true ∧ near myobj.pos op = false)
              ∨ (p = q ∧ ∃ ok, s.OBJ k = some ok
                ∧ s.getView .player q k = some true
                ∧ near myobj.pos ok = false)) := by
  obtain ⟨lists, info, hmap, hsent, henter, hleave⟩ := hmoved.tells
  refine ⟨_, hsent, ?_⟩
  intro p op k hp htype
  have hmyid := (hinv.obj q myobj hq).1
  have hself : myobj.agent = op.agent ↔ p = q := by
    constructor
    . intro hagent
      exact (hown.eq_of_agent hp htype hq hagent).symm
    . rintro rfl
      rw [hp, Option.some.injEq] at hq
      rw [hq]
  have henterp : (∃ v ∈ lists.enterlist.playerlist, v.agent = op.agent ∧ k = myobj.tempid)
      ↔ k = q ∧ s.getView .player q p = some false ∧ near myobj.pos op = true := by
    constructor
    . rintro ⟨v, hv, hagent, hk⟩
      obtain ⟨j, hj, -, hget, hnear⟩ := (henter .player v).mp hv
      have heq := hown.eq_of_agent hp htype hj hagent
      rw [heq] at hj hget
      rw [hp, Option.some.injEq] at hj
      rw [hk, hmyid, hj]
      exact ⟨rfl, hget, hnear⟩
    . rintro ⟨hk, hget, hnear⟩
      refine ⟨op, (henter .player op).mpr ⟨p, hp, htype, hget, hnear⟩, rfl, ?_⟩
      rw [hk, hmyid]
  have hleavep : (∃ v ∈ lists.leavelist.playerlist, v.agent = op.agent ∧ k = q)
      ↔ k = q ∧ s.getView .player q p = some true ∧ near myobj.pos op = false := by
    constructor
    . rintro ⟨v, hv, hagent, hk⟩
      obtain ⟨j, o, hj, -, hget, hnear, rfl⟩ := (hleave .player v).mp hv
      have heq := hown.eq_of_agent hp htype hj hagent
      rw [heq] at hj hget
      rw [hp, Option.some.injEq] at hj
      rw [hj]
      exact ⟨hk, hget, hnear⟩
    . rintro ⟨hk, hget, hnear⟩
      exact ⟨op.brief, (hleave .player op.brief).mpr ⟨p, op, hp, htype, hget, hnear, rfl⟩, rfl, hk⟩
  have henterk : k ∈ lists.enterlist.ids Obj.tempid
      ↔ ∃ ok, s.OBJ k = some ok ∧ s.getView .player q k = some false ∧ near myobj.pos ok = true := by
    rw [Lists.mem_ids]
    constructor
    . rintro ⟨type, o, ho, rfl⟩
      obtain ⟨j, hj, -, hget, hnear⟩ := (henter type o).mp ho
      rw [(hinv.obj j o hj).1]
      exact ⟨o, hj, hget, hnear⟩
    . rintro ⟨ok, hk, hget, hnear⟩
      exact ⟨ok.type, ok, (henter ok.type ok).mpr ⟨k, hk, rfl, hget, hnear⟩, (hinv.obj k ok hk).1⟩
  have hleavek : k ∈ lists.leavelist.ids Brief.tempid
      ↔ ∃ ok, s.OBJ k = some ok ∧ s.getView .player q k = some true ∧ near myobj.pos ok = false := by
    rw [Lists.mem_ids]
    constructor
    . rintro ⟨type, b, hb, rfl⟩
      obtain ⟨j, o, hj, -, hget, hnear, rfl⟩ := (hleave type b).mp hb
      have hid : o.brief.tempid = j := (hinv.obj j o hj).1
      rw [hid]
      exact ⟨o, hj, hget, hnear⟩
    . rintro ⟨ok, hk, hget, hnear⟩
      exact ⟨ok.type, ok.brief, (hleave ok.type ok.brief).mpr ⟨k, ok, hk, rfl, hget, hnear, rfl⟩,
        (hinv.obj k ok hk).1⟩
  have hboth : k ∈ lists.enterlist.ids Obj.tempid → k ∉ lists.leavelist.ids Brief.tempid := by
    rw [henterk, hleavek]
    rintro ⟨-, -, hfalse, -⟩ ⟨-, -, htrue, -⟩
    rw [hfalse] at htrue
    simp at htrue
  rw [← henterp, ← hleavep, ← hself, ← henterk, ← hleavek]
  simp only [updateviewplayer.msgs, Hears.append_iff, Hears.map_iff, Hears.cons_iff, Hears.nil_iff,
    Hears.not_of_mapagent hmap, Adds, Removes, Dest.agent.injEq, and_false, exists_false, or_false,
    false_or, and_iff_left_of_imp hboth, true_and]

def TellsAll (s s' : State Id Agent) : Prop :=
  ∃ msgs, s'.sent = s.sent ++ msgs
    ∧ ∀ p op k, (s.OBJ p).isSome = true → s'.OBJ p = some op → op.type = .player →
      Tells op.agent k msgs (s.getView .player p k) (s'.getView .player p k)

theorem PlayerMoved.tellsAll {s s' : State Id Agent} (hinv : Inv kind s) (hown : Owned owner s)
    {q : Id} {myobj : Obj Id Agent} (hq : s.OBJ q = some myobj) (hkind : kind q = .player)
    (hmoved : PlayerMoved kind s q myobj s') : TellsAll s s' := by
  obtain ⟨msgs, hsent, hhears⟩ := hmoved.hears hinv hown hq
  refine ⟨msgs, hsent, ?_⟩
  intro p op k _ hp htype
  rw [hmoved.obj] at hp
  obtain ⟨hadds, hremoves⟩ := hhears p op k hp htype
  have hkindp : kind p = .player := by rw [← (hinv.obj p op hp).2.1, htype]
  by_cases hpq : p = q
  . subst hpq
    have hirrefl : s.getView .player p p = none := by
      cases hget : s.getView .player p p with
      | none => rfl
      | some v => exact absurd rfl (hinv.mirror p p v hget).1
    simp only [hirrefl, reduceCtorEq, false_and, and_false, false_or, true_and] at hadds hremoves
    cases hget : s.getView .player p k with
    | none =>
      have hnew : s'.getView .player p k = none := by
        rw [hmoved.get]
        simp [hget, hirrefl]
      rw [hnew]
      apply Tells.silent
      . simp [hadds, hget]
      . simp [hremoves, hget]
    | some v =>
      obtain ⟨ok, hk⟩ := Option.isSome_iff_exists.mp (hinv.mirror p k v hget).2.1
      have hnew : s'.getView .player p k = some (near myobj.pos ok) := by
        rw [hmoved.get, if_pos (by simp [hget, hkindp]), State.zone_eq hk, zone_player]
      rw [hnew]
      apply Tells.of_iff
      . simp [hadds, hget, hk]
      . simp [hremoves, hget, hk]
  . simp only [hpq, false_and, or_false] at hadds hremoves
    by_cases hkq : k = q
    . subst hkq
      cases hget : s.getView .player k p with
      | none =>
        have hold : s.getView .player p k = none := by
          cases hold : s.getView .player p k with
          | none => rfl
          | some v =>
            have hmirror := (hinv.mirror p k v hold).2.2
            rw [hkind, hget] at hmirror
            simp at hmirror
        have hnew : s'.getView .player p k = none := by
          rw [hmoved.get]
          simp [hpq, hget, hold]
        rw [hold, hnew]
        apply Tells.silent
        . simp [hadds, hget]
        . simp [hremoves, hget]
      | some v =>
        have hold := (hinv.mirror k p v hget).2.2
        rw [hkindp] at hold
        have hnew : s'.getView .player p k = some (near myobj.pos op) := by
          rw [hmoved.get, if_neg (by simp [hpq]), if_pos (by simp [hget, hkindp]), State.zone_eq hp,
            zone_player]
        rw [hold, hnew]
        apply Tells.of_iff
        . simp [hadds, hget]
        . simp [hremoves, hget]
    . have hnew : s'.getView .player p k = s.getView .player p k := by
        rw [hmoved.get, if_neg (by simp [hpq]), if_neg (by simp [hkq])]
      rw [hnew]
      apply Tells.silent
      . simp [hadds, hkq]
      . simp [hremoves, hkq]

theorem MonsterMoved.tellsAll {s s' : State Id Agent} (hinv : Inv kind s) (hown : Owned owner s)
    {m : Id} {myobj : Obj Id Agent} (hm : s.OBJ m = some myobj) (hkind : kind m = .monster)
    {done : List Id} (hdone : ∀ k, k ∈ done ↔ (s.getView .monster m k).isSome = true)
    (hmoved : MonsterMoved s m myobj done s') (htells : MonsterTells s m myobj s')
    : TellsAll s s' := by
  obtain ⟨lists, hsent, henter, hleave⟩ := htells.tells
  refine ⟨_, hsent, ?_⟩
  intro p op k _ hp htype
  rw [hmoved.obj] at hp
  have hid := (hinv.obj m myobj hm).1
  have hadds : Hears op.agent (updateviewmonster.msgs myobj lists) (Adds k)
      ↔ k = m ∧ s.getView .monster m p = some false ∧ near myobj.pos op = true := by
    have : Hears op.agent (updateviewmonster.msgs myobj lists) (Adds k)
        ↔ ∃ v ∈ lists.enterlist, v.agent = op.agent ∧ k = m := by
      simp [updateviewmonster.msgs, Adds, hid]
    rw [this]
    constructor
    . rintro ⟨v, hv, hagent, hk⟩
      obtain ⟨j, hj, hget, hnear⟩ := (henter v).mp hv
      have heq := hown.eq_of_agent hp htype hj hagent
      rw [heq] at hj hget
      rw [hp, Option.some.injEq] at hj
      rw [hj]
      exact ⟨hk, hget, hnear⟩
    . rintro ⟨hk, hget, hnear⟩
      exact ⟨op, (henter op).mpr ⟨p, hp, hget, hnear⟩, rfl, hk⟩
  have hremoves : Hears op.agent (updateviewmonster.msgs myobj lists) (Removes k)
      ↔ k = m ∧ s.getView .monster m p = some true ∧ near myobj.pos op = false := by
    have : Hears op.agent (updateviewmonster.msgs myobj lists) (Removes k)
        ↔ ∃ v ∈ lists.leavelist, v.agent = op.agent ∧ k = m := by
      simp [updateviewmonster.msgs, Removes, hid]
    rw [this]
    constructor
    . rintro ⟨v, hv, hagent, hk⟩
      obtain ⟨j, o, hj, hget, hnear, rfl⟩ := (hleave v).mp hv
      have heq := hown.eq_of_agent hp htype hj hagent
      rw [heq] at hj hget
      rw [hp, Option.some.injEq] at hj
      rw [hj]
      exact ⟨hk, hget, hnear⟩
    . rintro ⟨hk, hget, hnear⟩
      exact ⟨op.brief, (hleave op.brief).mpr ⟨p, op, hp, hget, hnear, rfl⟩, rfl, hk⟩
  by_cases hkm : k = m
  . subst hkm
    simp only [true_and] at hadds hremoves
    have hzone : zone .monster myobj.pos op = some true ↔ near myobj.pos op = true :=
      ⟨near_of_zone, zone_of_near⟩
    have hold : s.getView .player p k = some true → s.getView .monster k p = some true := by
      intro hget
      have := (hinv.mirror p k true hget).2.2
      rw [hkind] at this
      exact this
    have hnew : s'.getView .player p k
        = if (s.getView .monster k p).isSome = true
            ∧ s.getView .monster k p ≠ zone .monster myobj.pos op then
          zone .monster myobj.pos op
        else
          s.getView .player p k := by
      rw [hmoved.get, if_neg (by simp), State.zone_eq hp]
      simp only [true_and, hdone]
    cases hflag : s.getView .monster k p with
    | none =>
      simp only [hflag, Option.isSome_none, Bool.false_eq_true, false_and, ↓reduceIte] at hnew
      rw [hnew]
      apply Tells.silent
      . simp [hadds, hflag]
      . simp [hremoves, hflag]
    | some v =>
      simp only [hflag, Option.isSome_some, true_and, Option.some.injEq] at hnew hadds hremoves hold
      by_cases hsame : zone .monster myobj.pos op = some v
      . rw [if_neg (by simp [hsame])] at hnew
        rw [hnew]
        have hv := eq_near_of_zone hsame
        apply Tells.silent
        . rw [hadds, hv]
          simp
        . rw [hremoves, hv]
          simp
      . rw [if_pos (fun heq => hsame heq.symm)] at hnew
        rw [hnew]
        constructor
        . rw [hadds, hzone]
          exact fun h => h.2
        . rw [hremoves, ne_eq, hzone]
          intro h
          simp [h.2]
        . intro _ htrue
          rw [hadds]
          refine ⟨?_, hzone.mp htrue⟩
          rw [htrue, Option.some.injEq] at hsame
          simpa using hsame
        . intro htrue hfar
          rw [hremoves]
          rw [ne_eq, hzone, Bool.not_eq_true] at hfar
          exact ⟨hold htrue, hfar⟩
  . have hnew : s'.getView .player p k = s.getView .player p k := by
      rw [hmoved.get, if_neg (by simp), if_neg (by simp [hkm])]
    rw [hnew]
    apply Tells.silent
    . simp [hadds, hkm]
    . simp [hremoves, hkm]

theorem Left.tellsAll {s s' : State Id Agent} (hown : Owned owner s) {obj : Obj Id Agent}
    (hleft : Left s obj s') : TellsAll s s' := by
  obtain ⟨msgs, hsent, hmsgs⟩ := hleft.mem_sent
  refine ⟨msgs, hsent, ?_⟩
  intro p op k _ hp htype
  rw [hleft.OBJ] at hp
  split at hp
  . simp at hp
  . next hne =>
    have hadds : ¬Hears op.agent msgs (Adds k) := by
      rintro ⟨msg, hmsg, hadds⟩
      obtain ⟨j, o, -, -, -, -, heq⟩ := (hmsgs _).mp hmsg
      rw [Prod.mk.injEq] at heq
      rw [heq.2] at hadds
      exact hadds
    have hremoves : Hears op.agent msgs (Removes k)
        ↔ k = obj.tempid
          ∧ (s.getView obj.type obj.tempid p).isSome = true
          ∧ s.getView .player p obj.tempid = some true := by
      constructor
      . rintro ⟨msg, hmsg, hremoves⟩
        obtain ⟨j, o, hj, -, hview, hget, heq⟩ := (hmsgs _).mp hmsg
        rw [Prod.mk.injEq, Dest.agent.injEq] at heq
        rw [heq.2] at hremoves
        have hjp := hown.eq_of_agent hp htype hj heq.1.symm
        rw [hjp] at hview hget
        exact ⟨hremoves, hview, hget⟩
      . rintro ⟨hk, hview, hget⟩
        exact ⟨_, (hmsgs _).mpr ⟨p, op, hp, hne, hview, hget, rfl⟩, hk⟩
    have hnew : s'.getView .player p k
        = if k = obj.tempid ∧ (s.getView obj.type obj.tempid p).isSome = true then none
          else s.getView .player p k := by
      rw [hleft.get, if_neg (by simp [hne])]
      simp only [true_and]
    rw [hnew]
    split
    . next hcond =>
      constructor
      . exact fun h => absurd h hadds
      . intro _
        simp
      . intro _ htrue
        simp at htrue
      . intro hget _
        rw [hremoves]
        rw [hcond.1] at hget
        exact ⟨hcond.1, hcond.2, hget⟩
    . next hcond =>
      apply Tells.silent hadds
      rw [hremoves]
      rintro ⟨hk, hview, -⟩
      exact hcond ⟨hk, hview⟩

/--
Of the two ends of an `aoicallback` only the watcher is told, so the marker has to know already.
-/
theorem Sighted.tells {s s' : State Id Agent} (hinv : Inv kind s) (hown : Owned owner s) {w m : Id}
    {ow om : Obj Id Agent} (hw : kind w = .player) (how : s.OBJ w = some ow) (hom : s.OBJ m = some om)
    (hs : Sighted kind s w m ow om s')
    : ∃ msgs, s'.sent = s.sent ++ msgs
        ∧ ∀ p op k, s.OBJ p = some op → op.type = .player →
          (p = w → k = m → Hears op.agent msgs (Adds k))
            ∧ ((p = m → k = w → s.getView .player m w = some true) →
              Tells op.agent k msgs (s.getView .player p k) (s'.getView .player p k)) := by
  refine ⟨_, by rw [hs.sent, List.append_assoc], ?_⟩
  intro p op k hp htype
  have hkindp : kind p = .player := by rw [← (hinv.obj p op hp).2.1, htype]
  have hself : ow.agent = op.agent ↔ p = w := by
    constructor
    . intro hagent
      exact (hown.eq_of_agent hp htype how hagent).symm
    . rintro rfl
      rw [hp, Option.some.injEq] at how
      rw [how]
  have hadds : Hears op.agent
      ([(.agent ow.agent, .addaoiobj om (.aoicallbackPlayer m))]
        ++ if kind m = .player then [] else [(.agent om.agent, .addaoiobjMonster m ow .aoicallback)])
      (Adds k) ↔ p = w ∧ k = m := by
    rw [← hself, ← (hinv.obj m om hom).1]
    split
    . simp [Adds]
    . simp [Adds]
  have hremoves : ¬Hears op.agent
      ([(.agent ow.agent, .addaoiobj om (.aoicallbackPlayer m))]
        ++ if kind m = .player then [] else [(.agent om.agent, .addaoiobjMonster m ow .aoicallback)])
      (Removes k) := by
    split
    . simp [Removes]
    . simp [Removes]
  have hnew : s'.getView .player p k
      = if (p = w ∧ k = m) ∨ (p = m ∧ k = w) then some true else s.getView .player p k := by
    rw [hs.get, hkindp]
    simp only [true_and]
  refine ⟨fun hpw hkm => hadds.mpr ⟨hpw, hkm⟩, ?_⟩
  intro hmarker
  constructor
  . rw [hadds]
    intro h
    rw [hnew, if_pos (Or.inl h)]
  . exact fun h => absurd h hremoves
  . intro hold htrue
    rw [hadds]
    rw [hnew] at htrue
    split at htrue
    . next hpair =>
      rcases hpair with hpair | ⟨rfl, rfl⟩
      . exact hpair
      . exact absurd (hmarker rfl rfl) hold
    . exact absurd htrue hold
  . intro hold hfalse
    rw [hnew] at hfalse
    split at hfalse
    . exact absurd rfl hfalse
    . exact absurd hold hfalse

/--
A monster that has someone in its view who has left changes no flag of the others. The walk that
raises would leave these flags without a message.
-/
def MonsterStays (s : State Id Agent) (obj : Obj Id Agent) : Prop :=
  obj.type = .monster →
    (∃ k, (s.getView .monster obj.tempid k).isSome = true ∧ s.OBJ k = none) →
    ∀ k o v, s.OBJ k = some o → s.getView .monster obj.tempid k = some v →
      zone .monster obj.pos o = some v

theorem Owned.store {s : State Id Agent} (h : Owned owner s) {obj : Obj Id Agent}
    (hobj : owner obj.agent = if obj.type = .player then some obj.tempid else none)
    : Owned owner (s.store obj) := by
  intro id o ho
  rw [State.store_obj] at ho
  split at ho
  . next heq =>
    rw [Option.some.injEq] at ho
    rw [← ho, heq]
    exact hobj
  . exact h id o ho

theorem TellsAll.of_store {s s' : State Id Agent} {obj : Obj Id Agent} (h : TellsAll (s.store obj) s')
    : TellsAll s s' := by
  obtain ⟨msgs, hsent, htells⟩ := h
  refine ⟨msgs, hsent, ?_⟩
  intro p op k hlive hp htype
  apply htells p op k _ hp htype
  rw [State.store_obj]
  split
  . rfl
  . exact hlive

theorem TellsAll.of_same {s s' : State Id Agent} (hsent : s'.sent = s.sent)
    (hget : ∀ p k, s'.getView .player p k = s.getView .player p k) : TellsAll s s' := by
  refine ⟨[], by rw [hsent, List.append_nil], ?_⟩
  intro p op k _ _ _
  rw [hget]
  apply Tells.silent
  . simp
  . simp

theorem EnterResult.tellsAll {s : State Id Agent} (hinv : Inv kind s) (hown : Owned owner s)
    {obj : Obj Id Agent} (hwf : obj.WF kind)
    (hobj : owner obj.agent = if obj.type = .player then some obj.tempid else none)
    (hstays : MonsterStays s obj) {result : Result Id Agent Unit} (h : EnterResult kind s obj result)
    : TellsAll s (outcome result) := by
  have hown0 := hown.store hobj
  have hobj0 : (s.store obj).OBJ obj.tempid = some obj := by
    rw [State.store_obj]
    simp
  cases h with
  | fresh s' hnew hobj hget htexts hneed hsent => exact .of_same hsent (hget .player)
  | player s1 hold htype hmoved =>
    have hkind : kind obj.tempid = .player := by rw [← hwf.type, htype]
    have : TellsAll (s.store obj) s1 := hmoved.tellsAll (hinv.store hwf hold) hown0 hobj0 hkind
    exact this.of_store
  | unseen hold htype hview => exact .of_same rfl (fun _ _ => rfl)
  | monster s1 done hold htype hdone hlive hmoved htells =>
    have hkind : kind obj.tempid = .monster := by rw [← hwf.type, htype]
    have : TellsAll (s.store obj) s1 :=
      hmoved.tellsAll (hinv.store hwf hold) hown0 hobj0 hkind hdone htells
    exact this.of_store
  | raised s1 done hold htype hlost hdone hmoved hsent =>
    apply TellsAll.of_same hsent
    intro p k
    rw [hmoved.get, if_neg (by simp), if_neg]
    . rfl
    . rintro ⟨-, -, hp, hne⟩
      obtain ⟨hflag, hlive⟩ := hdone p hp
      obtain ⟨v, hflag⟩ := Option.isSome_iff_exists.mp hflag
      obtain ⟨o, ho⟩ := Option.isSome_iff_exists.mp hlive
      apply hne
      have hp : s.OBJ p = some o := by
        rw [State.store_obj, if_neg] at ho
        . exact ho
        . rintro rfl
          have := hinv.watcher obj.tempid obj.tempid v hflag
          rw [← hwf.type, htype] at this
          simp at this
      rw [State.zone_eq ho, hstays htype hlost p o v hp hflag]
      exact hflag

end Aoi
