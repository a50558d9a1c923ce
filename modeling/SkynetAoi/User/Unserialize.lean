import SkynetAoi.User.Serialize

/-!
This module contains when `parser.unserialize` gives back what `parser.serialize` was given: a field
that is false is taken for one that is not there.
-/

namespace User

variable {Num Table : Type} [DecidableEq Num] [DecidableEq Table] (rt : Runtime Num Table)

def SameShape (t t0 : Model Num Table) : Prop :=
  ∀ k, (t.lookup k).map Value.type = (t0.lookup k).map Value.type

-- The fields of `t` that were kept are back, the others are those of `t0`.
def Inverts (order : PairsOrder Bytes) (t t0 : Model Num Table) : Prop :=
  ∃ t', unserialize rt order t0 (redisPack (serialize rt t [])) = some t'
    ∧ ∀ k, t'.lookup k = (persisted t k).or (t0.lookup k)

theorem lookup_redisPack (t : Model Num Table) (k : Bytes)
    : (redisPack (serialize rt t [])).lookup (.string k)
        = (persisted t k).map (serialize.stored rt) := by
  unfold redisPack
  rw [serialize.eq_alternating]
  cases h : persisted t k with
  | some v =>
    exact assign.lookup_of_mem (serialize.nodup_keys rt t) ((mem_fields_iff rt t k _).mpr ⟨v, h, rfl⟩) ∅
  | none =>
    rw [assign.lookup_of_not_mem]
    . rfl
    . intro hmem
      obtain ⟨⟨k', x⟩, hfield, rfl⟩ := List.mem_map.mp hmem
      obtain ⟨v, hv, -⟩ := (mem_fields_iff rt t k x).mp hfield
      rw [h] at hv
      cases hv

def restored (t t0 : Model Num Table) (k : Bytes) : Option (Value Num Table) :=
  match persisted t k with
  | none => t0.lookup k
  | some v => if v.truthy then some v else t0.lookup k

namespace unserialize

variable {t t0 s : Model Num Table}

theorem visit_spec (hshape : SameShape t t0) {k : Bytes} {v : Value Num Table}
    (hv : t0.lookup k = some v) (hs : s.lookup k = some v)
    : ∃ s', visit rt (redisPack (serialize rt t [])) k v s = some s'
        ∧ s'.lookup k = restored t t0 k
        ∧ ∀ j, j ≠ k → s'.lookup j = s.lookup j := by
  unfold visit restored
  rw [lookup_redisPack]
  cases hdata : persisted t k with
  | none =>
    rw [hv]
    exact ⟨s, rfl, hs, fun _ _ => rfl⟩
  | some w =>
    have htype : w.type = v.type := by
      have := hshape k
      rw [(persisted_eq_some_iff.mp hdata).1, hv] at this
      simpa using this
    have hinsert : (s.insert k w).lookup k = some w
        ∧ ∀ j, j ≠ k → (s.insert k w).lookup j = s.lookup j :=
      ⟨AList.lookup_insert s, fun j hj => AList.lookup_insert_ne hj⟩
    rw [Option.map_some]
    dsimp only
    rw [stored_truthy]
    by_cases htruthy : w.truthy = true
    . -- The types are the same, so that the branch that is taken is the one of the field's own type.
      have hfun : w.type ≠ .function := (persisted_eq_some_iff.mp hdata).2.2
      simp only [htruthy, Bool.not_true, Bool.false_eq_true, if_false, if_true]
      cases v with
      | string _ =>
        cases w with
        | string _ => exact ⟨_, rfl, hinsert⟩
        | _ => cases htype
      | number _ =>
        cases w with
        | number n =>
          simp only [serialize.stored, rt.tonumber_number]
          exact ⟨_, rfl, hinsert⟩
        | _ => cases htype
      | boolean _ =>
        cases w with
        | boolean _ => exact ⟨_, rfl, hinsert⟩
        | _ => cases htype
      | table _ =>
        cases w with
        | table tbl =>
          simp only [serialize.stored, rt.decode_encode, Option.map_some]
          exact ⟨_, rfl, hinsert⟩
        | _ => cases htype
      | function _ => exact absurd htype hfun
    . simp only [htruthy, Bool.not_false, if_true]
      refine ⟨s, rfl, ?_, fun _ _ => rfl⟩
      simpa [hv] using hs

theorem go_spec (hshape : SameShape t t0) {ks : List Bytes} (hnodup : ks.Nodup)
    (hs : ∀ k ∈ ks, s.lookup k = t0.lookup k) (hmem : ∀ k ∈ ks, k ∈ t0)
    : ∃ s', go rt (redisPack (serialize rt t [])) ks s = some s'
        ∧ ∀ k, s'.lookup k = if k ∈ ks then restored t t0 k else s.lookup k := by
  induction ks generalizing s with
  | nil => exact ⟨s, rfl, by simp⟩
  | cons k ks ih =>
    rw [List.nodup_cons] at hnodup
    obtain ⟨v, hv⟩ := Option.isSome_iff_exists.mp (AList.lookup_isSome.mpr (hmem k (by simp)))
    have hsk : s.lookup k = some v := by
      rw [hs k (by simp)]
      exact hv
    obtain ⟨s1, hvisit, hk, hother⟩ := visit_spec rt hshape hv hsk
    have hne : ∀ j ∈ ks, j ≠ k := by
      rintro j hj rfl
      exact hnodup.1 hj
    obtain ⟨s', hgo, hs'⟩ := ih hnodup.2 (s := s1)
      (by
        intro j hj
        rw [hother j (hne j hj)]
        exact hs j (by simp [hj]))
      (by
        intro j hj
        exact hmem j (by simp [hj]))
    refine ⟨s', ?_, ?_⟩
    . unfold go
      rw [hsk]
      dsimp only
      rw [hvisit]
      exact hgo
    . intro j
      rw [hs' j]
      by_cases hj : j = k
      . subst hj
        rw [if_neg hnodup.1, if_pos (by simp), hk]
      . simp only [List.mem_cons, hj, false_or, hother j hj]

end unserialize

theorem unserialize_spec (order : PairsOrder Bytes) {t t0 : Model Num Table}
    (hshape : SameShape t t0)
    : ∃ t', unserialize rt order t0 (redisPack (serialize rt t [])) = some t'
        ∧ ∀ k, t'.lookup k = restored t t0 k := by
  have hperm := order.perm t0.keys
  obtain ⟨t', hgo, ht'⟩ := unserialize.go_spec rt hshape (s := t0)
    (hperm.nodup_iff.mpr t0.keys_nodup) (fun _ _ => rfl)
    (fun k hk => AList.mem_keys.mpr (hperm.mem_iff.mp hk))
  refine ⟨t', hgo, ?_⟩
  intro k
  rw [ht' k]
  split
  . rfl
  . next hk =>
    have hnone : t0.lookup k = none := by
      rw [AList.lookup_eq_none]
      intro hmem
      exact hk (hperm.mem_iff.mpr (AList.mem_keys.mp hmem))
    have hshapek := hshape k
    rw [hnone, Option.map_none, Option.map_eq_none_iff] at hshapek
    simp [restored, persisted, hshapek]

theorem inverts_iff_restored (order : PairsOrder Bytes) {t t0 : Model Num Table}
    (hshape : SameShape t t0)
    : Inverts rt order t t0 ↔ ∀ k, restored t t0 k = (persisted t k).or (t0.lookup k) := by
  obtain ⟨t', hunserialize, ht'⟩ := unserialize_spec rt order hshape
  unfold Inverts
  rw [hunserialize]
  simp [ht']

-- Only a field that is false and was true in the template is not as it was.
theorem inverts_iff (order : PairsOrder Bytes) (t t0 : Model Num Table) (hshape : SameShape t t0)
    : Inverts rt order t t0
        ↔ ∀ k, persisted t k = some (.boolean false) → t0.lookup k = some (.boolean false) := by
  rw [inverts_iff_restored rt order hshape]
  constructor
  . intro h k hk
    have heq := h k
    simpa [restored, hk, Value.truthy] using heq
  . intro h k
    unfold restored
    cases hk : persisted t k with
    | none => simp
    | some v =>
      cases v with
      | boolean b =>
        cases b with
        | false => simp [Value.truthy, h k hk]
        | true => rfl
      | _ => rfl

section

def flag : Bytes := ['f', 'l', 'a', 'g'].map Char.toUInt8

def level : Bytes := ['l', 'e', 'v', 'e', 'l'].map Char.toUInt8

def player (b : Bool) (n : Int) : Model Int Bytes :=
  (AList.insert flag (.boolean b) ∅).insert level (.number n)

theorem player_lookup (b : Bool) (n : Int) (k : Bytes)
    : (player b n).lookup k
        = if k = level then some (.number n) else if k = flag then some (.boolean b) else none := by
  unfold player
  split
  . next heq =>
    subst heq
    exact AList.lookup_insert _
  . next hlevel =>
    rw [AList.lookup_insert_ne hlevel]
    split
    . next heq =>
      subst heq
      exact AList.lookup_insert _
    . next hflag => rw [AList.lookup_insert_ne hflag, AList.lookup_empty]

theorem player_sameShape (b b0 : Bool) (n n0 : Int) : SameShape (player b n) (player b0 n0) := by
  intro k
  rw [player_lookup, player_lookup]
  split
  . rfl
  . split
    . rfl
    . rfl

theorem inverts_iff_player
    : SameShape (player false 7) (player false 1)
        ∧ Inverts .sample (.inserted Bytes) (player false 7) (player false 1) := by
  have hshape := player_sameShape false false 7 1
  refine ⟨hshape, ?_⟩
  rw [inverts_iff .sample (.inserted Bytes) _ _ hshape]
  intro k hk
  have hlookup := (persisted_eq_some_iff.mp hk).1
  rw [player_lookup] at hlookup ⊢
  by_cases hlevel : k = level
  . simp [hlevel] at hlookup
  . simpa [hlevel] using hlookup

theorem not_inverts_of_false
    : SameShape (player false 7) (player true 1)
        ∧ ¬Inverts .sample (.inserted Bytes) (player false 7) (player true 1) := by
  have hshape := player_sameShape false true 7 1
  refine ⟨hshape, ?_⟩
  rw [inverts_iff_restored .sample (.inserted Bytes) hshape]
  intro h
  exact absurd (h flag) (by decide)

end

end User
