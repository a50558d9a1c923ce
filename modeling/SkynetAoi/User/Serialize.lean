import SkynetAoi.User.Basic

/-!
This module contains what `parser.serialize` writes: the fields that are kept, each of them once, with
the text of `cjson` for a table.
-/

namespace User

variable {Num Table : Type} (rt : Runtime Num Table)

namespace serialize

def stored (v : Value Num Table) : Value Num Table :=
  match v with
  | .table t => .string (rt.encode t)
  | v => v

def field (k : Bytes) (v : Value Num Table) : Option (Value Num Table × Value Num Table) :=
  if isPersistent k && v.type ≠ .function then some (.string k, stored rt v) else none

def fields (entries : List (Sigma fun _ : Bytes => Value Num Table))
    : List (Value Num Table × Value Num Table) :=
  entries.filterMap fun entry => field rt entry.1 entry.2

theorem entry_eq (k : Bytes) (v : Value Num Table)
    : entry rt [] k v = alternating (field rt k v).toList := by
  unfold entry field
  cases isPersistent k with
  | false => simp [alternating]
  | true =>
    cases v with
    | string s => simp [alternating, Value.type, stored]
    | number n => simp [alternating, Value.type, stored]
    | boolean b => simp [alternating, Value.type, stored]
    | table t => simp [alternating, Value.type, stored]
    | function ref => simp [alternating, Value.type]

theorem eq_alternating (t : Model Num Table)
    : serialize rt t [] = alternating (fields rt t.entries) := by
  unfold serialize fields
  induction t.entries with
  | nil => rfl
  | cons e entries ih =>
    rw [List.flatMap_cons, ih, entry_eq, List.filterMap_cons]
    cases field rt e.1 e.2 with
    | none => simp [alternating]
    | some pair => simp [alternating]

theorem mem_fields {entries : List (Sigma fun _ : Bytes => Value Num Table)}
    {k x : Value Num Table} (h : (k, x) ∈ fields rt entries)
    : ∃ e ∈ entries, k = .string e.1 ∧ x = stored rt e.2 ∧ isPersistent e.1 = true
        ∧ e.2.type ≠ .function := by
  obtain ⟨e, he, hfield⟩ := List.mem_filterMap.mp h
  unfold field at hfield
  split at hfield
  . next hkept =>
    rw [Option.some.injEq, Prod.mk.injEq] at hfield
    rw [Bool.and_eq_true, decide_eq_true_iff] at hkept
    exact ⟨e, he, hfield.1.symm, hfield.2.symm, hkept.1, hkept.2⟩
  . cases hfield

theorem keys_sublist (entries : List (Sigma fun _ : Bytes => Value Num Table))
    : ((fields rt entries).map Prod.fst).Sublist
        (entries.map fun e => (.string e.1 : Value Num Table)) := by
  induction entries with
  | nil => exact .slnil
  | cons e entries ih =>
    unfold fields at ih ⊢
    rw [List.filterMap_cons, List.map_cons]
    unfold field
    split
    . next hnone => exact ih.cons _
    . next pair hsome =>
      split at hsome
      . rw [Option.some.injEq] at hsome
        rw [← hsome]
        exact ih.cons_cons _
      . cases hsome

theorem nodup_keys (t : Model Num Table) : ((fields rt t.entries).map Prod.fst).Nodup := by
  apply (keys_sublist rt t.entries).nodup
  have hkeys : t.entries.map (fun e => (.string e.1 : Value Num Table)) = t.keys.map .string := by
    simp [AList.keys, List.keys]
  rw [hkeys]
  exact t.keys_nodup.map fun _ _ h => (Value.string.injEq _ _).mp h

end serialize

theorem persisted_eq_some_iff {t : Model Num Table} {k : Bytes} {v : Value Num Table}
    : persisted t k = some v
        ↔ t.lookup k = some v ∧ isPersistent k = true ∧ v.type ≠ .function := by
  unfold persisted
  cases h : t.lookup k with
  | none => simp
  | some w =>
    cases hkept : isPersistent k with
    | false =>
      cases w with
      | _ => simp
    | true =>
      constructor
      . intro hsome
        cases w with
        | function ref => cases hsome
        | _ =>
          cases hsome
          simp [Value.type]
      . rintro ⟨heq, -, htype⟩
        cases heq
        cases v with
        | function ref => exact absurd rfl htype
        | _ => rfl

theorem stored_truthy (v : Value Num Table)
    : (serialize.stored rt v).truthy = v.truthy := by
  cases v with
  | _ => rfl

theorem mem_fields_iff (t : Model Num Table) (k : Bytes) (x : Value Num Table)
    : (.string k, x) ∈ serialize.fields rt t.entries
        ↔ ∃ v, persisted t k = some v ∧ x = serialize.stored rt v := by
  constructor
  . intro h
    obtain ⟨e, he, hk, hx, hkept, htype⟩ := serialize.mem_fields rt h
    cases hk
    refine ⟨e.2, persisted_eq_some_iff.mpr ⟨?_, hkept, htype⟩, hx⟩
    exact AList.mem_lookup_iff.mpr he
  . rintro ⟨v, hv, rfl⟩
    obtain ⟨hlookup, hkept, htype⟩ := persisted_eq_some_iff.mp hv
    refine List.mem_filterMap.mpr ⟨⟨k, v⟩, AList.mem_lookup_iff.mp hlookup, ?_⟩
    simp [serialize.field, hkept, htype]

end User
