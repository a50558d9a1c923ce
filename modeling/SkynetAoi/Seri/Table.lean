import SkynetAoi.Seri.Lemmas
import Mathlib.Data.List.Nodup
import Mathlib.Data.List.Pairwise

/-!
This module contains what becomes of a table that is written and read back. Its entries come back in
another order, first the ones of its array, and its keys stay different from each other.
-/

namespace Seri

def keyOk (m : Machine) (key : LuaValue) : Prop :=
  match key with
  | .nil => False
  | .number bits => m.isNaN bits = false ∧ m.toInteger bits = none
  | _ => True

/--
The keys of a table are different from each other and no value of it is nil.
-/
inductive WF (m : Machine) : LuaValue → Prop where
  | nil : WF m .nil
  | boolean (v : Bool) : WF m (.boolean v)
  | integer (n : Int64) : WF m (.integer n)
  | number (bits : UInt64) : WF m (.number bits)
  | string {s : Bytes} (h : s.length < 2 ^ 31) : WF m (.string s)
  | lightuserdata (p : UInt64) : WF m (.lightuserdata p)
  | other (typename : String) : WF m (.other typename)
  | table {metapairs : Bool} {entries : List (LuaValue × LuaValue)}
      (different : entries.Pairwise fun e f => rawequal e.1 f.1 = false)
      (key : ∀ e ∈ entries, keyOk m e.1) (value : ∀ e ∈ entries, e.2 ≠ .nil)
      (keys : ∀ e ∈ entries, WF m e.1) (values : ∀ e ∈ entries, WF m e.2)
      : WF m (.table metapairs entries)

mutual

inductive Same : LuaValue → LuaValue → Prop where
  | nil : Same .nil .nil
  | boolean (v : Bool) : Same (.boolean v) (.boolean v)
  | integer (n : Int64) : Same (.integer n) (.integer n)
  | number (bits : UInt64) : Same (.number bits) (.number bits)
  | string (s : Bytes) : Same (.string s) (.string s)
  | lightuserdata (p : UInt64) : Same (.lightuserdata p) (.lightuserdata p)
  | table {metapairs : Bool} {entries entries' fresh : List (LuaValue × LuaValue)}
      (perm : entries.Perm entries') (same : SameEntries entries' fresh)
      : Same (.table metapairs entries) (.table false fresh)

inductive SameEntries : List (LuaValue × LuaValue) → List (LuaValue × LuaValue) → Prop where
  | nil : SameEntries [] []
  | cons {k v k' v' : LuaValue} {entries fresh : List (LuaValue × LuaValue)} (key : Same k k')
      (value : Same v v') (rest : SameEntries entries fresh)
      : SameEntries ((k, v) :: entries) ((k', v') :: fresh)

end

section

variable {m : Machine} {k k' l l' v v' : LuaValue}

theorem Same.keyOk (h : Same k k') (hk : keyOk m k) : keyOk m k' := by
  cases h with
  | table perm same => trivial
  | _ => exact hk

theorem Same.ne_nil (h : Same v v') (hv : v ≠ .nil) : v' ≠ .nil := by
  cases h with
  | table perm same => simp
  | _ => exact hv

theorem Same.rawequal_eq (hk : Same k k') (hl : Same l l') : rawequal k' l' = rawequal k l := by
  cases hk <;> cases hl <;> rfl

theorem rawequal_comm (k l : LuaValue) : rawequal k l = rawequal l k := by
  cases k <;> cases l <;> simp [rawequal, eq_comm]

instance : Std.Symm fun e f : LuaValue × LuaValue => rawequal e.1 f.1 = false where
  symm e f h := by rwa [rawequal_comm]

theorem SameEntries.append {es fs es' fs' : List (LuaValue × LuaValue)} (h : SameEntries es fs)
    (h' : SameEntries es' fs') : SameEntries (es ++ es') (fs ++ fs') := by
  induction es generalizing fs with
  | nil =>
    cases h
    exact h'
  | cons e es ih =>
    cases h with
    | cons key value rest => exact .cons key value (ih rest)

theorem SameEntries.forall {es fs : List (LuaValue × LuaValue)} (h : SameEntries es fs)
    {P Q : LuaValue × LuaValue → Prop}
    (hPQ : ∀ k v k' v', Same k k' → Same v v' → P (k, v) → Q (k', v')) (hP : ∀ e ∈ es, P e)
    : ∀ f ∈ fs, Q f := by
  induction es generalizing fs with
  | nil =>
    cases h
    simp
  | cons e es ih =>
    cases h with
    | cons key value rest =>
      intro f hf
      rcases List.mem_cons.mp hf with rfl | hf
      . exact hPQ _ _ _ _ key value (hP _ (by simp))
      . apply ih rest _ f hf
        intro e he
        apply hP
        simp [he]

theorem SameEntries.pairwise {es fs : List (LuaValue × LuaValue)} (h : SameEntries es fs)
    (hes : es.Pairwise fun e f => rawequal e.1 f.1 = false)
    : fs.Pairwise fun e f => rawequal e.1 f.1 = false := by
  induction es generalizing fs with
  | nil =>
    cases h
    exact .nil
  | cons e es ih =>
    cases h with
    | @cons k v k' v' _ _ key value rest =>
      rw [List.pairwise_cons] at hes ⊢
      refine ⟨?_, ih rest hes.2⟩
      refine rest.forall (Q := fun f => rawequal k' f.1 = false) ?_ hes.1
      intro l _ l' _ hl _ hne
      rw [← hne]
      exact key.rawequal_eq hl

end

def arrayEntries (i : Nat) (vs : List LuaValue) : List (LuaValue × LuaValue) :=
  match vs with
  | [] => []
  | .nil :: vs => arrayEntries (i + 1) vs
  | v :: vs => (.integer (.ofNat i), v) :: arrayEntries (i + 1) vs

theorem arrayEntries_cons (i : Nat) {v : LuaValue} (hv : v ≠ .nil) (vs : List LuaValue)
    : arrayEntries i (v :: vs) = (.integer (.ofNat i), v) :: arrayEntries (i + 1) vs := by
  cases v with
  | nil => exact absurd rfl hv
  | _ => rfl

theorem mem_arrayEntries {i : Nat} {vs : List LuaValue} {e : LuaValue × LuaValue}
    : e ∈ arrayEntries i vs
        ↔
      ∃ j, vs[j]? = some e.2 ∧ e.2 ≠ .nil ∧ e.1 = .integer (.ofNat (i + j)) := by
  induction vs generalizing i with
  | nil => simp [arrayEntries]
  | cons v vs ih =>
    constructor
    . intro he
      by_cases hv : v = .nil
      . subst hv
        obtain ⟨j, hj, hne, hkey⟩ := ih.mp he
        exact ⟨j + 1, hj, hne, by rw [hkey]; congr 2; omega⟩
      . rw [arrayEntries_cons i hv, List.mem_cons] at he
        rcases he with rfl | he
        . exact ⟨0, rfl, hv, rfl⟩
        . obtain ⟨j, hj, hne, hkey⟩ := ih.mp he
          exact ⟨j + 1, hj, hne, by rw [hkey]; congr 2; omega⟩
    . rintro ⟨j, hj, hne, hkey⟩
      cases j with
      | zero =>
        rw [List.getElem?_cons_zero, Option.some.injEq] at hj
        subst hj
        rw [arrayEntries_cons i hne]
        exact List.mem_cons.mpr (.inl (Prod.ext hkey rfl))
      | succ j =>
        have hmem : e ∈ arrayEntries (i + 1) vs :=
          ih.mpr ⟨j, hj, hne, by rw [hkey]; congr 2; omega⟩
        by_cases hv : v = .nil
        . subst hv
          exact hmem
        . rw [arrayEntries_cons i hv]
          exact List.mem_cons_of_mem _ hmem

theorem ofNat_inj {i j : Nat} (hi : i < 2 ^ 63) (hj : j < 2 ^ 63) (h : Int64.ofNat i = Int64.ofNat j)
    : i = j := by
  have := congrArg Int64.toInt h
  rw [Int64.toInt_ofNat_of_lt hi, Int64.toInt_ofNat_of_lt hj] at this
  omega

theorem nodup_arrayEntries {i : Nat} {vs : List LuaValue} (h : i + vs.length ≤ 2 ^ 63)
    : (arrayEntries i vs).Nodup := by
  induction vs generalizing i with
  | nil => exact List.nodup_nil
  | cons v vs ih =>
    rw [List.length_cons] at h
    by_cases hv : v = .nil
    . subst hv
      exact ih (by omega)
    . rw [arrayEntries_cons i hv, List.nodup_cons]
      refine ⟨?_, ih (by omega)⟩
      intro hmem
      obtain ⟨j, hj, -, hkey⟩ := mem_arrayEntries.mp hmem
      rw [LuaValue.integer.injEq] at hkey
      have hlt := (List.getElem?_eq_some_iff.mp hj).1
      have := ofNat_inj (by omega) (by omega) hkey
      omega

section

variable {entries : List (LuaValue × LuaValue)}

theorem isIndex_iff {key : LuaValue} {i : Nat} (hi : i < 2 ^ 63)
    : isIndex key i = true ↔ key = .integer (.ofNat i) := by
  unfold isIndex
  cases key with
  | integer n =>
    simp only [decide_eq_true_eq, LuaValue.integer.injEq]
    rw [← Int64.toInt_inj, Int64.toInt_ofNat_of_lt hi]
  | _ => simp

theorem rawgeti_eq_iff (hdiff : entries.Pairwise fun e f => rawequal e.1 f.1 = false) {i : Nat}
    (hi : i < 2 ^ 63) {v : LuaValue} (hv : v ≠ .nil)
    : rawgeti entries i = v ↔ (.integer (.ofNat i), v) ∈ entries := by
  unfold rawgeti
  constructor
  . intro h
    split at h
    . next k w hfind =>
      obtain ⟨hkey, hmem⟩ : isIndex k i = true ∧ (k, w) ∈ entries :=
        ⟨by simpa using List.find?_some hfind, List.mem_of_find?_eq_some hfind⟩
      rw [isIndex_iff hi] at hkey
      rwa [← hkey, ← h]
    . exact absurd h.symm hv
  . intro hmem
    split
    . next k w hfind =>
      have hkey : isIndex k i = true := by simpa using List.find?_some hfind
      have hmem' := List.mem_of_find?_eq_some hfind
      rw [isIndex_iff hi] at hkey
      subst hkey
      by_contra hne
      have := hdiff.forall hmem' hmem (by simpa using hne)
      simp [rawequal] at this
    . next hnone =>
      rw [List.find?_eq_none] at hnone
      have := hnone _ hmem
      rw [isIndex_iff hi] at this
      exact absurd rfl this

theorem perm_entries (hdiff : entries.Pairwise fun e f => rawequal e.1 f.1 = false)
    (hvalue : ∀ e ∈ entries, e.2 ≠ .nil) {n : Nat} (hn : n < 2 ^ 31)
    : entries.Perm (arrayEntries 1 ((List.range n).map fun i => rawgeti entries (i + 1))
        ++ entries.filter fun e => !inArray n e.1) := by
  have hsplit := (List.filter_append_perm (fun e : LuaValue × LuaValue => inArray n e.1) entries).symm
  refine hsplit.trans (List.Perm.append_right _ ?_)
  have hnodup : (entries.filter fun e => inArray n e.1).Nodup := by
    have hfilter := hdiff.filter fun e => inArray n e.1
    refine List.Pairwise.imp_of_mem ?_ hfilter
    rintro e f he hf hne rfl
    have hin := (List.mem_filter.mp he).2
    unfold inArray at hin
    split at hin
    . next k hk => simp [hk, rawequal] at hne
    . simp at hin
  rw [List.perm_ext_iff_of_nodup hnodup (nodup_arrayEntries (by simp; omega))]
  intro e
  rw [mem_arrayEntries, List.mem_filter]
  constructor
  . rintro ⟨hmem, hin⟩
    unfold inArray at hin
    split at hin
    . next k hk =>
      simp only [Bool.decide_and, Bool.and_eq_true, decide_eq_true_eq] at hin
      have hkey : k = Int64.ofNat k.toInt.toNat := by
        rw [← Int64.toInt_inj, Int64.toInt_ofNat_of_lt (by omega)]
        omega
      have hne := hvalue e hmem
      refine ⟨k.toInt.toNat - 1, ?_, hne, ?_⟩
      . rw [List.getElem?_map, List.getElem?_range (by omega), Option.map_some, Option.some.injEq,
          rawgeti_eq_iff hdiff (by omega) hne, Nat.sub_add_cancel (by omega), ← hkey, ← hk]
        exact hmem
      . rw [hk, hkey, Int64.toInt_ofNat_of_lt (by omega)]
        congr 2
        omega
    . simp at hin
  . rintro ⟨j, hj, hne, hkey⟩
    have hlt : j < n := by
      have := (List.getElem?_eq_some_iff.mp hj).1
      simpa using this
    rw [List.getElem?_map, List.getElem?_range hlt, Option.map_some, Option.some.injEq,
      rawgeti_eq_iff hdiff (by omega) hne, Nat.add_comm, ← hkey] at hj
    refine ⟨hj, ?_⟩
    rw [hkey, inArray, Int64.toInt_ofNat_of_lt (by omega)]
    simp only [Bool.decide_and, Bool.and_eq_true, decide_eq_true_eq]
    omega

end

end Seri
