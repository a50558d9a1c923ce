import SkynetAoi.User.Serialize

/-!
This module contains when the data of a user is the same after `usermodel.save` and `usermodel.load`.
All values come back as strings, and the fields of earlier saves stay in the hash.
-/

namespace User

variable {Num Table : Type} (rt : Runtime Num Table)

def text (v : Value Num Table) : Bytes := rt.tostring (serialize.stored rt v)

-- `save` comes to `hmset`, which takes at least one field.
def writes (self : Model Num Table) : Bool :=
  initialized self && (serialize rt self []).all (encodable rt) && serialize rt self [] ≠ []

def before (uid : Int) (earlier : List (Model Num Table)) : Redis :=
  earlier.foldl (fun redis self => (save rt uid self redis).getD redis) fun _ => ∅

def Survives (reply order : PairsOrder Bytes) (uid : Int) (earlier : List (Model Num Table))
    (self : Model Num Table) : Prop :=
  ∃ redis fresh, save rt uid self (before rt uid earlier) = some redis
    ∧ load rt reply order uid redis usermodel = some fresh
    ∧ ∀ k, persisted fresh k = persisted self k

/--
A model that is saved must have fields that are kept, only strings in them, and no earlier save may
have written another field. For one that is not, its fields must be those that are there.
-/
inductive Restorable (uid : Int) (earlier : List (Model Num Table)) (self : Model Num Table)
    : Prop where
  | saved (hinit : initialized self = true)
      (hsome : ∃ k, persisted self k ≠ none)
      (hstring : ∀ k v, persisted self k = some v → v.type = .string)
      (hpast : ∀ past ∈ earlier, writes rt past = true →
        ∀ k, persisted past k ≠ none → persisted self k ≠ none)
  | kept (hinit : initialized self = false)
      (hwritten : ∃ past ∈ earlier, writes rt past = true)
      (hsame : ∀ k,
        persisted self k = ((before rt uid earlier (userKey rt uid)).lookup k).map .string)
  | new (hinit : initialized self = false)
      (hunwritten : ∀ past ∈ earlier, writes rt past = false)
      (hsame : ∀ k, persisted self k = persisted (init rt uid usermodel) k)

theorem text_string (s : Bytes) : text rt (.string s) = s := rt.tostring_string s

theorem serialize_ne_nil_iff (self : Model Num Table)
    : serialize rt self [] ≠ [] ↔ ∃ k, persisted self k ≠ none := by
  have hfields : serialize rt self [] = [] ↔ serialize.fields rt self.entries = [] := by
    rw [serialize.eq_alternating]
    unfold alternating
    rw [List.flatMap_eq_nil_iff]
    constructor
    . intro h
      apply List.eq_nil_iff_forall_not_mem.mpr
      intro pair hmem
      exact absurd (h pair hmem) (by simp)
    . intro h
      simp [h]
  rw [Ne, hfields, List.eq_nil_iff_forall_not_mem, not_forall]
  constructor
  . rintro ⟨⟨k', x⟩, hmem⟩
    rw [not_not] at hmem
    obtain ⟨e, -, hk, -⟩ := serialize.mem_fields rt hmem
    subst hk
    obtain ⟨v, hv, -⟩ := (mem_fields_iff rt self e.1 x).mp hmem
    exact ⟨e.1, by simp [hv]⟩
  . rintro ⟨k, hk⟩
    obtain ⟨v, hv⟩ := Option.ne_none_iff_exists'.mp hk
    refine ⟨(.string k, serialize.stored rt v), ?_⟩
    rw [not_not]
    exact (mem_fields_iff rt self k _).mpr ⟨v, hv, rfl⟩

theorem exists_persisted_of_writes {self : Model Num Table} (h : writes rt self = true)
    : ∃ k, persisted self k ≠ none := by
  simp only [writes, Bool.and_eq_true, decide_eq_true_iff] at h
  exact (serialize_ne_nil_iff rt self).mp h.2

theorem writes_of_strings {self : Model Num Table} (hinit : initialized self = true)
    (hsome : ∃ k, persisted self k ≠ none)
    (hstring : ∀ k v, persisted self k = some v → v.type = .string)
    : writes rt self = true := by
  have hencodable : (serialize rt self []).all (encodable rt) = true := by
    rw [serialize.eq_alternating, List.all_eq_true]
    intro x hx
    obtain ⟨⟨k', y⟩, hmem, hpair⟩ := List.mem_flatMap.mp hx
    obtain ⟨e, -, hk, -⟩ := serialize.mem_fields rt hmem
    subst hk
    obtain ⟨v, hv, rfl⟩ := (mem_fields_iff rt self e.1 y).mp hmem
    have htype := hstring e.1 v hv
    cases v with
    | string s =>
      rcases List.mem_cons.mp hpair with rfl | hpair
      . rfl
      . rw [List.mem_singleton.mp hpair]
        rfl
    | _ => cases htype
  simp [writes, hinit, hencodable, (serialize_ne_nil_iff rt self).mpr hsome]

theorem lookup_assign_texts (self : Model Num Table) (hash : AList fun _ : Bytes => Bytes) (k : Bytes)
    : (assign ((serialize rt self []).map rt.tostring) hash).lookup k
        = ((persisted self k).map (text rt)).or (hash.lookup k) := by
  have hkeys : ∀ pair ∈ serialize.fields rt self.entries, ∃ k, pair.1 = .string k := by
    rintro ⟨k', x⟩ hmem
    obtain ⟨e, -, hk, -⟩ := serialize.mem_fields rt hmem
    exact ⟨e.1, hk⟩
  have hnodup : (((serialize.fields rt self.entries).map
      (Prod.map rt.tostring rt.tostring)).map Prod.fst).Nodup := by
    have hmap : ((serialize.fields rt self.entries).map
        (Prod.map rt.tostring rt.tostring)).map Prod.fst
          = ((serialize.fields rt self.entries).map Prod.fst).map rt.tostring := by
      simp
    rw [hmap]
    refine List.Nodup.map_on ?_ (serialize.nodup_keys rt self)
    intro x hx y hy h
    obtain ⟨px, hpx, rfl⟩ := List.mem_map.mp hx
    obtain ⟨py, hpy, rfl⟩ := List.mem_map.mp hy
    obtain ⟨kx, hkx⟩ := hkeys px hpx
    obtain ⟨ky, hky⟩ := hkeys py hpy
    rw [hkx, hky, rt.tostring_string, rt.tostring_string] at h
    rw [hkx, hky, h]
  rw [serialize.eq_alternating, alternating_map]
  cases h : persisted self k with
  | some v =>
    apply assign.lookup_of_mem hnodup
    refine List.mem_map.mpr ⟨_, (mem_fields_iff rt self k _).mpr ⟨v, h, rfl⟩, ?_⟩
    simp [text, rt.tostring_string]
  | none =>
    rw [assign.lookup_of_not_mem]
    . rfl
    . intro hmem
      obtain ⟨pair, hpair, hk⟩ := List.mem_map.mp hmem
      obtain ⟨⟨k', x⟩, hfield, rfl⟩ := List.mem_map.mp hpair
      obtain ⟨k'', hk''⟩ := hkeys _ hfield
      simp only at hk''
      subst hk''
      simp only [Prod.map_apply, rt.tostring_string] at hk
      subst hk
      obtain ⟨v, hv, -⟩ := (mem_fields_iff rt self k'' x).mp hfield
      rw [h] at hv
      cases hv

namespace save

variable {rt} {uid : Int} {self : Model Num Table}

theorem of_writes (huid : 0 < uid) (h : writes rt self = true) (redis : Redis)
    : save rt uid self redis
        = some (Function.update redis (userKey rt uid)
          (assign ((serialize rt self []).map rt.tostring) (redis (userKey rt uid)))) := by
  simp only [writes, Bool.and_eq_true, decide_eq_true_iff] at h
  obtain ⟨⟨hinit, hencodable⟩, hne⟩ := h
  have heven : (serialize rt self []).length % 2 = 0 := by
    rw [serialize.eq_alternating, length_alternating]
    omega
  unfold save
  rw [if_pos hinit]
  dsimp only
  rw [if_pos hencodable]
  unfold saveuser hmset
  rw [if_pos huid, if_neg (by simp [hne, heven])]

theorem of_not_writes (h : writes rt self = false) (redis : Redis)
    : (save rt uid self redis).getD redis = redis
        ∧ (initialized self = true → save rt uid self redis = none) := by
  unfold save
  cases hinit : initialized self with
  | false => simp
  | true =>
    simp only [if_true]
    split
    . next hencodable =>
      have hnil : serialize rt self [] = [] := by
        simpa [writes, hinit, hencodable] using h
      unfold saveuser hmset
      split
      . simp [hnil]
      . simp
    . simp

theorem lookup (huid : 0 < uid) (h : writes rt self = true) (redis : Redis)
    : ∃ redis', save rt uid self redis = some redis'
        ∧ ∀ k, (redis' (userKey rt uid)).lookup k
          = ((persisted self k).map (text rt)).or ((redis (userKey rt uid)).lookup k) := by
  refine ⟨_, of_writes huid h redis, ?_⟩
  intro k
  rw [Function.update_self, lookup_assign_texts]

end save

theorem lookup_before_ne_none_iff {uid : Int} (huid : 0 < uid) (earlier : List (Model Num Table))
    (k : Bytes)
    : (before rt uid earlier (userKey rt uid)).lookup k ≠ none
        ↔ ∃ past ∈ earlier, writes rt past = true ∧ persisted past k ≠ none := by
  induction earlier using List.reverseRecOn with
  | nil => simp [before]
  | append_singleton earlier past ih =>
    have hstep : before rt uid (earlier ++ [past])
        = (save rt uid past (before rt uid earlier)).getD (before rt uid earlier) := by
      unfold before
      rw [List.foldl_append]
      rfl
    have hlast : (∃ p ∈ earlier ++ [past], writes rt p = true ∧ persisted p k ≠ none)
        ↔ (∃ p ∈ earlier, writes rt p = true ∧ persisted p k ≠ none)
          ∨ (writes rt past = true ∧ persisted past k ≠ none) := by
      simp only [List.mem_append, List.mem_singleton, or_and_right, exists_or, exists_eq_left]
    rw [hstep, hlast, ← ih]
    cases hwrites : writes rt past with
    | false => simp [(save.of_not_writes hwrites (before rt uid earlier)).1]
    | true =>
      obtain ⟨redis', hsave, hlookup⟩ := save.lookup huid hwrites (before rt uid earlier)
      rw [hsave, Option.getD_some, hlookup]
      cases persisted past k with
      | none => simp
      | some v => simp

theorem exists_lookup_before {uid : Int} (huid : 0 < uid) {earlier : List (Model Num Table)}
    (h : ∃ past ∈ earlier, writes rt past = true)
    : ∃ k, (before rt uid earlier (userKey rt uid)).lookup k ≠ none := by
  obtain ⟨past, hmem, hpast⟩ := h
  obtain ⟨k, hk⟩ := exists_persisted_of_writes rt hpast
  exact ⟨k, (lookup_before_ne_none_iff rt huid earlier k).mpr ⟨past, hmem, hpast, hk⟩⟩

theorem lookup_before_eq_none {uid : Int} (huid : 0 < uid) {earlier : List (Model Num Table)}
    (h : ∀ past ∈ earlier, writes rt past = false) (k : Bytes)
    : (before rt uid earlier (userKey rt uid)).lookup k = none := by
  apply by_contra
  intro hne
  obtain ⟨past, hmem, hpast, -⟩ := (lookup_before_ne_none_iff rt huid earlier k).mp hne
  rw [h past hmem] at hpast
  cases hpast

theorem isPersistent_of_before {uid : Int} (huid : 0 < uid) {earlier : List (Model Num Table)}
    {k : Bytes} (h : (before rt uid earlier (userKey rt uid)).lookup k ≠ none)
    : isPersistent k = true := by
  obtain ⟨past, -, -, hk⟩ := (lookup_before_ne_none_iff rt huid earlier k).mp h
  obtain ⟨v, hv⟩ := Option.ne_none_iff_exists'.mp hk
  exact (persisted_eq_some_iff.mp hv).2.1

theorem lookup_loaduser (order : PairsOrder Bytes) {uid : Int} (huid : 0 < uid) (redis : Redis)
    : ∃ userdata, loaduser rt order uid redis = some userdata
        ∧ ∀ k, userdata.lookup k = (redis (userKey rt uid)).lookup k := by
  unfold loaduser
  rw [if_pos huid]
  refine ⟨_, rfl, ?_⟩
  intro k
  unfold redisPack hgetall
  generalize redis (userKey rt uid) = hash
  have hperm := order.perm hash.keys
  have hkeys : ((order.arrange hash.keys).filterMap fun field =>
      (hash.lookup field).map fun value => (field, value)).map Prod.fst = order.arrange hash.keys := by
    rw [List.map_filterMap]
    conv_rhs => rw [← List.filterMap_some (l := order.arrange hash.keys)]
    apply List.filterMap_congr
    intro field hfield
    have hmem := AList.lookup_isSome.mpr (AList.mem_keys.mpr (hperm.mem_iff.mp hfield))
    obtain ⟨value, hvalue⟩ := Option.isSome_iff_exists.mp hmem
    simp [hvalue]
  cases h : hash.lookup k with
  | some value =>
    have hk : k ∈ order.arrange hash.keys := by
      rw [hperm.mem_iff, ← AList.mem_keys, ← AList.lookup_isSome, h]
      rfl
    apply assign.lookup_of_mem
    . rw [hkeys, hperm.nodup_iff]
      exact hash.keys_nodup
    . exact List.mem_filterMap.mpr ⟨k, hk, by simp [h]⟩
  | none =>
    rw [assign.lookup_of_not_mem]
    . rfl
    . rw [hkeys, hperm.mem_iff, ← AList.mem_keys, ← AList.lookup_isSome, h]
      simp

theorem load.go_lookup (userdata : AList fun _ : Bytes => Bytes) {ks : List Bytes} (hnodup : ks.Nodup)
    (self : Model Num Table) (k : Bytes)
    : (load.go userdata ks self).lookup k
        = if k ∈ ks then ((userdata.lookup k).map .string).or (self.lookup k) else self.lookup k := by
  induction ks generalizing self with
  | nil => simp [load.go]
  | cons j ks ih =>
    rw [List.nodup_cons] at hnodup
    unfold load.go
    cases hj : userdata.lookup j with
    | none =>
      dsimp only
      rw [ih hnodup.2]
      by_cases heq : k = j
      . subst heq
        simp [hnodup.1, hj]
      . simp [heq]
    | some v =>
      dsimp only
      rw [ih hnodup.2]
      by_cases heq : k = j
      . subst heq
        simp [hnodup.1, hj]
      . simp [heq, AList.lookup_insert_ne heq]

theorem usermodel_function {k : Bytes} {v : Value Num Table}
    (h : (usermodel : Model Num Table).lookup k = some v) : v.type = .function := by
  unfold usermodel at h
  by_cases hsave : k = ['s', 'a', 'v', 'e'].map Char.toUInt8
  . rw [hsave, AList.lookup_insert] at h
    cases h
    rfl
  . rw [AList.lookup_insert_ne hsave] at h
    by_cases hload : k = ['l', 'o', 'a', 'd'].map Char.toUInt8
    . rw [hload, AList.lookup_insert] at h
      cases h
      rfl
    . rw [AList.lookup_insert_ne hload, AList.lookup_empty] at h
      cases h

theorem isPersistent_initOk : isPersistent initOk = false := by decide

theorem persisted_of_not_persistent (t : Model Num Table) {k : Bytes} (h : isPersistent k = false)
    : persisted t k = none := by
  cases hk : persisted t k with
  | none => rfl
  | some v =>
    have := (persisted_eq_some_iff.mp hk).2.1
    rw [h] at this
    cases this

theorem persisted_congr {t t' : Model Num Table} {k : Bytes} (h : t.lookup k = t'.lookup k)
    : persisted t k = persisted t' k := by
  unfold persisted
  rw [h]

theorem persisted_insert_initOk (t : Model Num Table) (v : Value Num Table) (k : Bytes)
    : persisted (t.insert initOk v) k = persisted t k := by
  by_cases heq : k = initOk
  . rw [heq, persisted_of_not_persistent _ isPersistent_initOk,
      persisted_of_not_persistent _ isPersistent_initOk]
  . exact persisted_congr (AList.lookup_insert_ne heq)

theorem load_spec (reply order : PairsOrder Bytes) {uid : Int} (huid : 0 < uid) (redis : Redis)
    (hkept : ∀ k, (redis (userKey rt uid)).lookup k ≠ none → isPersistent k = true)
    : ∃ fresh, load rt reply order uid redis usermodel = some fresh
        ∧ ((∀ k, (redis (userKey rt uid)).lookup k = none) →
          ∀ k, persisted fresh k = persisted (init rt uid usermodel) k)
        ∧ ((∃ k, (redis (userKey rt uid)).lookup k ≠ none) →
          ∀ k, persisted fresh k = ((redis (userKey rt uid)).lookup k).map .string) := by
  obtain ⟨userdata, hload, hlookup⟩ := lookup_loaduser rt reply huid redis
  unfold load
  rw [hload]
  refine ⟨_, rfl, ?_, ?_⟩
  . intro hnone k
    rw [persisted_insert_initOk, if_pos]
    rw [Nat.le_zero, List.length_eq_zero_iff, List.eq_nil_iff_forall_not_mem]
    intro j hj
    have := AList.lookup_isSome.mpr (AList.mem_keys.mpr hj)
    rw [hlookup, hnone] at this
    cases this
  . rintro ⟨j, hj⟩ k
    have hmem : ∀ k, k ∈ order.arrange userdata.keys ↔ userdata.lookup k ≠ none := by
      intro k
      rw [(order.perm userdata.keys).mem_iff, ← AList.mem_keys, ← AList.lookup_isSome,
        Option.isSome_iff_ne_none]
    have hne : ¬userdata.keys.length ≤ 0 := by
      have hjmem : j ∈ userdata.keys := by
        rw [← (order.perm userdata.keys).mem_iff, hmem, hlookup]
        exact hj
      have := List.length_pos_of_mem hjmem
      omega
    rw [persisted_insert_initOk, if_neg hne]
    have hgo := load.go_lookup userdata
      ((order.perm userdata.keys).nodup_iff.mpr userdata.keys_nodup) (usermodel : Model Num Table) k
    unfold persisted
    rw [hgo]
    simp only [hmem, hlookup]
    cases hk : (redis (userKey rt uid)).lookup k with
    | some v => simp [hkept k (by simp [hk])]
    | none =>
      simp only [ne_eq, not_true_eq_false, if_false, Option.map_none]
      cases hf : (usermodel : Model Num Table).lookup k with
      | none => rfl
      | some v =>
        have := usermodel_function hf
        cases v with
        | function ref => rfl
        | _ => cases this

theorem not_survives_of_uid (reply order : PairsOrder Bytes) {uid : Int} (huid : ¬0 < uid)
    (earlier : List (Model Num Table)) (self : Model Num Table)
    : ¬Survives rt reply order uid earlier self := by
  rintro ⟨redis, fresh, -, hload, -⟩
  unfold load loaduser at hload
  rw [if_neg huid] at hload
  cases hload

-- A save that writes decides alone, but for the fields it does not have.
theorem survives_of_writes (reply order : PairsOrder Bytes) {uid : Int} (huid : 0 < uid)
    (earlier : List (Model Num Table)) {self : Model Num Table} (h : writes rt self = true)
    : Survives rt reply order uid earlier self
        ↔ ∀ k, persisted self k = (((persisted self k).map (text rt)).or
          ((before rt uid earlier (userKey rt uid)).lookup k)).map .string := by
  obtain ⟨redis, hsave, hlookup⟩ := save.lookup huid h (before rt uid earlier)
  have hsome : ∃ k, (redis (userKey rt uid)).lookup k ≠ none := by
    obtain ⟨k, hk⟩ := exists_persisted_of_writes rt h
    obtain ⟨v, hv⟩ := Option.ne_none_iff_exists'.mp hk
    exact ⟨k, by simp [hlookup, hv]⟩
  have hkept : ∀ k, (redis (userKey rt uid)).lookup k ≠ none → isPersistent k = true := by
    intro k hk
    rw [hlookup] at hk
    cases hself : persisted self k with
    | some v => exact (persisted_eq_some_iff.mp hself).2.1
    | none =>
      rw [hself, Option.map_none, Option.none_or] at hk
      exact isPersistent_of_before rt huid hk
  obtain ⟨fresh, hload, -, hfresh⟩ := load_spec rt reply order huid redis hkept
  have hfresh := hfresh hsome
  unfold Survives
  rw [hsave]
  constructor
  . rintro ⟨_, _, hredis, hload', hsame⟩ k
    cases hredis
    rw [hload, Option.some.injEq] at hload'
    have hk := hfresh k
    rw [hload', hsame k, hlookup k] at hk
    exact hk
  . intro hsame
    refine ⟨redis, fresh, rfl, hload, ?_⟩
    intro k
    rw [hfresh k, hlookup k]
    exact (hsame k).symm

theorem survives_of_not_initialized (reply order : PairsOrder Bytes) (uid : Int)
    (earlier : List (Model Num Table)) {self : Model Num Table} (h : initialized self = false)
    : Survives rt reply order uid earlier self
        ↔ ∃ fresh, load rt reply order uid (before rt uid earlier) usermodel = some fresh
          ∧ ∀ k, persisted fresh k = persisted self k := by
  have hsave : save rt uid self (before rt uid earlier) = some (before rt uid earlier) := by
    unfold save
    simp [h]
  unfold Survives
  rw [hsave]
  simp

theorem restorable_of_survives (reply order : PairsOrder Bytes) {uid : Int} (huid : 0 < uid)
    {earlier : List (Model Num Table)} {self : Model Num Table}
    (h : Survives rt reply order uid earlier self) : Restorable rt uid earlier self := by
  cases hinit : initialized self with
  | true =>
    cases hwrites : writes rt self with
    | false =>
      obtain ⟨redis, -, hsave, -⟩ := h
      rw [(save.of_not_writes hwrites _).2 hinit] at hsave
      cases hsave
    | true =>
      rw [survives_of_writes rt reply order huid earlier hwrites] at h
      refine .saved hinit (exists_persisted_of_writes rt hwrites) ?_ ?_
      . intro k v hv
        have hk := h k
        rw [hv, Option.map_some, Option.some_or, Option.map_some, Option.some.injEq] at hk
        rw [hk]
        rfl
      . intro past hmem hpast k hk hnone
        have hbefore := (lookup_before_ne_none_iff rt huid earlier k).mpr ⟨past, hmem, hpast, hk⟩
        have heq := h k
        rw [hnone, Option.map_none, Option.none_or] at heq
        exact hbefore (Option.map_eq_none_iff.mp heq.symm)
  | false =>
    rw [survives_of_not_initialized rt reply order uid earlier hinit] at h
    obtain ⟨fresh, hload, hsame⟩ := h
    obtain ⟨fresh', hload', hnew, hkept⟩ := load_spec rt reply order huid (before rt uid earlier)
      fun k => isPersistent_of_before rt huid
    rw [hload, Option.some.injEq] at hload'
    rw [← hload'] at hnew hkept
    by_cases hwritten : ∃ past ∈ earlier, writes rt past = true
    . refine .kept hinit hwritten ?_
      intro k
      rw [← hsame k, hkept (exists_lookup_before rt huid hwritten) k]
    . have hunwritten : ∀ past ∈ earlier, writes rt past = false := by
        intro past hmem
        rw [Bool.eq_false_iff]
        intro hpast
        exact hwritten ⟨past, hmem, hpast⟩
      refine .new hinit hunwritten ?_
      intro k
      rw [← hsame k, hnew (lookup_before_eq_none rt huid hunwritten) k]

theorem survives_of_restorable (reply order : PairsOrder Bytes) {uid : Int} (huid : 0 < uid)
    {earlier : List (Model Num Table)} {self : Model Num Table}
    (h : Restorable rt uid earlier self) : Survives rt reply order uid earlier self := by
  obtain ⟨fresh, hload, hnew, hkept⟩ := load_spec rt reply order huid (before rt uid earlier)
    fun k => isPersistent_of_before rt huid
  cases h with
  | saved hinit hsome hstring hpast =>
    rw [survives_of_writes rt reply order huid earlier (writes_of_strings rt hinit hsome hstring)]
    intro k
    cases hk : persisted self k with
    | some v =>
      have htype := hstring k v hk
      cases v with
      | string s => simp [text_string]
      | _ => cases htype
    | none =>
      have hbefore : (before rt uid earlier (userKey rt uid)).lookup k = none := by
        apply by_contra
        intro hne
        obtain ⟨past, hmem, hwrites, hkpast⟩ := (lookup_before_ne_none_iff rt huid earlier k).mp hne
        exact hpast past hmem hwrites k hkpast hk
      simp [hbefore]
  | kept hinit hwritten hsame =>
    rw [survives_of_not_initialized rt reply order uid earlier hinit]
    refine ⟨fresh, hload, ?_⟩
    intro k
    rw [hkept (exists_lookup_before rt huid hwritten) k, hsame k]
  | new hinit hunwritten hsame =>
    rw [survives_of_not_initialized rt reply order uid earlier hinit]
    refine ⟨fresh, hload, ?_⟩
    intro k
    rw [hnew (lookup_before_eq_none rt huid hunwritten) k, hsame k]

theorem survives_iff_restorable (reply order : PairsOrder Bytes) (uid : Int) (earlier : List (Model Num Table))
    (self : Model Num Table)
    : Survives rt reply order uid earlier self ↔ 0 < uid ∧ Restorable rt uid earlier self := by
  constructor
  . intro h
    have huid : 0 < uid := by
      apply by_contra
      intro huid
      exact not_survives_of_uid rt reply order huid earlier self h
    exact ⟨huid, restorable_of_survives rt reply order huid h⟩
  . rintro ⟨huid, h⟩
    exact survives_of_restorable rt reply order huid h

theorem not_survives_of_number
    : ¬Survives .sample (.inserted Bytes) (.inserted Bytes) 1000001 []
        ((AList.insert initOk (.boolean true) ∅).insert (['l', 'e', 'v', 'e', 'l'].map Char.toUInt8)
          (.number 7)) := by
  intro h
  have hwrites : writes .sample ((AList.insert initOk (.boolean true) ∅).insert
      (['l', 'e', 'v', 'e', 'l'].map Char.toUInt8) (.number 7) : Model Int Bytes) = true := by
    decide
  rw [survives_of_writes .sample _ _ (by decide) [] hwrites] at h
  exact absurd (h (['l', 'e', 'v', 'e', 'l'].map Char.toUInt8)) (by decide)

end User
