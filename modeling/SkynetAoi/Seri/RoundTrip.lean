import SkynetAoi.Seri.Table

/-!
This module contains the round trip of a message: what is packed is unpacked to the same values.
-/

namespace Seri

inductive Coded (m : Machine) : List LuaValue → Bytes → List LuaValue → Prop where
  | nil : Coded m [] [] []
  | cons {v w : LuaValue} {vs ws : List LuaValue} {bs cs : Bytes} (reads : Reads m bs w)
      (same : Same v w) (nonempty : 0 < bs.length) (rest : Coded m vs cs ws)
      : Coded m (v :: vs) (bs ++ cs) (w :: ws)

inductive CodedPairs (m : Machine)
    : List (LuaValue × LuaValue) → Bytes → List (LuaValue × LuaValue) → Prop where
  | nil : CodedPairs m [] [] []
  | cons {k v k' v' : LuaValue} {es fs : List (LuaValue × LuaValue)} {bs bs' cs : Bytes}
      (key : Reads m bs k') (sameKey : Same k k') (nonemptyKey : 0 < bs.length)
      (value : Reads m bs' v') (sameValue : Same v v') (nonempty : 0 < bs'.length)
      (rest : CodedPairs m es cs fs)
      : CodedPairs m ((k, v) :: es) (bs ++ (bs' ++ cs)) ((k', v') :: fs)

def Packs (m : Machine) (pack : LuaValue → WriteBlock → Except PackError WriteBlock) : Prop :=
  ∀ v b b', WF m v → b.WF → pack v b = .ok b' →
    ∃ bs w, b'.WF ∧ b'.contents = b.contents ++ bs ∧ Reads m bs w ∧ Same v w ∧ 0 < bs.length

section

variable {m : Machine} {pack : LuaValue → WriteBlock → Except PackError WriteBlock}

theorem Packs.packAll (hpack : Packs m pack) {vs : List LuaValue} {b b' : WriteBlock}
    (hvs : ∀ v ∈ vs, WF m v) (hb : b.WF) (h : packAll pack vs b = .ok b')
    : ∃ cs ws, b'.WF ∧ b'.contents = b.contents ++ cs ∧ Coded m vs cs ws := by
  induction vs generalizing b with
  | nil =>
    rw [Seri.packAll, Except.ok.injEq] at h
    subst h
    exact ⟨[], [], hb, by simp, .nil⟩
  | cons v vs ih =>
    rw [Seri.packAll] at h
    split at h
    . simp at h
    . next b₁ hv =>
      obtain ⟨bs, w, hb₁, hcontents, hreads, hsame, hpos⟩ := hpack v b b₁ (hvs v (by simp)) hb hv
      obtain ⟨cs, ws, hb', hcontents', hcoded⟩ := ih (fun v hv => hvs v (by simp [hv])) hb₁ h
      refine ⟨bs ++ cs, w :: ws, hb', ?_, .cons hreads hsame hpos hcoded⟩
      rw [hcontents', hcontents, List.append_assoc]

theorem Packs.packPairs (hpack : Packs m pack) {es : List (LuaValue × LuaValue)} {b b' : WriteBlock}
    (hkeys : ∀ e ∈ es, WF m e.1) (hvalues : ∀ e ∈ es, WF m e.2) (hb : b.WF)
    (h : packPairs pack es b = .ok b')
    : ∃ cs fs, b'.WF ∧ b'.contents = b.contents ++ (cs ++ [typeNil]) ∧ CodedPairs m es cs fs := by
  induction es generalizing b with
  | nil =>
    rw [Seri.packPairs, Except.ok.injEq] at h
    obtain ⟨hwf, hcontents⟩ := (codes_nil m).writes b hb
    rw [h] at hwf hcontents
    exact ⟨[], [], hwf, hcontents, .nil⟩
  | cons e es ih =>
    obtain ⟨k, v⟩ := e
    rw [Seri.packPairs] at h
    split at h
    . simp at h
    . next b₁ hkv =>
      have hwf : ∀ w ∈ [k, v], WF m w := by
        intro w hw
        simp only [List.mem_cons, List.not_mem_nil, or_false] at hw
        rcases hw with rfl | rfl
        . exact hkeys (w, v) (by simp)
        . exact hvalues (k, w) (by simp)
      obtain ⟨bs, ws, hb₁, hcontents, hcoded⟩ := hpack.packAll hwf hb hkv
      obtain ⟨cs, fs, hb', hcontents', hrest⟩ := ih (fun e he => hkeys e (by simp [he]))
        (fun e he => hvalues e (by simp [he])) hb₁ h
      cases hcoded with
      | cons key sameKey nonemptyKey hvalue =>
        cases hvalue with
        | cons value sameValue nonempty hnil =>
          cases hnil
          refine ⟨_, _, hb', ?_, .cons key sameKey nonemptyKey value sameValue nonempty hrest⟩
          rw [hcontents', hcontents]
          simp

theorem put_fresh {entries : List (LuaValue × LuaValue)} {k v : LuaValue} (hv : v ≠ .nil)
    (hfresh : ∀ e ∈ entries, rawequal e.1 k = false) : put entries k v = entries ++ [(k, v)] := by
  have hany : entries.any (rawequal ·.1 k) = false := by
    rw [List.any_eq_false]
    intro e he
    rw [hfresh e he]
    simp
  cases v with
  | nil => exact absurd rfl hv
  | _ => simp [put, hany]

theorem put_nil {entries : List (LuaValue × LuaValue)} {k : LuaValue}
    (hfresh : ∀ e ∈ entries, rawequal e.1 k = false) : put entries k .nil = entries := by
  unfold put
  rw [List.filter_eq_self]
  intro e he
  rw [hfresh e he]
  rfl

theorem rawset_fresh {entries : List (LuaValue × LuaValue)} {k v : LuaValue} (hk : keyOk m k)
    (hv : v ≠ .nil) (hfresh : ∀ e ∈ entries, rawequal e.1 k = false)
    : rawset m entries k v = some (entries ++ [(k, v)]) := by
  rw [← put_fresh hv hfresh]
  cases k with
  | nil => exact hk.elim
  | number bits => simp [rawset, hk.1, hk.2]
  | _ => rfl

theorem unpackArray_coded {vs ws : List LuaValue} {cs : Bytes} (h : Coded m vs cs ws) {fuel : Nat}
    (hfuel : cs.length ≤ fuel) {i : Nat} (hi : i + vs.length ≤ 2 ^ 63)
    {entries : List (LuaValue × LuaValue)}
    (hfresh : ∀ e ∈ entries, ∃ j < i, e.1 = .integer (.ofNat j)) (rest : Bytes)
    : unpackArray (unpackOne m fuel) vs.length i entries (cs ++ rest)
        = some (entries ++ arrayEntries i ws, rest) := by
  induction h generalizing i entries with
  | nil => simp [unpackArray, arrayEntries]
  | @cons v w vs ws bs cs reads same nonempty coded ih =>
    rw [List.length_append] at hfuel
    rw [List.length_cons] at hi ⊢
    rw [unpackArray, List.append_assoc, reads fuel _ (by omega)]
    simp only [Option.bind_eq_bind, Option.bind_some]
    have hkey : ∀ e ∈ entries, rawequal e.1 (.integer (.ofNat i)) = false := by
      intro e he
      obtain ⟨j, hj, hej⟩ := hfresh e he
      rw [hej, rawequal, decide_eq_false_iff_not]
      intro heq
      have := ofNat_inj (by omega) (by omega) heq
      omega
    by_cases hw : w = .nil
    . subst hw
      rw [put_nil hkey, ih (by omega) (by omega), arrayEntries]
      intro e he
      obtain ⟨j, hj, hej⟩ := hfresh e he
      exact ⟨j, by omega, hej⟩
    . rw [put_fresh hw hkey, ih (by omega) (by omega), arrayEntries_cons i hw, List.append_assoc]
      . rfl
      . intro e he
        rcases List.mem_append.mp he with he | he
        . obtain ⟨j, hj, hej⟩ := hfresh e he
          exact ⟨j, by omega, hej⟩
        . rw [List.mem_singleton.mp he]
          exact ⟨i, by omega, rfl⟩

theorem unpackPairs_coded {es fs : List (LuaValue × LuaValue)} {cs : Bytes}
    (h : CodedPairs m es cs fs) {fuel : Nat} (hfuel : cs.length + 1 ≤ fuel) {rounds : Nat}
    (hrounds : cs.length < rounds) {entries : List (LuaValue × LuaValue)}
    (hkey : ∀ f ∈ fs, keyOk m f.1) (hvalue : ∀ f ∈ fs, f.2 ≠ .nil)
    (hdiff : (entries ++ fs).Pairwise fun e f => rawequal e.1 f.1 = false) (rest : Bytes)
    : unpackPairs m (unpackOne m fuel) rounds entries (cs ++ [typeNil] ++ rest)
        = some (entries ++ fs, rest) := by
  induction h generalizing entries rounds with
  | nil =>
    cases rounds with
    | zero => simp at hrounds
    | succ rounds =>
      rw [unpackPairs, List.nil_append, (codes_nil m).reads fuel rest (by simpa using hfuel)]
      simp
  | @cons k v k' v' es fs bs bs' cs key sameKey nonemptyKey value sameValue nonempty coded ih =>
    rw [List.length_append, List.length_append] at hfuel hrounds
    cases rounds with
    | zero => omega
    | succ rounds =>
      have hk := hkey (k', v') (by simp)
      have hv := hvalue (k', v') (by simp)
      have hfresh : ∀ e ∈ entries, rawequal e.1 k' = false := by
        intro e he
        exact (List.pairwise_append.mp hdiff).2.2 e he (k', v') (by simp)
      have hset := rawset_fresh hk hv hfresh
      have hless : cs.length < rounds := by omega
      have hdiff' : (entries ++ [(k', v')] ++ fs).Pairwise fun e f => rawequal e.1 f.1 = false := by
        simpa using hdiff
      have hread := ih (by omega) hless (fun f hf => hkey f (by simp [hf]))
        (fun f hf => hvalue f (by simp [hf])) hdiff'
      simp only [List.append_assoc] at hread ⊢
      rw [unpackPairs, key fuel _ (by omega)]
      simp only [Option.bind_eq_bind, Option.bind_some]
      split
      . exact hk.elim
      . rw [value fuel _ (by omega), Option.bind_some, hset, Option.bind_some, hread]
        simp

theorem Coded.sameEntries {vs ws : List LuaValue} {cs : Bytes} (h : Coded m vs cs ws) (i : Nat)
    : SameEntries (arrayEntries i vs) (arrayEntries i ws) := by
  induction h generalizing i with
  | nil => exact .nil
  | @cons v w vs ws bs cs reads same nonempty coded ih =>
    by_cases hv : v = .nil
    . subst hv
      cases same
      exact ih (i + 1)
    . rw [arrayEntries_cons i hv, arrayEntries_cons i (same.ne_nil hv)]
      exact .cons (.integer _) same (ih (i + 1))

theorem CodedPairs.sameEntries {es fs : List (LuaValue × LuaValue)} {cs : Bytes}
    (h : CodedPairs m es cs fs) : SameEntries es fs := by
  induction h with
  | nil => exact .nil
  | cons key sameKey nonemptyKey value sameValue nonempty rest ih => exact .cons sameKey sameValue ih

structure TableHeader (f : WriteBlock → WriteBlock) (arraySize : Nat) (type : UInt8) (bs : Bytes)
    : Prop where
  writes : Writes f (type :: bs)
  table : type &&& 7 = typeTable
  reads : ∀ rest, readArraySize (type >>> 3) (bs ++ rest) = some (arraySize, rest)

theorem readArraySize_of_lt {n : Nat} (hn : n < 31) (rest : Bytes)
    : readArraySize (.ofNat n) rest = some (n, rest) := by
  have hnat : (UInt8.ofNat n).toNat = n := by
    rw [UInt8.toNat_ofNat']
    omega
  unfold readArraySize
  rw [hnat, if_neg (by unfold maxCookie; omega)]

theorem tableHeader_short {n : Nat} (hn : n < 31)
    : TableHeader (wbPush · [combineType typeTable (.ofNat n)]) n
        (combineType typeTable (.ofNat n)) [] where
  writes := writes_wbPush _
  table := (header_of_lt (.inr rfl) (by omega)).1
  reads := by
    intro rest
    rw [(header_of_lt (.inr rfl) (by omega)).2]
    exact readArraySize_of_lt hn rest

theorem exists_tableHeader_long {n : Nat} (hn : n < 2 ^ 31)
    : ∃ bs, TableHeader
        (fun b => wbInteger (wbPush b [combineType typeTable (UInt8.ofNat (maxCookie - 1))]) (.ofNat n))
        n (combineType typeTable (UInt8.ofNat (maxCookie - 1))) bs := by
  obtain ⟨type, bs, h⟩ := exists_integerBytes (.ofNat n)
  refine ⟨type :: bs, (writes_wbPush _).comp h.writes, by decide, ?_⟩
  intro rest
  have hcookie := h.cookie
  have hsize : (Int64.ofNat n).toInt32.toNatClampNeg = n := by
    rw [Int64.toInt32_ofNat', Int32.toNatClampNeg, Int32.toInt_ofNat_of_lt hn]
    rfl
  unfold readArraySize
  rw [if_pos (by decide), List.cons_append, rbRead, if_neg (by simp)]
  simp only [Option.bind_eq_bind, Option.bind_some, List.take_succ_cons, List.take_zero,
    List.drop_succ_cons, List.drop_zero, h.number, hcookie, ne_eq, not_true_eq_false, or_self,
    ↓reduceIte, h.reads, hsize]

theorem exists_tableHeader {n : Nat} (hn : n < 2 ^ 31)
    : ∃ f type bs, TableHeader f n type bs
        ∧ ∀ entries b, wbTableArray pack entries n b
          = packAll pack ((List.range n).map fun i => rawgeti entries (i + 1)) (f b) := by
  by_cases hshort : n < 31
  . refine ⟨_, _, _, tableHeader_short hshort, ?_⟩
    intro entries b
    rw [wbTableArray, if_neg (by unfold maxCookie; omega)]
  . obtain ⟨bs, h⟩ := exists_tableHeader_long hn
    refine ⟨_, _, bs, h, ?_⟩
    intro entries b
    rw [wbTableArray, if_pos (by unfold maxCookie; omega)]

theorem wf_rawgeti {entries : List (LuaValue × LuaValue)} (h : ∀ e ∈ entries, WF m e.2) (i : Nat)
    : WF m (rawgeti entries i) := by
  unfold rawgeti
  split
  . next hfind => exact h _ (List.mem_of_find?_eq_some hfind)
  . exact .nil

theorem reads_table {f : WriteBlock → WriteBlock} {type : UInt8} {header cs ds : Bytes}
    {vs ws : List LuaValue} {es fs : List (LuaValue × LuaValue)}
    (hheader : TableHeader f vs.length type header) (hvs : Coded m vs cs ws)
    (hlen : vs.length < 2 ^ 31) (hes : CodedPairs m es ds fs)
    (hkey : ∀ e ∈ fs, keyOk m e.1) (hvalue : ∀ e ∈ fs, e.2 ≠ .nil)
    (hdiff : (arrayEntries 1 ws ++ fs).Pairwise fun e f => rawequal e.1 f.1 = false)
    : Reads m (type :: (header ++ cs ++ (ds ++ [typeNil]))) (.table false (arrayEntries 1 ws ++ fs)) := by
  apply reads_of_pushValue
  intro fuel rest hfuel
  simp only [List.length_append, List.length_cons, List.length_nil] at hfuel
  have hnone : ∀ e ∈ ([] : List (LuaValue × LuaValue)), ∃ j < 1, e.1 = .integer (.ofNat j) := by simp
  have hcs : cs.length ≤ fuel := by omega
  have hds : ds.length + 1 ≤ fuel := by omega
  have harray := unpackArray_coded hvs hcs (by omega) hnone (ds ++ [typeNil] ++ rest)
  have hpairs := unpackPairs_coded hes hds (Nat.lt_succ_of_lt hds) hkey hvalue hdiff rest
  have hbytes : header ++ cs ++ (ds ++ [typeNil]) ++ rest
      = header ++ (cs ++ (ds ++ [typeNil] ++ rest)) := by
    simp only [List.append_assoc]
  rw [hheader.table, hbytes]
  change unpackTable m (unpackOne m fuel) (fuel + 1) (type >>> 3) _ = _
  unfold unpackTable
  simp only [Option.bind_eq_bind, hheader.reads, Option.bind_some, harray, List.nil_append, hpairs]

theorem Packs.table (hpack : Packs m pack) (hlen : ∀ entries, m.rawlen entries < 2 ^ 31)
    {metapairs : Bool} {entries : List (LuaValue × LuaValue)} (hwf : WF m (.table metapairs entries))
    {b b' : WriteBlock} (hb : b.WF) (h : wbTable pack m.rawlen metapairs entries b = .ok b')
    : ∃ bs w, b'.WF ∧ b'.contents = b.contents ++ bs ∧ Reads m bs w
        ∧ Same (.table metapairs entries) w ∧ 0 < bs.length := by
  cases hwf with
  | table hdiff hkey hvalue hkeys hvalues =>
  cases metapairs with
  | true =>
    rw [wbTable, if_pos rfl, wbTableMetapairs] at h
    have hheader := tableHeader_short (n := 0) (by decide)
    obtain ⟨hwf, hcontents⟩ := hheader.writes b hb
    obtain ⟨ds, fs, hb', hcontents', hcoded⟩ := hpack.packPairs hkeys hvalues hwf h
    have hsame := hcoded.sameEntries
    have hreads := reads_table hheader .nil (by decide) hcoded
      (hsame.forall (fun _ _ _ _ hk _ => hk.keyOk) hkey)
      (hsame.forall (fun _ _ _ _ _ hv => hv.ne_nil) hvalue) (hsame.pairwise hdiff)
    refine ⟨_, _, hb', ?_, hreads, .table (.refl _) hsame, by simp⟩
    rw [hcontents', hcontents]
    simp
  | false =>
    rw [wbTable, if_neg (by simp)] at h
    split at h
    . simp at h
    . next b₁ harray =>
      have hn := hlen entries
      generalize m.rawlen entries = n at h harray hn
      obtain ⟨f, type, header, hheader, hwrites⟩ := exists_tableHeader hn
      rw [hwrites] at harray
      obtain ⟨hwf, hcontents⟩ := hheader.writes b hb
      have hvs : ∀ v ∈ (List.range n).map fun i => rawgeti entries (i + 1), WF m v := by
        intro v hv
        obtain ⟨i, -, rfl⟩ := List.mem_map.mp hv
        exact wf_rawgeti hvalues (i + 1)
      obtain ⟨cs, ws, hb₁, hcontents₁, hcoded⟩ := hpack.packAll hvs hwf harray
      have hfilter : ∀ {P : LuaValue × LuaValue → Prop}, (∀ e ∈ entries, P e)
          → ∀ e ∈ entries.filter fun e => !inArray n e.1, P e :=
        fun h e he => h e (List.mem_of_mem_filter he)
      obtain ⟨ds, fs, hb', hcontents', hpairs⟩ :=
        hpack.packPairs (hfilter hkeys) (hfilter hvalues) hb₁ h
      have hperm := perm_entries hdiff hvalue hn
      have hsame := (hcoded.sameEntries 1).append hpairs.sameEntries
      have hlength : ((List.range n).map fun i => rawgeti entries (i + 1)).length = n := by simp
      have hdiff' := (hperm.pairwise_iff (fun {e f} h => by rwa [rawequal_comm])).mp hdiff
      rw [← hlength] at hheader
      have hreads := reads_table hheader hcoded (by rwa [hlength]) hpairs
        (hpairs.sameEntries.forall (fun _ _ _ _ hk _ => hk.keyOk) (hfilter hkey))
        (hpairs.sameEntries.forall (fun _ _ _ _ _ hv => hv.ne_nil) (hfilter hvalue))
        (hsame.pairwise hdiff')
      refine ⟨_, _, hb', ?_, hreads, .table hperm hsame, by simp⟩
      rw [hcontents', hcontents₁, hcontents]
      simp

theorem packs_packOne (hlen : ∀ entries, m.rawlen entries < 2 ^ 31) (room : Nat)
    : Packs m (packOne m room) := by
  have hatom : ∀ {f : WriteBlock → WriteBlock} {bs : Bytes} {v : LuaValue} {b b' : WriteBlock},
      Codes m f bs v → Same v v → b.WF → (.ok (f b) : Except PackError WriteBlock) = .ok b' →
      ∃ bs w, b'.WF ∧ b'.contents = b.contents ++ bs ∧ Reads m bs w ∧ Same v w ∧ 0 < bs.length := by
    intro f bs v b b' hcodes hsame hb h
    rw [Except.ok.injEq] at h
    subst h
    obtain ⟨hwf, hcontents⟩ := hcodes.writes b hb
    exact ⟨bs, v, hwf, hcontents, hcodes.reads, hsame, hcodes.nonempty⟩
  induction room with
  | zero =>
    intro v b b' _ _ h
    simp [packOne] at h
  | succ room ih =>
    intro v b b' hv hb h
    cases hv with
    | nil => exact hatom (codes_nil m) .nil hb h
    | boolean v => exact hatom (codes_boolean m v) (.boolean v) hb h
    | integer n =>
      obtain ⟨bs, hcodes⟩ := exists_codes_integer m n
      exact hatom hcodes (.integer n) hb h
    | number bits => exact hatom (codes_number m bits) (.number bits) hb h
    | @string s hs =>
      obtain ⟨bs, hcodes⟩ := exists_codes_string m hs
      exact hatom hcodes (.string s) hb h
    | lightuserdata p => exact hatom (codes_pointer m p) (.lightuserdata p) hb h
    | other typename => simp [packOne] at h
    | table hdiff hkey hvalue hkeys hvalues =>
      exact ih.table hlen (.table hdiff hkey hvalue hkeys hvalues) hb h

theorem Coded.same {vs ws : List LuaValue} {cs : Bytes} (h : Coded m vs cs ws)
    : List.Forall₂ Same vs ws := by
  induction h with
  | nil => exact .nil
  | cons reads same nonempty rest ih => exact .cons same ih

theorem Coded.unpackAll {vs ws : List LuaValue} {cs : Bytes} (h : Coded m vs cs ws) {fuel : Nat}
    (hfuel : cs.length < fuel) : Seri.unpackAll m fuel cs = some ws := by
  induction h generalizing fuel with
  | nil =>
    cases fuel with
    | zero => simp at hfuel
    | succ fuel => rfl
  | @cons v w vs ws bs cs reads same nonempty coded ih =>
    rw [List.length_append] at hfuel
    cases fuel with
    | zero => omega
    | succ fuel =>
      have hread := reads ((bs ++ cs).length + 1) cs (by simp; omega)
      have hrest := ih (by omega : cs.length < fuel)
      rw [Seri.unpackAll, hread]
      . simp only [Option.bind_eq_bind, Option.bind_some, hrest]
      . intro hnil
        rw [List.append_eq_nil_iff] at hnil
        simp [hnil.1] at nonempty

end

/--
What is packed, however it is cut into blocks, is unpacked to the same values in the same order. A
table comes back with the same entries in another order.
-/
theorem unpack_pack (m : Machine) (hlen : ∀ entries, m.rawlen entries < 2 ^ 31) (vs : List LuaValue)
    (hvs : ∀ v ∈ vs, WF m v) (bytes : Bytes) (h : luaseriPack m vs = .ok bytes)
    : ∃ ws, luaseriUnpack m bytes = some ws ∧ List.Forall₂ Same vs ws := by
  unfold luaseriPack at h
  split at h
  . simp at h
  . next b hpack =>
    rw [Except.ok.injEq] at h
    obtain ⟨cs, ws, hb, hcontents, hcoded⟩ := (packs_packOne hlen _).packAll hvs wf_wbInit hpack
    rw [contents_wbInit, List.nil_append] at hcontents
    have hbytes : bytes = cs := by rw [← h, hb.seri, hcontents]
    refine ⟨ws, ?_, hcoded.same⟩
    rw [hbytes]
    exact hcoded.unpackAll (Nat.lt_succ_self _)

def borderOne : Machine where
  rawlen entries :=
    match rawgeti entries 1 with
    | .nil => 0
    | _ => 1
  toInteger _ := none
  isNaN bits := bits &&& 0x7fffffffffffffff > 0x7ff0000000000000

theorem rawlen_borderOne (entries : List (LuaValue × LuaValue))
    : borderOne.rawlen entries = 0 ∨ borderOne.rawlen entries = 1 ∧ rawgeti entries 1 ≠ .nil := by
  dsimp only [borderOne]
  split
  . exact .inl rfl
  . next hne => exact .inr ⟨rfl, hne⟩

def mixedTable : LuaValue :=
  .table false [(.integer 1, .boolean true), (.string [97], .integer 300)]

theorem wf_mixedTable : WF borderOne mixedTable := by
  refine .table (by simp [rawequal]) (by simp [keyOk]) (by simp) ?_ ?_
  . simpa using ⟨WF.integer 1, WF.string (by decide)⟩
  . simpa using ⟨WF.boolean true, WF.integer 300⟩

theorem unpack_pack_mixedTable
    : ∃ ws, luaseriUnpack borderOne [14, 9, 12, 97, 18, 44, 1, 0, 0] = some ws
        ∧ List.Forall₂ Same [mixedTable, .nil] ws :=
  unpack_pack borderOne (fun entries => by rcases rawlen_borderOne entries with h | h <;> omega)
    [mixedTable, .nil] (by simp [wf_mixedTable, WF.nil]) _ rfl

end Seri
