import SkynetAoi.Seri.RoundTrip

/-!
This module contains when a message can be packed: no value in it is of another type and none lies in
more than 32 tables.
-/

namespace Seri

inductive Within : Nat → LuaValue → LuaValue → Prop where
  | here (v : LuaValue) : Within 0 v v
  | key {d : Nat} {metapairs : Bool} {entries : List (LuaValue × LuaValue)} {k v w : LuaValue}
      (mem : (k, v) ∈ entries) (within : Within d k w) : Within (d + 1) (.table metapairs entries) w
  | value {d : Nat} {metapairs : Bool} {entries : List (LuaValue × LuaValue)} {k v w : LuaValue}
      (mem : (k, v) ∈ entries) (within : Within d v w) : Within (d + 1) (.table metapairs entries) w

def Refused (room : Nat) (v : LuaValue) : Prop :=
  ∃ d w, Within d v w ∧ (room ≤ d ∨ ∃ typename, w = .other typename)

theorem refused_zero (v : LuaValue) : Refused 0 v :=
  ⟨0, v, .here v, .inl (Nat.le_refl 0)⟩

theorem not_refused_of_within {room : Nat} {v : LuaValue} (h : ∀ d w, Within d v w → d = 0 ∧ w = v)
    (hv : ∀ typename, v ≠ .other typename) : ¬ Refused (room + 1) v := by
  rintro ⟨d, w, hwithin, hbad⟩
  obtain ⟨rfl, rfl⟩ := h d w hwithin
  rcases hbad with hle | ⟨typename, rfl⟩
  . omega
  . exact hv typename rfl

theorem refused_table_iff {room : Nat} {metapairs : Bool} {entries : List (LuaValue × LuaValue)}
    : Refused (room + 1) (.table metapairs entries)
        ↔
      ∃ e ∈ entries, Refused room e.1 ∨ Refused room e.2 := by
  constructor
  . rintro ⟨d, w, hwithin, hbad⟩
    cases hwithin with
    | here =>
      rcases hbad with hle | ⟨typename, hother⟩
      . omega
      . simp at hother
    | @key d _ _ k v _ mem within =>
      exact ⟨(k, v), mem, .inl ⟨d, w, within, hbad.imp_left Nat.le_of_succ_le_succ⟩⟩
    | @value d _ _ k v _ mem within =>
      exact ⟨(k, v), mem, .inr ⟨d, w, within, hbad.imp_left Nat.le_of_succ_le_succ⟩⟩
  . rintro ⟨⟨k, v⟩, hmem, ⟨d, w, hwithin, hbad⟩ | ⟨d, w, hwithin, hbad⟩⟩
    . exact ⟨d + 1, w, .key hmem hwithin, hbad.imp_left Nat.succ_le_succ⟩
    . exact ⟨d + 1, w, .value hmem hwithin, hbad.imp_left Nat.succ_le_succ⟩

def RefusesAt (m : Machine) (pack : LuaValue → WriteBlock → Except PackError WriteBlock)
    (room : Nat) : Prop :=
  ∀ v b, WF m v → ((∃ e, pack v b = .error e) ↔ Refused room v)

section

variable {m : Machine} {pack : LuaValue → WriteBlock → Except PackError WriteBlock} {room : Nat}

theorem RefusesAt.packAll (h : RefusesAt m pack room) {vs : List LuaValue}
    (hvs : ∀ v ∈ vs, WF m v) (b : WriteBlock)
    : (∃ e, Seri.packAll pack vs b = .error e) ↔ ∃ v ∈ vs, Refused room v := by
  induction vs generalizing b with
  | nil => simp [Seri.packAll]
  | cons v vs ih =>
    have hiff := h v b (hvs v (by simp))
    rw [Seri.packAll]
    cases hpack : pack v b with
    | error e =>
      rw [hpack] at hiff
      have hv := hiff.mp ⟨e, rfl⟩
      simp [hv]
    | ok b =>
      have hrest := ih (fun v hv => hvs v (by simp [hv])) b
      rw [hpack] at hiff
      have hv : ¬ Refused room v := by
        intro hrefused
        obtain ⟨e, he⟩ := hiff.mpr hrefused
        simp at he
      simp [hv, hrest]

theorem RefusesAt.packPairs (h : RefusesAt m pack room) {es : List (LuaValue × LuaValue)}
    (hkeys : ∀ e ∈ es, WF m e.1) (hvalues : ∀ e ∈ es, WF m e.2) (b : WriteBlock)
    : (∃ e, Seri.packPairs pack es b = .error e)
        ↔
      ∃ e ∈ es, Refused room e.1 ∨ Refused room e.2 := by
  induction es generalizing b with
  | nil => simp [Seri.packPairs]
  | cons e es ih =>
    obtain ⟨k, v⟩ := e
    have hwf : ∀ w ∈ [k, v], WF m w := by
      intro w hw
      simp only [List.mem_cons, List.not_mem_nil, or_false] at hw
      rcases hw with rfl | rfl
      . exact hkeys (w, v) (by simp)
      . exact hvalues (k, w) (by simp)
    have hiff := h.packAll hwf b
    simp only [List.mem_cons, List.not_mem_nil, or_false, exists_eq_or_imp, exists_eq_left] at hiff
    rw [Seri.packPairs]
    cases hpack : Seri.packAll pack [k, v] b with
    | error e =>
      rw [hpack] at hiff
      have hkv := hiff.mp ⟨e, rfl⟩
      simp [hkv]
    | ok b =>
      have hrest := ih (fun e he => hkeys e (by simp [he])) (fun e he => hvalues e (by simp [he])) b
      rw [hpack] at hiff
      have hkv : ¬ (Refused room k ∨ Refused room v) := by
        intro hrefused
        obtain ⟨e, he⟩ := hiff.mpr hrefused
        simp at he
      simp [hkv, hrest]

theorem refused_entries_iff {entries : List (LuaValue × LuaValue)}
    (hdiff : entries.Pairwise fun e f => rawequal e.1 f.1 = false)
    (hvalue : ∀ e ∈ entries, e.2 ≠ .nil) {n : Nat} (hn : n < 2 ^ 31)
    (hborder : n = 0 ∨ rawgeti entries n ≠ .nil)
    : ((∃ v ∈ (List.range n).map fun i => rawgeti entries (i + 1), Refused room v)
          ∨ ∃ e ∈ entries.filter (fun e => !inArray n e.1), Refused room e.1 ∨ Refused room e.2)
        ↔
      ∃ e ∈ entries, Refused room e.1 ∨ Refused room e.2 := by
  have hperm := perm_entries hdiff hvalue hn
  constructor
  . rintro (⟨v, hv, hrefused⟩ | ⟨e, he, hrefused⟩)
    . obtain ⟨i, hi, rfl⟩ := List.mem_map.mp hv
      rw [List.mem_range] at hi
      by_cases hnil : rawgeti entries (i + 1) = .nil
      . -- A hole is refused at the last depth only, and there is an element behind it.
        have hroom : room = 0 := by
          rw [hnil] at hrefused
          cases room with
          | zero => rfl
          | succ room =>
            exact absurd hrefused (not_refused_of_within
              (by rintro d w (_ | _); exact ⟨rfl, rfl⟩) (by simp))
        have hlast := hborder.resolve_left (by omega)
        have hmem := (rawgeti_eq_iff hdiff (by omega) hlast).mp rfl
        refine ⟨_, hmem, .inl ?_⟩
        rw [hroom]
        exact refused_zero _
      . have hmem := (rawgeti_eq_iff hdiff (by omega) hnil).mp rfl
        exact ⟨_, hmem, .inr hrefused⟩
    . exact ⟨e, List.mem_of_mem_filter he, hrefused⟩
  . rintro ⟨e, he, hrefused⟩
    rcases List.mem_append.mp (hperm.mem_iff.mp he) with harray | hhash
    . left
      obtain ⟨j, hj, hne, hkey⟩ := mem_arrayEntries.mp harray
      refine ⟨e.2, List.mem_of_getElem? hj, ?_⟩
      rcases hrefused with hrefused | hrefused
      . -- An index is refused at the last depth only, where its value is refused too.
        cases room with
        | zero => exact refused_zero _
        | succ room =>
          rw [hkey] at hrefused
          exact absurd hrefused (not_refused_of_within
            (by rintro d w (_ | _); exact ⟨rfl, rfl⟩) (by simp))
      . exact hrefused
    . exact .inr ⟨e, hhash, hrefused⟩

theorem RefusesAt.table (h : RefusesAt m pack room) (hlen : ∀ entries, m.rawlen entries < 2 ^ 31)
    (hborder : ∀ entries, m.rawlen entries = 0 ∨ rawgeti entries (m.rawlen entries) ≠ .nil)
    {metapairs : Bool} {entries : List (LuaValue × LuaValue)} (hwf : WF m (.table metapairs entries))
    (b : WriteBlock)
    : (∃ e, wbTable pack m.rawlen metapairs entries b = .error e)
        ↔
      ∃ e ∈ entries, Refused room e.1 ∨ Refused room e.2 := by
  cases hwf with
  | table hdiff hkey hvalue hkeys hvalues =>
  cases metapairs with
  | true =>
    rw [wbTable, if_pos rfl]
    exact h.packPairs hkeys hvalues _
  | false =>
    have hn := hlen entries
    have hlast := hborder entries
    rw [wbTable, if_neg (by simp)]
    generalize m.rawlen entries = n at hn hlast
    obtain ⟨f, -, -, -, hwrites⟩ := @exists_tableHeader pack n hn
    have hvs : ∀ v ∈ (List.range n).map fun i => rawgeti entries (i + 1), WF m v := by
      intro v hv
      obtain ⟨i, -, rfl⟩ := List.mem_map.mp hv
      exact wf_rawgeti hvalues (i + 1)
    have harray := h.packAll hvs (f b)
    have hfilter : ∀ {P : LuaValue × LuaValue → Prop}, (∀ e ∈ entries, P e)
        → ∀ e ∈ entries.filter fun e => !inArray n e.1, P e :=
      fun h e he => h e (List.mem_of_mem_filter he)
    rw [hwrites, ← refused_entries_iff hdiff hvalue hn hlast, ← harray]
    cases hpack : Seri.packAll pack ((List.range n).map fun i => rawgeti entries (i + 1)) (f b) with
    | error e => simp
    | ok b =>
      have hhash := h.packPairs (hfilter hkeys) (hfilter hvalues) b
      simp only [wbTableHash, hhash, reduceCtorEq, exists_false, false_or]

theorem refusesAt_packOne (hlen : ∀ entries, m.rawlen entries < 2 ^ 31)
    (hborder : ∀ entries, m.rawlen entries = 0 ∨ rawgeti entries (m.rawlen entries) ≠ .nil)
    (room : Nat) : RefusesAt m (packOne m room) room := by
  induction room with
  | zero =>
    intro v b _
    exact ⟨fun _ => refused_zero v, fun _ => ⟨.tooDeep, rfl⟩⟩
  | succ room ih =>
    intro v b hv
    cases hv with
    | table hdiff hkey hvalue hkeys hvalues =>
      rw [refused_table_iff]
      exact ih.table hlen hborder (.table hdiff hkey hvalue hkeys hvalues) b
    | other typename =>
      exact ⟨fun _ => ⟨0, _, .here _, .inr ⟨typename, rfl⟩⟩, fun _ => ⟨_, rfl⟩⟩
    | _ =>
      refine ⟨?_, fun h => absurd h (not_refused_of_within ?_ (by simp))⟩
      . rintro ⟨e, he⟩
        simp [packOne] at he
      . rintro d w (_ | _)
        exact ⟨rfl, rfl⟩

end

/--
A message is refused exactly if a value of a type that is not known lies in it, or any value below
more than 32 tables.
-/
theorem luaseriPack_error_iff (m : Machine) (hlen : ∀ entries, m.rawlen entries < 2 ^ 31)
    (hborder : ∀ entries, m.rawlen entries = 0 ∨ rawgeti entries (m.rawlen entries) ≠ .nil)
    (vs : List LuaValue) (hvs : ∀ v ∈ vs, WF m v)
    : (∃ e, luaseriPack m vs = .error e)
        ↔
      ∃ v ∈ vs, ∃ d w, Within d v w ∧ (maxDepth < d ∨ ∃ typename, w = .other typename) := by
  have hiff := (refusesAt_packOne hlen hborder (maxDepth + 1)).packAll hvs wbInit
  unfold luaseriPack
  refine Iff.trans ?_ hiff
  cases packAll (packOne m (maxDepth + 1)) vs wbInit with
  | error e => simp
  | ok b => simp

theorem luaseriPack_error_iff_mixedTable
    : (∃ e, luaseriPack borderOne [mixedTable, .other "function"] = .error e)
        ↔
      ∃ v ∈ [mixedTable, .other "function"],
        ∃ d w, Within d v w ∧ (maxDepth < d ∨ ∃ typename, w = .other typename) :=
  luaseriPack_error_iff borderOne
    (fun entries => by rcases rawlen_borderOne entries with h | h <;> omega)
    (fun entries => (rawlen_borderOne entries).imp_right fun ⟨h, hne⟩ => by rwa [h])
    [mixedTable, .other "function"] (by simp [wf_mixedTable, WF.other])

end Seri
