import SkynetAoi.Ctrl.Callback
import SkynetAoi.Scene.Basic

/-!
This module contains the text dispatcher of `aoi.lua` and what it makes of the messages of
`callbackmessage`.
-/

namespace Ctrl

open Numeral

-- `string.find(input, " ", pos, true)`, indices start at one.
def find (input : Bytes) (pos : Nat) : Option Nat :=
  let pos := max pos 1
  ((input.drop (pos - 1)).findIdx? (· = space)).map (· + pos)

-- `string.sub(input, i, j)` where both indices count from the start.
def sub (input : Bytes) (i j : Nat) : Bytes := (input.take j).drop (max i 1 - 1)

-- `string.split(input, " ")`
def split (input : Bytes) : List Bytes :=
  go (input.length + 1) 0
where
  -- Each separator moves `pos`, so that the fuel is never used up.
  go (fuel pos : Nat) : List Bytes :=
    match fuel with
    | 0 => [sub input pos input.length]
    | fuel + 1 =>
      match find input pos with
      | none => [sub input pos input.length]
      | some st => sub input pos (st - 1) :: go fuel (st + 1)

def commands : List Bytes :=
  [callbackWord] ++ [
    ['e', 'n', 't', 'e', 'r'],
    ['l', 'e', 'a', 'v', 'e'],
    ['o', 'p', 'e', 'n'],
    ['c', 'l', 'o', 's', 'e']
  ].map (·.map Char.toUInt8)

-- The function that is called and its two arguments, `none` for an unknown command. An argument is
-- `nil` where `tonumber` fails.
def dispatch (cmd : Bytes) : Option (Bytes × Option LuaNumber × Option LuaNumber) :=
  let t := split cmd
  match t[0]? with
  | none => none
  | some name =>
    if name ∈ commands then
      some (name, t[1]?.bind tonumber, t[2]?.bind tonumber)
    else
      none

def Survives (watcher marker : UInt32) : Prop :=
  dispatch (callbackmessage watcher marker)
    = some (callbackWord, some (.integer watcher.toNat), some (.integer marker.toNat))

theorem splitOn_of_findIdx?_eq_some {s : Bytes} {i : Nat}
    (h : s.findIdx? (· = space) = some i)
    : s.splitOn space = s.take i :: (s.drop (i + 1)).splitOn space := by
  obtain ⟨hi, heq, hbefore⟩ := List.findIdx?_eq_some_iff_getElem.mp h
  have hsplit : s = s.take i ++ space :: s.drop (i + 1) := by
    have hspace : s[i] = space := by simpa using heq
    rw [← hspace, List.cons_getElem_drop_succ, List.take_append_drop]
  have hnot : space ∉ s.take i := by
    intro hmem
    obtain ⟨j, hj, hget⟩ := List.mem_iff_getElem.mp hmem
    rw [List.length_take] at hj
    rw [List.getElem_take] at hget
    exact absurd (by simpa using hget) (hbefore j (by omega))
  conv_lhs => rw [hsplit]
  exact List.splitOn_append_cons_self_of_not_mem hnot _

theorem split.go_eq (input : Bytes) (fuel p : Nat) (h : input.length < fuel + p)
    : go input fuel (p + 1) = (input.drop p).splitOn space := by
  induction fuel generalizing p with
  | zero =>
    have hnil : input.drop p = [] := List.drop_eq_nil_of_le (by omega)
    simp [go, sub, hnil]
  | succ fuel ih =>
    have hfind : find input (p + 1)
        = ((input.drop p).findIdx? (· = space)).map (· + (p + 1)) := by
      simp [find]
    unfold go
    rw [hfind]
    cases hidx : (input.drop p).findIdx? (· = space) with
    | none =>
      have hnot : space ∉ input.drop p := by
        intro hmem
        have := List.findIdx?_eq_none_iff.mp hidx space hmem
        simp at this
      rw [List.splitOn_eq_singleton hnot]
      simp [sub]
    | some i =>
      have hrest := ih (i + (p + 1)) (by omega)
      have hdrop : (input.drop p).drop (i + 1) = input.drop (i + (p + 1)) := by
        rw [List.drop_drop]
        congr 1
        omega
      have hsub : sub input (p + 1) (i + p) = (input.drop p).take i := by
        rw [List.take_drop]
        simp [sub, Nat.add_comm]
      rw [splitOn_of_findIdx?_eq_some hidx, hdrop, ← hrest, ← hsub]
      rfl

theorem split_eq (input : Bytes) : split input = input.splitOn space := by
  have hzero : split input = split.go input (input.length + 1) (0 + 1) := rfl
  rw [hzero, split.go_eq input _ 0 (by omega), List.drop_zero]

def fit (sz : Nat) (text : Bytes) : Bytes := (text ++ List.replicate sz 0).take sz

theorem callbackmessage_eq (watcher marker : UInt32)
    : callbackmessage watcher marker
        = fit (callbackSize watcher marker) (callbackText watcher marker) := by
  have hzeros : ∀ n, [0] ++ List.replicate n (0 : UInt8) = List.replicate n 0 ++ [0] := by
    intro n
    rw [← List.replicate_succ', List.singleton_append, List.replicate_succ]
  unfold callbackmessage fit
  simp only
  rw [List.append_assoc, hzeros, ← List.append_assoc]
  exact List.take_append_of_le_length (by simp)

theorem fit_append (s text : Bytes) (n : Nat)
    : fit (s.length + n) (s ++ text) = s ++ fit n text := by
  unfold fit
  rw [List.append_assoc, List.take_length_add_append, Nat.add_comm, List.replicate_add,
    ← List.append_assoc, List.take_append_of_le_length (by simp)]

theorem fit_cons (c : UInt8) (text : Bytes) (n : Nat)
    : fit (n + 1) (c :: text) = c :: fit n text := by
  rw [Nat.add_comm]
  exact fit_append [c] text n

theorem fit_length (text : Bytes) : fit text.length text = text := by
  simp [fit]

theorem fit_of_le {n : Nat} {text : Bytes} (h : n ≤ text.length) : fit n text = text.take n := by
  exact List.take_append_of_le_length h

theorem mem_fit {n : Nat} {text : Bytes} {c : UInt8} (h : c ∈ fit n text) : c ∈ text ∨ c = 0 := by
  rcases List.mem_append.mp (List.mem_of_mem_take h) with h | h
  . exact .inl h
  . exact .inr (List.mem_replicate.mp h).2

theorem mem_of_mem_splitOn {s field : Bytes} {c : UInt8} (hfield : field ∈ s.splitOn space)
    (hc : c ∈ field) : c ∈ s := by
  induction s generalizing field with
  | nil =>
    have hnil : field = [] := by simpa using hfield
    simp [hnil] at hc
  | cons d s ih =>
    rw [List.splitOn_cons_eq_if_modifyHead] at hfield
    split at hfield
    . rcases List.mem_cons.mp hfield with rfl | hfield
      . cases hc
      . exact List.mem_cons_of_mem _ (ih hfield hc)
    . obtain ⟨head, tail, heq⟩ := List.exists_cons_of_ne_nil (List.splitOn_ne_nil space s)
      rw [heq, List.modifyHead_cons] at hfield
      rcases List.mem_cons.mp hfield with rfl | hfield
      . rcases List.mem_cons.mp hc with rfl | hc
        . exact List.mem_cons_self
        . exact List.mem_cons_of_mem _ (ih (by simp [heq]) hc)
      . exact List.mem_cons_of_mem _ (ih (by simp [heq, hfield]) hc)

def arguments (watcher marker : UInt32) : List Bytes :=
  (fit (getnumbercount watcher.toNat + getnumbercount marker.toNat + 1)
    (signed (asInt watcher) ++ space :: signed (asInt marker))).splitOn space

theorem survives_iff_arguments (watcher marker : UInt32)
    : Survives watcher marker
        ↔ (arguments watcher marker)[0]?.bind tonumber = some (.integer watcher.toNat)
          ∧ (arguments watcher marker)[1]?.bind tonumber = some (.integer marker.toNat) := by
  have hword : space ∉ callbackWord := by decide
  have hmem : callbackWord ∈ commands := by decide
  have hsize : callbackSize watcher marker = callbackWord.length
      + (getnumbercount watcher.toNat + getnumbercount marker.toNat + 1 + 1) := by
    unfold callbackSize
    omega
  have hsplit : split (callbackmessage watcher marker)
      = callbackWord :: arguments watcher marker := by
    rw [split_eq, callbackmessage_eq, hsize, callbackText, fit_append, fit_cons,
      List.splitOn_append_cons_self_of_not_mem hword]
    rfl
  unfold Survives dispatch
  simp [hsplit, hmem]

theorem signed_ne_space {n : Int} {c : UInt8} (h : c ∈ signed n) : c ≠ space :=
  signed_forall (p := (· ≠ space)) (by decide) (by decide) h

theorem signed_lower {n : Int} {c : UInt8} (h : c ∈ signed n) : lower c ≠ 120 :=
  signed_forall (p := (lower · ≠ 120)) (by decide) (by decide) h

theorem tonumber_minus_ne {s : Bytes} (hs : ∀ c ∈ s, lower c ≠ 120) {n : Nat} (hn : 0 < n)
    : tonumber (minus :: s) ≠ some (.integer n) := by
  intro h
  have := tonumber_minus hs h
  omega

theorem watcher_lt {watcher marker : UInt32}
    (h : (arguments watcher marker)[0]?.bind tonumber = some (.integer watcher.toNat))
    : watcher.toNat < 2 ^ 31 := by
  apply by_contra
  intro hge
  have hcons : arguments watcher marker
      = (minus :: fit (getnumbercount watcher.toNat + getnumbercount marker.toNat)
          (decimal (2 ^ 32 - watcher.toNat) ++ space :: signed (asInt marker))).splitOn space := by
    rw [arguments, signed_asInt_of_ge (by omega), List.cons_append, fit_cons]
  rw [hcons, List.splitOn_cons_eq_if_modifyHead, if_neg (by decide)] at h
  obtain ⟨field, fields, heq⟩ := List.exists_cons_of_ne_nil (List.splitOn_ne_nil space
    (fit (getnumbercount watcher.toNat + getnumbercount marker.toNat)
      (decimal (2 ^ 32 - watcher.toNat) ++ space :: signed (asInt marker))))
  rw [heq] at h
  refine tonumber_minus_ne (s := field) (fun c hc => ?_) (by omega) h
  have hmem := mem_of_mem_splitOn (heq ▸ List.mem_cons_self) hc
  rcases mem_fit hmem with hmem | rfl
  . rcases List.mem_append.mp hmem with hmem | hmem
    . exact digit_forall (p := (lower · ≠ 120)) (by decide) hmem
    . rcases List.mem_cons.mp hmem with rfl | hmem
      . decide
      . exact signed_lower hmem
  . decide

theorem arguments_of_lt {watcher marker : UInt32} (hwatcher : watcher.toNat < 2 ^ 31) {sz : Nat}
    (hsz : getnumbercount watcher.toNat + getnumbercount marker.toNat
      = (decimal watcher.toNat).length + sz)
    : arguments watcher marker
        = [decimal watcher.toNat, fit sz (signed (asInt marker))] := by
  have hspace : space ∉ decimal watcher.toNat := by
    intro hmem
    exact digit_forall (p := (· ≠ space)) (by decide) hmem rfl
  have hrest : space ∉ fit sz (signed (asInt marker)) := by
    intro hmem
    rcases mem_fit hmem with hmem | hzero
    . exact signed_ne_space hmem rfl
    . exact absurd hzero (by decide)
  rw [arguments, signed_asInt_of_lt hwatcher, hsz, Nat.add_assoc, fit_append, fit_cons,
    List.splitOn_append_cons_self_of_not_mem hspace, List.splitOn_eq_singleton hrest]

theorem getnumbercount_pos {n : Nat} (h : n ≠ 0) : 0 < getnumbercount n := by
  have := (getnumbercount_le_iff n 0).not.mpr (by omega)
  omega

theorem tonumber_nil : tonumber [] = none := rfl

theorem arguments_zero : arguments 0 0 = [[digit 0]] := by
  have hcount : getnumbercount (0 : UInt32).toNat = 0 := getnumbercount_zero
  rw [arguments, hcount]
  rfl

theorem tonumber_take_ne {n : Nat} (hlt : n < 2 ^ 31)
    : tonumber ((decimal n).take ((decimal n).length - 1)) ≠ some (.integer n) := by
  by_cases hten : n < 10
  . rw [decimal_of_lt hten]
    simp [tonumber_nil]
  . have htake : (decimal n).take ((decimal n).length - 1) = decimal (n / 10) := by
      rw [decimal_of_ge (by omega)]
      simp
    rw [htake, tonumber_decimal (by omega)]
    intro h
    have : ((n / 10 : Nat) : Int) = n := by simpa using h
    omega

theorem length_decimal_le {watcher marker : UInt32} (h : watcher.toNat ≠ 0 ∨ marker.toNat ≠ 0)
    : (decimal watcher.toNat).length
        ≤ getnumbercount watcher.toNat + getnumbercount marker.toNat := by
  by_cases hzero : watcher.toNat = 0
  . have hone : (decimal watcher.toNat).length = 1 := by
      rw [hzero]
      rfl
    have := getnumbercount_pos (h.resolve_left (not_not.mpr hzero))
    omega
  . rw [length_decimal hzero]
    omega

theorem validId_iff (id : UInt32) : Scene.ValidId id ↔ id.toNat ≠ 0 ∧ id.toNat < 2 ^ 31 := by
  unfold Scene.ValidId
  rw [UInt32.lt_iff_toNat_lt, UInt32.lt_iff_toNat_lt, ← Nat.pos_iff_ne_zero]
  rfl

theorem ne_zero_of_survives {watcher marker : UInt32} (h : Survives watcher marker)
    : watcher.toNat ≠ 0 ∨ marker.toNat ≠ 0 := by
  apply by_contra
  intro hnone
  have hwatcher : watcher = 0 := UInt32.toNat_inj.mp (by simp; omega)
  have hmarker : marker = 0 := UInt32.toNat_inj.mp (by simp; omega)
  have hm := ((survives_iff_arguments watcher marker).mp h).2
  rw [hwatcher, hmarker, arguments_zero] at hm
  cases hm

theorem marker_of_survives {watcher marker : UInt32} (h : Survives watcher marker)
    : ∃ sz, getnumbercount watcher.toNat + getnumbercount marker.toNat
          = (decimal watcher.toNat).length + sz
        ∧ tonumber (fit sz (signed (asInt marker))) = some (.integer marker.toNat) := by
  obtain ⟨hw, hm⟩ := (survives_iff_arguments watcher marker).mp h
  obtain ⟨sz, hsz⟩ := Nat.exists_eq_add_of_le (length_decimal_le (ne_zero_of_survives h))
  rw [arguments_of_lt (watcher_lt hw) hsz] at hm
  exact ⟨sz, hsz, hm⟩

theorem marker_lt {watcher marker : UInt32} (h : Survives watcher marker)
    : marker.toNat < 2 ^ 31 := by
  obtain ⟨sz, hsz, hm⟩ := marker_of_survives h
  apply by_contra
  intro hge
  have htwo := (getnumbercount_le_iff marker.toNat 1).not.mpr (by omega)
  have hpos : sz = sz - 1 + 1 := by
    by_cases hzero : watcher.toNat = 0
    . have hone : (decimal 0).length = 1 := rfl
      rw [hzero] at hsz
      omega
    . rw [length_decimal hzero] at hsz
      omega
  rw [signed_asInt_of_ge (by omega), hpos, fit_cons] at hm
  refine tonumber_minus_ne (fun c hc => ?_) (by omega) hm
  rcases mem_fit hc with hc | rfl
  . exact digit_forall (p := (lower · ≠ 120)) (by decide) hc
  . decide

theorem marker_ne_zero {watcher marker : UInt32} (h : Survives watcher marker)
    : marker.toNat ≠ 0 := by
  intro hzero
  obtain ⟨sz, hsz, hm⟩ := marker_of_survives h
  have hwatcher := (ne_zero_of_survives h).resolve_right (not_not.mpr hzero)
  have hnil : sz = 0 := by
    rw [length_decimal hwatcher, hzero, getnumbercount_zero] at hsz
    omega
  rw [hnil, fit_of_le (Nat.zero_le _), List.take_zero, tonumber_nil] at hm
  cases hm

theorem watcher_ne_zero {watcher marker : UInt32} (h : Survives watcher marker)
    : watcher.toNat ≠ 0 := by
  intro hzero
  obtain ⟨sz, hsz, hm⟩ := marker_of_survives h
  have hone : (decimal 0).length = 1 := rfl
  have hlast : sz = (decimal marker.toNat).length - 1 := by
    rw [hzero, getnumbercount_zero, hone] at hsz
    rw [length_decimal (marker_ne_zero h)]
    omega
  rw [signed_asInt_of_lt (marker_lt h), hlast, fit_of_le (by omega)] at hm
  exact tonumber_take_ne (marker_lt h) hm

theorem valid_of_survives {watcher marker : UInt32} (h : Survives watcher marker)
    : Scene.ValidId watcher ∧ Scene.ValidId marker := by
  have hw := watcher_lt ((survives_iff_arguments watcher marker).mp h).1
  exact ⟨(validId_iff _).mpr ⟨watcher_ne_zero h, hw⟩,
    (validId_iff _).mpr ⟨marker_ne_zero h, marker_lt h⟩⟩

theorem survives_of_valid {watcher marker : UInt32} (hw : Scene.ValidId watcher)
    (hm : Scene.ValidId marker) : Survives watcher marker := by
  obtain ⟨hwne, hwlt⟩ := (validId_iff _).mp hw
  obtain ⟨hmne, hmlt⟩ := (validId_iff _).mp hm
  have hsz : getnumbercount watcher.toNat + getnumbercount marker.toNat
      = (decimal watcher.toNat).length + (decimal marker.toNat).length := by
    rw [length_decimal hwne, length_decimal hmne]
  rw [survives_iff_arguments, arguments_of_lt hwlt hsz, signed_asInt_of_lt hmlt, fit_length]
  exact ⟨tonumber_decimal (by omega), tonumber_decimal (by omega)⟩

-- A zero is counted as if it were not written and takes a digit from the end of the text, an id
-- from `2 ^ 31` on has a minus sign.
theorem survives_iff (watcher marker : UInt32)
    : Survives watcher marker ↔ Scene.ValidId watcher ∧ Scene.ValidId marker :=
  ⟨valid_of_survives, fun h => survives_of_valid h.1 h.2⟩

theorem not_survives_zero : ¬Survives 0 5 := by
  intro h
  exact absurd (valid_of_survives h).1.1 (by decide)

end Ctrl
