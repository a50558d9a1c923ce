import SkynetAoi.Ctrl.Grammar
import SkynetAoi.Scene.Basic

/-!
This module contains the way of an update from the map service to the space: the text that
`CMD.enter` builds is the call that `_ctrl` ends in.
-/

namespace Ctrl

open Numeral

-- `"update " .. tempid .. " " .. mode .. " " .. x .. " " .. y .. " " .. z`
def enterText (tempid : Int) (mode : Bytes) (x y z : Int) : Bytes :=
  updateWord ++ space :: (signed tempid ++ space :: (mode ++ space :: (signed x ++ space ::
    (signed y ++ space :: signed z))))

def updateText (tempid : Int) (mode x y z : Bytes) : Bytes :=
  updateWord ++ space :: (signed tempid ++ space :: (mode ++ space :: (x ++ space ::
    (y ++ space :: z))))

theorem strsep_append {field : Bytes} (h : space ∉ field) (rest : Bytes)
    : strsep (field ++ space :: rest) = (field, some rest) := by
  induction field with
  | nil => simp [strsep]
  | cons c field ih =>
    rw [List.mem_cons, not_or] at h
    simp [strsep, Ne.symm h.1, ih h.2]

theorem strsep_of_not_mem {field : Bytes} (h : space ∉ field) : strsep field = (field, none) := by
  induction field with
  | nil => rfl
  | cons c field ih =>
    rw [List.mem_cons, not_or] at h
    simp [strsep, Ne.symm h.1, ih h.2]

theorem updateCall_append {idstr mode x y z : Bytes} (hid : space ∉ idstr) (hmode : space ∉ mode)
    (hx : space ∉ x) (hy : space ∉ y) (hz : space ∉ z)
    : updateCall (idstr ++ space :: (mode ++ space :: (x ++ space :: (y ++ space :: z))))
        = some (.update (UInt32.ofInt (strtol idstr)) mode ⟨strtof x, strtof y, strtof z⟩) := by
  unfold updateCall
  simp only [strsep_append hid, strsep_append hmode, strsep_append hx, strsep_append hy,
    strsep_of_not_mem hz]

theorem space_not_mem_signed (n : Int) : space ∉ signed n := by
  intro h
  exact absurd rfl (signed_forall (p := (· ≠ space)) (by decide) (by decide) h)

theorem zero_not_mem_signed (n : Int) : 0 ∉ signed n := by
  intro h
  exact absurd rfl (signed_forall (p := (· ≠ 0)) (by decide) (by decide) h)

theorem strtol_toNat (tempid : UInt32) : UInt32.ofInt (strtol (signed tempid.toNat)) = tempid := by
  have hlt := tempid.toNat_lt
  have hsigned : signed tempid.toNat = decimal tempid.toNat := by
    simp [signed]
  rw [hsigned, strtol_decimal (by omega)]
  have hofNat : UInt32.ofInt (tempid.toNat : Int) = UInt32.ofNat tempid.toNat := by
    unfold UInt32.ofInt
    congr 1
    omega
  rw [hofNat, UInt32.ofNat_toNat]

theorem dropWhile_signed_append (n : Int) (rest : Bytes)
    : (signed n ++ rest).dropWhile (· = space) = signed n ++ rest := by
  cases h : signed n with
  | nil =>
    unfold signed at h
    split at h
    . cases h
    . exact absurd h (decimal_ne_nil _)
  | cons c s =>
    have hc : c ≠ space := by
      rintro rfl
      exact space_not_mem_signed n (by simp [h])
    rw [List.cons_append, List.dropWhile_cons_of_neg (by simp [hc])]

theorem forall_ne_space {command : Bytes} (h : space ∉ command)
    : ∀ c ∈ command, decide (c ≠ space) = true := by
  intro c hc
  rw [decide_eq_true_iff]
  rintro rfl
  exact h hc

theorem token_append {command : Bytes} (h : space ∉ command) (rest : Bytes)
    : token (command ++ space :: rest) = command := by
  unfold token
  rw [List.takeWhile_append_of_pos (forall_ne_space h), List.takeWhile_cons_of_neg (by simp),
    List.append_nil]

theorem parameters_append {command : Bytes} (h : space ∉ command) (rest : Bytes)
    : parameters (command ++ space :: rest) = rest.dropWhile (· = space) := by
  unfold parameters
  rw [List.dropWhile_append_of_pos (forall_ne_space h), List.dropWhile_cons_of_neg (by simp),
    List.dropWhile_cons_of_pos (by simp)]

def Clean (s : Bytes) : Prop := space ∉ s ∧ 0 ∉ s

theorem clean_signed (n : Int) : Clean (signed n) := ⟨space_not_mem_signed n, zero_not_mem_signed n⟩

-- The first field must not be empty, or the spaces in front of it would be skipped with the others.
theorem ctrl_updateText (tempid : UInt32) {mode x y z : Bytes} (hmode : Clean mode) (hx : Clean x)
    (hy : Clean y) (hz : Clean z)
    : ctrl (updateText tempid.toNat mode x y z)
        = some (.update tempid mode ⟨strtof x, strtof y, strtof z⟩) := by
  have hword : space ∉ updateWord := by decide
  have hzero : (0 : UInt8) ∉ updateText tempid.toNat mode x y z := by
    have hword : (0 : UInt8) ∉ updateWord := by decide
    have hsep : (0 : UInt8) ≠ space := by decide
    simp [updateText, hword, hsep, hmode.2, hx.2, hy.2, hz.2, zero_not_mem_signed]
  have htoken : token (updateText tempid.toNat mode x y z) = updateWord := token_append hword _
  have hparameters := parameters_append hword
    (signed tempid.toNat ++ space :: (mode ++ space :: (x ++ space :: (y ++ space :: z))))
  rw [dropWhile_signed_append] at hparameters
  rw [ctrl_eq hzero, if_neg (by simp [updateText]), htoken, if_pos (List.prefix_refl _)]
  unfold updateText
  rw [hparameters, updateCall_append (space_not_mem_signed _) hmode.1 hx.1 hy.1 hz.1, strtol_toNat]

theorem ctrl_enterText (tempid : UInt32) (mode : Bytes) (x y z : Int) (hspace : space ∉ mode)
    (hnul : 0 ∉ mode) (hx : |x| ≤ 2 ^ 24) (hy : |y| ≤ 2 ^ 24) (hz : |z| ≤ 2 ^ 24)
    : ctrl (enterText tempid.toNat mode x y z)
        = some (.update tempid mode ⟨.finite x, .finite y, .finite z⟩) := by
  have htext := ctrl_updateText tempid ⟨hspace, hnul⟩ (clean_signed x) (clean_signed y) (clean_signed z)
  rw [strtof_signed hx, strtof_signed hy, strtof_signed hz] at htext
  exact htext

theorem ctrl_enterText_border :
    ctrl (enterText (0x7FFFFFFF : UInt32).toNat [] (-16777216) 0 16777216)
      = some (.update 0x7FFFFFFF [] ⟨.finite (-16777216 : Int), .finite (0 : Int),
          .finite (16777216 : Int)⟩) :=
  ctrl_enterText 0x7FFFFFFF [] (-16777216) 0 16777216 (by decide) (by decide) (by decide)
    (by decide) (by decide)

def Call.event (call : Call) : Option Caoi.Event :=
  match call with
  | .update id mode ⟨.finite x, .finite y, .finite z⟩ =>
    some (.update id (mode.map fun c => Char.ofNat c.toNat) ⟨x, y, z⟩)
  | .update _ _ _ => none
  | .message => some .message

def IsGraph (c : Char) : Prop := 32 < c.toNat ∧ c.toNat < 256

theorem toUInt8_of_isGraph {c : Char} (h : IsGraph c)
    : Char.ofNat c.toUInt8.toNat = c ∧ c.toUInt8 ≠ space ∧ c.toUInt8 ≠ 0 := by
  obtain ⟨hlower, hupper⟩ := h
  have htoNat : c.toUInt8.toNat = c.toNat := by
    have : c.toUInt8.toNat = c.toNat % 2 ^ 8 := rfl
    omega
  refine ⟨by rw [htoNat, Char.ofNat_toNat], ?_, ?_⟩
  . intro heq
    rw [heq] at htoNat
    have : space.toNat = 32 := rfl
    omega
  . intro heq
    rw [heq] at htoNat
    have : (0 : UInt8).toNat = 0 := rfl
    omega

theorem ctrl_enterText_event (id : UInt32) (mode : List Char) (pos : Point)
    (hmode : ∀ c ∈ mode, IsGraph c) (hx : |⌊pos.x / 10⌋| ≤ 2 ^ 24)
    (hy : |⌊pos.y / 10⌋| ≤ 2 ^ 24) (hz : |⌊pos.z / 10⌋| ≤ 2 ^ 24)
    : (ctrl (enterText id.toNat (mode.map Char.toUInt8) ⌊pos.x / 10⌋ ⌊pos.y / 10⌋
          ⌊pos.z / 10⌋)).bind Call.event
        = some (Scene.event (.update id mode (Aoi.scaled pos))) := by
  have hspace : space ∉ mode.map Char.toUInt8 := by
    intro hmem
    obtain ⟨c, hc, heq⟩ := List.mem_map.mp hmem
    exact (toUInt8_of_isGraph (hmode c hc)).2.1 heq
  have hnul : 0 ∉ mode.map Char.toUInt8 := by
    intro hmem
    obtain ⟨c, hc, heq⟩ := List.mem_map.mp hmem
    exact (toUInt8_of_isGraph (hmode c hc)).2.2 heq
  have hchars : (mode.map Char.toUInt8).map (fun c => Char.ofNat c.toNat) = mode := by
    rw [List.map_map, List.map_congr_left (g := fun c => c)]
    . exact List.map_id'' (fun _ => rfl) mode
    . intro c hc
      exact (toUInt8_of_isGraph (hmode c hc)).1
  rw [ctrl_enterText id _ _ _ _ hspace hnul hx hy hz, Option.bind_some]
  simp only [Call.event, hchars]
  rfl

theorem ctrl_tick_event : (ctrl tick).bind Call.event = some (Scene.event .message) := by
  decide

end Ctrl
