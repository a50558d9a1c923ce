import SkynetAoi.Ctrl.Basic

/-!
This module contains which messages `_ctrl` takes for which command. A command is compared over its
own length only, so that what is short of a command word passes for it.
-/

namespace Ctrl

open Numeral

def token (msg : Bytes) : Bytes := msg.takeWhile (· ≠ space)

def parameters (msg : Bytes) : Bytes := (msg.dropWhile (· ≠ space)).dropWhile (· = space)

def fields (msg : Bytes) : List Bytes := (parameters msg).splitOn space

def IsUpdate (msg : Bytes) : Prop := token msg = updateWord ∧ 5 ≤ (fields msg).length

def IsMessage (msg : Bytes) : Prop := token msg = messageWord

structure Grammar (msg : Bytes) : Prop where
  update : (∃ id mode pos, ctrl msg = some (.update id mode pos)) ↔ IsUpdate msg
  message : ctrl msg = some .message ↔ IsMessage msg
  otherwise : ¬IsUpdate msg → ¬IsMessage msg
    → ∀ (Space : Type) (run : Space → Call → Space) (space : Space), handle run space msg = space

def Abbreviates (command word : Bytes) : Prop := command <+: word ∧ command ≠ word

instance (command word : Bytes) : Decidable (Abbreviates command word) :=
  inferInstanceAs (Decidable (_ ∧ _))

theorem strsep_cases (text : Bytes)
    : (∃ field, strsep text = (field, none) ∧ text.splitOn space = [field])
        ∨ ∃ field rest, strsep text = (field, some rest)
            ∧ text.splitOn space = field :: rest.splitOn space := by
  induction text with
  | nil => exact .inl ⟨[], rfl, rfl⟩
  | cons c text ih =>
    unfold strsep
    rw [List.splitOn_cons_eq_if_modifyHead]
    by_cases hc : c = space
    . exact .inr ⟨[], text, by simp [hc]⟩
    . rcases ih with ⟨field, hstrsep, hsplit⟩ | ⟨field, rest, hstrsep, hsplit⟩
      . exact .inl ⟨c :: field, by simp [hc, hstrsep], by simp [hc, hsplit]⟩
      . exact .inr ⟨c :: field, rest, by simp [hc, hstrsep], by simp [hc, hsplit]⟩

theorem updateCall_ne_message (text : Bytes) : updateCall text ≠ some .message := by
  unfold updateCall
  grind

theorem updateCall_isSome_iff (text : Bytes)
    : (∃ id mode pos, updateCall text = some (.update id mode pos))
        ↔ 5 ≤ (text.splitOn space).length := by
  unfold updateCall
  rcases strsep_cases text with ⟨idstr, h, hsplit⟩ | ⟨idstr, text, h, hsplit⟩
  . simp [h, hsplit]
  simp only [h, hsplit, List.length_cons]
  rcases strsep_cases text with ⟨mode, h, hsplit⟩ | ⟨mode, text, h, hsplit⟩
  . simp [h, hsplit]
  simp only [h, hsplit, List.length_cons]
  rcases strsep_cases text with ⟨x, h, hsplit⟩ | ⟨x, text, h, hsplit⟩
  . simp [h, hsplit]
  simp only [h, hsplit, List.length_cons]
  rcases strsep_cases text with ⟨y, h, hsplit⟩ | ⟨y, text, h, hsplit⟩
  . simp [h, hsplit]
  simp only [h, hsplit, List.length_cons]
  have hlast : 0 < (text.splitOn space).length := List.length_pos_of_ne_nil (by simp)
  constructor
  . intro _
    omega
  . intro _
    exact ⟨_, _, _, rfl⟩

theorem ctrl_eq {msg : Bytes} (h : 0 ∉ msg)
    : ctrl msg
        = if msg = [] then
            none
          else if token msg <+: updateWord then
            updateCall (parameters msg)
          else if token msg <+: messageWord then
            some .message
          else
            none := by
  have hle := commandSize_le msg
  have htoken : msg.take (commandSize msg) = token msg := take_commandSize msg
  have hdrop : msg.drop (commandSize msg) = msg.dropWhile (· ≠ space) := by
    have hsplit := List.takeWhile_append_dropWhile (p := (· ≠ space)) (l := msg)
    rw [commandSize_eq]
    nth_rewrite 2 [← hsplit]
    exact List.drop_left
  have hmemeq : ∀ word, memeq (msg ++ [0]) word (commandSize msg) = true ↔ token msg <+: word := by
    intro word
    rw [memeq_eq_true_iff h hle, htoken]
  unfold ctrl
  simp only [List.length_eq_zero_iff, hmemeq, cstring_parm h hle, hdrop]
  rfl

theorem not_updateWord_of_messageWord {command : Bytes} (hne : command ≠ [])
    (h : command <+: messageWord) : ¬command <+: updateWord := by
  intro hupdate
  cases command with
  | nil => exact hne rfl
  | cons c command =>
    have hm : c = 109 := (List.cons_prefix_cons.mp h).1
    have hu : c = 117 := (List.cons_prefix_cons.mp hupdate).1
    rw [hm] at hu
    cases hu

theorem update_iff {msg : Bytes} (h : 0 ∉ msg)
    : (∃ id mode pos, ctrl msg = some (.update id mode pos))
        ↔ token msg <+: updateWord ∧ 5 ≤ (fields msg).length := by
  rw [ctrl_eq h]
  by_cases hnil : msg = []
  . subst hnil
    simp [fields, parameters]
  rw [if_neg hnil]
  by_cases hupdate : token msg <+: updateWord
  . rw [if_pos hupdate, updateCall_isSome_iff]
    simp only [hupdate, true_and, fields]
  . rw [if_neg hupdate]
    simp only [hupdate, false_and, iff_false]
    split
    . simp
    . simp

theorem message_iff {msg : Bytes} (h : 0 ∉ msg)
    : ctrl msg = some .message ↔ token msg ≠ [] ∧ token msg <+: messageWord := by
  rw [ctrl_eq h]
  by_cases hnil : msg = []
  . subst hnil
    simp [token]
  rw [if_neg hnil]
  by_cases hupdate : token msg <+: updateWord
  . rw [if_pos hupdate]
    constructor
    . intro heq
      exact absurd heq (updateCall_ne_message _)
    . rintro ⟨hne, hmessage⟩
      exact absurd hupdate (not_updateWord_of_messageWord hne hmessage)
  . have hne : token msg ≠ [] := by
      intro heq
      rw [heq] at hupdate
      exact hupdate (List.nil_prefix)
    rw [if_neg hupdate]
    simp [hne]

theorem handle_eq_of_none {msg : Bytes} (h : ctrl msg = none) {Space : Type}
    (run : Space → Call → Space) (space : Space) : handle run space msg = space := by
  unfold handle
  rw [h]

-- The words themselves are no slips, what is short of them is one.
theorem grammar_iff {msg : Bytes} (h : 0 ∉ msg)
    : Grammar msg
        ↔ ¬(Abbreviates (token msg) updateWord ∧ 5 ≤ (fields msg).length)
            ∧ ¬(token msg ≠ [] ∧ Abbreviates (token msg) messageWord) := by
  constructor
  . intro hgrammar
    constructor
    . rintro ⟨⟨hstarts, hne⟩, hlen⟩
      exact hne (hgrammar.update.mp ((update_iff h).mpr ⟨hstarts, hlen⟩)).1
    . rintro ⟨hnil, hstarts, hne⟩
      exact hne (hgrammar.message.mp ((message_iff h).mpr ⟨hnil, hstarts⟩))
  . rintro ⟨hupdate, hmessage⟩
    have hiffUpdate : (∃ id mode pos, ctrl msg = some (.update id mode pos)) ↔ IsUpdate msg := by
      rw [update_iff h]
      constructor
      . rintro ⟨hstarts, hlen⟩
        exact ⟨by_contra fun hne => hupdate ⟨⟨hstarts, hne⟩, hlen⟩, hlen⟩
      . rintro ⟨heq, hlen⟩
        exact ⟨heq ▸ List.prefix_refl _, hlen⟩
    have hiffMessage : ctrl msg = some .message ↔ IsMessage msg := by
      rw [message_iff h]
      constructor
      . rintro ⟨hnil, hstarts⟩
        exact by_contra fun hne => hmessage ⟨hnil, hstarts, hne⟩
      . intro heq
        have hword : token msg = messageWord := heq
        rw [hword]
        exact ⟨by decide, List.prefix_refl _⟩
    refine ⟨hiffUpdate, hiffMessage, ?_⟩
    intro hnotUpdate hnotMessage Space run space
    apply handle_eq_of_none
    cases hctrl : ctrl msg with
    | none => rfl
    | some call =>
      cases call with
      | update id mode pos => exact absurd (hiffUpdate.mp ⟨id, mode, pos, hctrl⟩) hnotUpdate
      | message => exact absurd (hiffMessage.mp hctrl) hnotMessage

def tick : Bytes := messageWord ++ [space]

theorem grammar_tick : Grammar tick := (grammar_iff (by decide)).mpr (by decide)

def abbreviated : Bytes :=
  ['u', ' ', '1', ' ', 'w', ' ', '1', ' ', '2', ' ', '3'].map Char.toUInt8

theorem not_grammar_of_abbreviated : ¬Grammar abbreviated := by
  intro hgrammar
  have hnul : 0 ∉ abbreviated := by decide
  have hcall := (update_iff hnul).mpr (by decide)
  exact absurd (hgrammar.update.mp hcall).1 (by decide)

end Ctrl
