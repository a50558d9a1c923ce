import Mathlib.Data.List.TakeWhile

/-!
This module contains patterns as `string.match` has them: characters, and captures of as many
characters of a class as possible. A capture gives characters back when the rest does not match.
-/

namespace Pattern

variable {α : Type}

inductive Item (α : Type) where
  | char (c : α)
  | capture (p : α → Bool)

-- The longest capture that the rest of the pattern matches behind, of at least one character.
def maxExpand (next : List α → Option (List (List α))) (text : List α) (n : Nat)
    : Option (List (List α)) :=
  match n with
  | 0 => none
  | n + 1 =>
    match next (text.drop (n + 1)) with
    | some captures => some (text.take (n + 1) :: captures)
    | none => maxExpand next text n

theorem maxExpand_eq_none {next : List α → Option (List (List α))} {text : List α} {n : Nat}
    (h : ∀ k, 0 < k → k ≤ n → next (text.drop k) = none) : maxExpand next text n = none := by
  induction n with
  | zero => rfl
  | succ n ih =>
    rw [maxExpand, h (n + 1) (by omega) (Nat.le_refl _)]
    exact ih (fun k hpos hle => h k hpos (by omega))

theorem takeWhile_delimited {p : α → Bool} {word text : List α} {c : α} (hword : ∀ x ∈ word, p x = true)
    (hc : p c = false) : (word ++ c :: text).takeWhile p = word := by
  rw [List.takeWhile_append_of_pos hword, List.takeWhile_cons_of_neg (by simp [hc]), List.append_nil]

variable [DecidableEq α]

def matchHere (items : List (Item α)) (text : List α) : Option (List (List α)) :=
  match items with
  | [] => some []
  | .char c :: items =>
    match text with
    | [] => none
    | x :: text => if x = c then matchHere items text else none
  | .capture p :: items => maxExpand (matchHere items) text (text.takeWhile p).length

def find (items : List (Item α)) (text : List α) : Option (List (List α)) :=
  match matchHere items text with
  | some captures => some captures
  | none =>
    match text with
    | [] => none
    | _ :: text => find items text

theorem find_cons (items : List (Item α)) (x : α) (text : List α)
    : find items (x :: text) = (matchHere items (x :: text)).or (find items text) := by
  rw [find]
  cases matchHere items (x :: text) <;> rfl

theorem matchHere_char_of_ne {c x : α} (h : x ≠ c) (items : List (Item α)) (text : List α)
    : matchHere (.char c :: items) (x :: text) = none := by
  rw [matchHere, if_neg h]

theorem matchHere_char_self (c : α) (items : List (Item α)) (text : List α)
    : matchHere (.char c :: items) (c :: text) = matchHere items text := by
  rw [matchHere, if_pos rfl]

theorem matchHere_capture_of_not {p : α → Bool} {items : List (Item α)} {text : List α}
    (h : ∀ x ∈ text.head?, p x = false) : matchHere (.capture p :: items) text = none := by
  have hnone : text.takeWhile p = [] := by
    cases text with
    | nil => rfl
    | cons x text => rw [List.takeWhile_cons_of_neg (by simp [h x (by simp)])]
  rw [matchHere, hnone]
  rfl

theorem matchHere_delimited {p : α → Bool} {c : α} {items : List (Item α)} {word text : List α}
    (hne : word ≠ []) (hword : ∀ x ∈ word, p x = true) (hc : p c = false)
    : matchHere (.capture p :: .char c :: items) (word ++ c :: text)
        = (matchHere items text).map (word :: ·) := by
  obtain ⟨n, hn⟩ := Nat.exists_eq_succ_of_ne_zero (by simpa using hne : word.length ≠ 0)
  rw [matchHere, takeWhile_delimited hword hc, hn, maxExpand, ← Nat.succ_eq_add_one, ← hn,
    List.drop_left, List.take_left, matchHere_char_self]
  cases matchHere items text with
  | some captures => rfl
  | none =>
    apply maxExpand_eq_none
    intro k hpos hle
    have hk : k < word.length := by omega
    rw [List.drop_append_of_le_length (Nat.le_of_lt hk), List.drop_eq_getElem_cons hk]
    apply matchHere_char_of_ne
    intro heq
    have := hword _ (List.getElem_mem hk)
    rw [heq, hc] at this
    cases this

theorem matchHere_rest {text : List α} (hne : text ≠ [])
    : matchHere [.capture fun _ => true] text = some [text] := by
  have hall : text.takeWhile (fun _ => true) = text := by simp
  obtain ⟨n, hn⟩ := Nat.exists_eq_succ_of_ne_zero (by simpa using hne : text.length ≠ 0)
  rw [matchHere, hall, hn, maxExpand, ← Nat.succ_eq_add_one, ← hn, List.drop_length,
    List.take_length]
  rfl

theorem find_eq_none_of_not_mem {p : α → Bool} {c : α} {items : List (Item α)} {text : List α}
    (h : c ∉ text) : find (.capture p :: .char c :: items) text = none := by
  have hhere : ∀ text : List α, c ∉ text
      → matchHere (.capture p :: .char c :: items) text = none := by
    intro text hmem
    apply maxExpand_eq_none
    intro k _ _
    cases hdrop : text.drop k with
    | nil => rfl
    | cons x rest =>
      apply matchHere_char_of_ne
      rintro rfl
      apply hmem
      apply List.mem_of_mem_drop (i := k)
      rw [hdrop]
      exact List.mem_cons_self
  induction text with
  | nil => rw [find, hhere [] h]
  | cons x text ih =>
    rw [find_cons, hhere _ h, Option.none_or]
    exact ih (fun hmem => h (List.mem_cons_of_mem _ hmem))

theorem find_delimited {p : α → Bool} {c : α} {items : List (Item α)} {word text : List α}
    (hword : ∀ x ∈ word, p x = true) (hc : p c = false) (htext : c ∉ text)
    : find (.capture p :: .char c :: items) (word ++ c :: text)
        = if word = [] then none else (matchHere items text).map (word :: ·) := by
  induction word with
  | nil =>
    rw [if_pos rfl, List.nil_append, find_cons, matchHere_capture_of_not (by simp [hc]), Option.none_or]
    exact find_eq_none_of_not_mem htext
  | cons x word ih =>
    have hhere : matchHere (.capture p :: .char c :: items) (x :: word ++ c :: text)
        = (matchHere items text).map ((x :: word) :: ·) :=
      matchHere_delimited (List.cons_ne_nil x word) hword hc
    rw [if_neg (List.cons_ne_nil x word), List.cons_append, find_cons, ← List.cons_append, hhere]
    cases hmatch : matchHere items text with
    | some captures => rfl
    | none =>
      rw [hmatch, Option.map_none, ite_self] at ih
      exact ih (fun y hy => hword y (List.mem_cons_of_mem x hy))

end Pattern
