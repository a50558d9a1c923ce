import Mathlib.Data.List.Infix

/-!
This module contains texts that are read line by line while they still come in. Where a text is cut
into the pieces that come in makes no difference to the reader.
-/

namespace Lines

variable {α : Type}

theorem parts_of_line {c : α} {word more front back : List α} (hword : c ∉ word)
    (h : front ++ back = word ++ c :: more)
    : c ∉ front ∨ ∃ rest, front = word ++ c :: rest ∧ rest ++ back = more := by
  rcases List.append_eq_append_iff.mp h with ⟨tail, rfl, hback⟩ | ⟨tail, rfl, hmore⟩
  . left
    intro hmem
    exact hword (List.mem_append_left _ hmem)
  . cases tail with
    | nil =>
      left
      rwa [List.append_nil]
    | cons x tail =>
      rw [List.cons_append, List.cons.injEq] at hmore
      obtain ⟨rfl, hmore⟩ := hmore
      exact .inr ⟨tail, rfl, hmore.symm⟩

variable [DecidableEq α]

def cut (sep text : List α) : Option (List α × List α) :=
  if sep <+: text then
    some ([], text.drop sep.length)
  else
    match text with
    | [] => none
    | x :: text =>
      match cut sep text with
      | none => none
      | some (line, rest) => some (x :: line, rest)

theorem cut_of_isPrefix {sep text : List α} (h : sep <+: text)
    : cut sep text = some ([], text.drop sep.length) := by
  cases text with
  | nil => exact if_pos h
  | cons x text => exact if_pos h

theorem cut_nil {sep : List α} (h : sep ≠ []) : cut sep [] = none := if_neg (by simpa using h)

theorem cut_cons {sep : List α} {x : α} {text : List α} (h : ¬ sep <+: x :: text)
    : cut sep (x :: text) = (cut sep text).map (Prod.map (x :: ·) id) := by
  have hcut : cut sep (x :: text) = _ := if_neg h
  rw [hcut]
  cases cut sep text <;> rfl

theorem eq_of_cut {sep text line rest : List α} (h : cut sep text = some (line, rest))
    : text = line ++ (sep ++ rest) := by
  fun_induction cut sep text generalizing line rest with
  | case1 text hsep =>
    rw [Option.some.injEq, Prod.mk.injEq] at h
    obtain ⟨rfl, rfl⟩ := h
    rw [List.nil_append]
    exact (List.prefix_iff_eq_append.mp hsep).symm
  | case2 => cases h
  | case3 => cases h
  | case4 x text line' rest' hcut hsep ih =>
    rw [Option.some.injEq, Prod.mk.injEq] at h
    obtain ⟨rfl, rfl⟩ := h
    rw [List.cons_append, ← ih hcut]

theorem cut_append {sep text line rest : List α} (h : cut sep text = some (line, rest))
    (more : List α) : cut sep (text ++ more) = some (line, rest ++ more) := by
  have hlen := congrArg List.length (eq_of_cut h)
  rw [List.length_append, List.length_append] at hlen
  fun_induction cut sep text generalizing line rest with
  | case1 text hsep =>
    rw [Option.some.injEq, Prod.mk.injEq] at h
    obtain ⟨rfl, rfl⟩ := h
    rw [cut_of_isPrefix (hsep.trans (List.prefix_append text more)),
      List.drop_append_of_le_length hsep.length_le]
  | case2 => cases h
  | case3 => cases h
  | case4 x text line' rest' hcut hsep ih =>
    rw [Option.some.injEq, Prod.mk.injEq] at h
    obtain ⟨rfl, rfl⟩ := h
    have hmore : ¬ sep <+: x :: (text ++ more) := by
      intro hmore
      exact hsep (List.prefix_of_prefix_length_le hmore (List.prefix_append (x :: text) more) (by omega))
    have htext := congrArg List.length (eq_of_cut hcut)
    rw [List.length_append, List.length_append] at htext
    rw [List.cons_append, cut_cons hmore, ih hcut htext]
    rfl

theorem cut_char {c : α} {word : List α} (h : c ∉ word) (rest : List α)
    : cut [c] (word ++ c :: rest) = some (word, rest) := by
  induction word with
  | nil => exact cut_of_isPrefix (List.prefix_append [c] rest)
  | cons x word ih =>
    rw [List.mem_cons, not_or] at h
    rw [List.cons_append, cut_cons (by simp [h.1]), ih h.2]
    rfl

theorem cut_of_not_mem {c : α} {word : List α} (h : c ∉ word) : cut [c] word = none := by
  induction word with
  | nil => exact cut_nil (List.cons_ne_nil c [])
  | cons x word ih =>
    rw [List.mem_cons, not_or] at h
    rw [cut_cons (by simp [h.1]), ih h.2, Option.map_none]

section

variable {σ : Type} (sep : List α) (next : σ → Option (List α → σ × List α))

-- The reader goes on with each line of the buffer while it waits for one.
def drain (rounds : Nat) (s : σ) (buffer : List α) : σ × List α × List α :=
  match rounds with
  | 0 => (s, buffer, [])
  | rounds + 1 =>
    match next s with
    | none => (s, buffer, [])
    | some resume =>
      match cut sep buffer with
      | none => (s, buffer, [])
      | some (line, rest) =>
        let (s, out) := resume line
        let (s, rest, more) := drain rounds s rest
        (s, rest, out ++ more)

def feed (s : σ) (buffer : List α) : σ × List α × List α := drain sep next buffer.length s buffer

variable {sep next}

theorem drain_succ (rounds : Nat) (s : σ) (buffer : List α)
    : drain sep next (rounds + 1) s buffer
        = (next s).elim (s, buffer, []) fun resume =>
            (cut sep buffer).elim (s, buffer, []) fun found =>
              ((drain sep next rounds (resume found.1).1 found.2).1,
                (drain sep next rounds (resume found.1).1 found.2).2.1,
                (resume found.1).2 ++ (drain sep next rounds (resume found.1).1 found.2).2.2) := by
  rw [drain]
  cases next s with
  | none => rfl
  | some resume => cases cut sep buffer <;> rfl

theorem drain_of_not_waiting {s : σ} (h : next s = none) (rounds : Nat) (buffer : List α)
    : drain sep next rounds s buffer = (s, buffer, []) := by
  cases rounds with
  | zero => rfl
  | succ rounds => rw [drain_succ, h, Option.elim_none]

theorem drain_of_no_line {buffer : List α} (h : cut sep buffer = none) (rounds : Nat) (s : σ)
    : drain sep next rounds s buffer = (s, buffer, []) := by
  cases rounds with
  | zero => rfl
  | succ rounds =>
    rw [drain_succ, h]
    cases next s <;> rfl

theorem drain_congr (hsep : sep ≠ []) {rounds rounds' : Nat} {s : σ} {buffer : List α}
    (h : buffer.length ≤ rounds) (h' : buffer.length ≤ rounds')
    : drain sep next rounds s buffer = drain sep next rounds' s buffer := by
  have hnil : ∀ rounds s, drain sep next rounds s [] = (s, [], []) :=
    drain_of_no_line (cut_nil hsep)
  induction rounds generalizing rounds' s buffer with
  | zero =>
    rw [List.eq_nil_of_length_eq_zero (Nat.le_zero.mp h), hnil, hnil]
  | succ rounds ih =>
    cases rounds' with
    | zero => rw [List.eq_nil_of_length_eq_zero (Nat.le_zero.mp h'), hnil, hnil]
    | succ rounds' =>
      cases hcut : cut sep buffer with
      | none => rw [drain_of_no_line hcut, drain_of_no_line hcut]
      | some found =>
        obtain ⟨line, rest⟩ := found
        have hlen := congrArg List.length (eq_of_cut hcut)
        have hpos := List.length_pos_of_ne_nil hsep
        rw [List.length_append, List.length_append] at hlen
        rw [drain_succ, drain_succ, hcut]
        cases next s with
        | none => rfl
        | some resume =>
          simp only [Option.elim_some]
          rw [ih (by omega : rest.length ≤ rounds) (by omega : rest.length ≤ rounds')]

theorem feed_of_not_waiting {s : σ} (h : next s = none) (buffer : List α)
    : feed sep next s buffer = (s, buffer, []) := drain_of_not_waiting h buffer.length buffer

theorem feed_of_no_line {s : σ} {buffer : List α} (h : cut sep buffer = none)
    : feed sep next s buffer = (s, buffer, []) := drain_of_no_line h buffer.length s

theorem feed_of_line (hsep : sep ≠ []) {s : σ} {resume : List α → σ × List α}
    (hnext : next s = some resume) {buffer line rest : List α} (hcut : cut sep buffer = some (line, rest))
    : feed sep next s buffer
        = ((feed sep next (resume line).1 rest).1, (feed sep next (resume line).1 rest).2.1,
          (resume line).2 ++ (feed sep next (resume line).1 rest).2.2) := by
  have hlen := congrArg List.length (eq_of_cut hcut)
  have hpos := List.length_pos_of_ne_nil hsep
  rw [List.length_append, List.length_append] at hlen
  unfold feed
  rw [drain_congr hsep (Nat.le_refl _) (Nat.le_succ _), drain_succ, hnext, hcut]
  simp only [Option.elim_some]
  rw [drain_congr hsep (by omega : rest.length ≤ buffer.length) (Nat.le_refl _)]

theorem feed_append (hsep : sep ≠ []) (s : σ) (buffer more : List α)
    : feed sep next s (buffer ++ more)
        = ((feed sep next (feed sep next s buffer).1 ((feed sep next s buffer).2.1 ++ more)).1,
          (feed sep next (feed sep next s buffer).1 ((feed sep next s buffer).2.1 ++ more)).2.1,
          (feed sep next s buffer).2.2
            ++ (feed sep next (feed sep next s buffer).1 ((feed sep next s buffer).2.1 ++ more)).2.2) := by
  induction hn : buffer.length using Nat.strong_induction_on generalizing s buffer with
  | _ n ih =>
    cases hnext : next s with
    | none => rw [feed_of_not_waiting hnext buffer, List.nil_append]
    | some resume =>
      cases hcut : cut sep buffer with
      | none => rw [feed_of_no_line hcut, List.nil_append]
      | some found =>
        obtain ⟨line, rest⟩ := found
        have hlen := congrArg List.length (eq_of_cut hcut)
        have hpos := List.length_pos_of_ne_nil hsep
        rw [List.length_append, List.length_append] at hlen
        rw [feed_of_line hsep hnext (cut_append hcut more), feed_of_line hsep hnext hcut,
          ih rest.length (by omega) (resume line).1 rest rfl]
        dsimp only
        rw [List.append_assoc]

end

end Lines
