import SkynetAoi.Lib.Numeral

/-!
This module contains the text interface of the `caoi` service (`_ctrl`): what it makes of the bytes
of a message and which operation on its space it ends in. The buffer with the copy of the message is
a list of bytes, a C string is what stands in front of the first NUL of it.
-/

namespace Ctrl

open Numeral

def updateWord : Bytes := ['u', 'p', 'd', 'a', 't', 'e'].map Char.toUInt8

def messageWord : Bytes := ['m', 'e', 's', 's', 'a', 'g', 'e'].map Char.toUInt8

structure Position where
  x : Binary
  y : Binary
  z : Binary
  deriving DecidableEq, Repr

inductive Call where
  | update (id : UInt32) (mode : Bytes) (pos : Position)
  | message
  deriving DecidableEq, Repr

def cstring (buf : Bytes) : Bytes := buf.takeWhile (· ≠ 0)

def commandSize (command : Bytes) : Nat :=
  match command with
  | [] => 0
  | c :: command => if c = space then 0 else commandSize command + 1

-- `memcmp` with a literal. It ends at the first byte that differs, which is at the latest the NUL
-- of the literal if the command has none.
def memeq (command word : Bytes) (i : Nat) : Bool :=
  command.take i = (word ++ [0]).take i

def parm (msg : Bytes) (sz commandSz : Nat) : Bytes :=
  let commandSz := skip msg commandSz (sz - commandSz)
  let msg := shift msg commandSz 0 (sz - commandSz)
  msg.set (sz - commandSz) 0
where
  skip (msg : Bytes) (commandSz n : Nat) : Nat :=
    match n with
    | 0 => commandSz
    | n + 1 => if msg[commandSz]? = some space then skip msg (commandSz + 1) n else commandSz
  -- Byte `i` of the loop is `commandSz + j`.
  shift (msg : Bytes) (commandSz j n : Nat) : Bytes :=
    match n with
    | 0 => msg
    | n + 1 => shift (msg.set j (msg.getD (commandSz + j) 0)) commandSz (j + 1) n

-- The token in front of the next space and the text after this space, which is null if there is no
-- space.
def strsep (text : Bytes) : Bytes × Option Bytes :=
  match text with
  | [] => ([], none)
  | c :: text =>
    if c = space then
      ([], some text)
    else
      let (token, rest) := strsep text
      (c :: token, rest)

def updateCall (text : Bytes) : Option Call :=
  match strsep text with
  | (_, none) => none
  | (idstr, some text) =>
    let id := UInt32.ofInt (strtol idstr)
    match strsep text with
    | (_, none) => none
    | (mode, some text) =>
      match strsep text with
      | (_, none) => none
      | (x, some text) =>
        match strsep text with
        | (_, none) => none
        | (y, some text) =>
          let (z, _) := strsep text
          some (.update id mode ⟨strtof x, strtof y, strtof z⟩)

-- The call that a message ends in. There is none where `_ctrl` returns early or logs an unknown
-- command.
def ctrl (msg : Bytes) : Option Call :=
  let tmp := msg ++ [0]
  let sz := msg.length
  if sz = 0 then
    none
  else
    let i := commandSize msg
    if memeq tmp updateWord i then
      updateCall (cstring (parm tmp sz i))
    else if memeq tmp messageWord i then
      some .message
    else
      none

def handle {Space : Type} (run : Space → Call → Space) (space : Space) (msg : Bytes) : Space :=
  match ctrl msg with
  | none => space
  | some call => run space call

theorem commandSize_eq (command : Bytes)
    : commandSize command = (command.takeWhile (· ≠ space)).length := by
  induction command with
  | nil => rfl
  | cons c command ih =>
    unfold commandSize
    split
    . simp_all
    . simp_all

theorem commandSize_le (command : Bytes) : commandSize command ≤ command.length := by
  rw [commandSize_eq]
  exact (List.takeWhile_prefix _).length_le

theorem take_commandSize (command : Bytes)
    : command.take (commandSize command) = command.takeWhile (· ≠ space) := by
  rw [commandSize_eq]
  exact (List.prefix_iff_eq_take.mp (List.takeWhile_prefix _)).symm

theorem cstring_append {s rest : Bytes} (h : 0 ∉ s) : cstring (s ++ 0 :: rest) = s := by
  unfold cstring
  have hs : ∀ c ∈ s, decide (c ≠ 0) = true := by
    intro c hc
    rw [decide_eq_true_iff]
    rintro rfl
    exact h hc
  rw [List.takeWhile_append_of_pos hs, List.takeWhile_cons_of_neg (by simp), List.append_nil]

theorem memeq_eq_true_iff {msg rest word : Bytes} (h : 0 ∉ msg) {i : Nat} (hi : i ≤ msg.length)
    : memeq (msg ++ rest) word i = true ↔ msg.take i <+: word := by
  have htake : (msg ++ rest).take i = msg.take i := List.take_append_of_le_length hi
  unfold memeq
  rw [decide_eq_true_iff, htake]
  constructor
  . intro heq
    have hstarts : msg.take i <+: word ++ [0] := heq ▸ List.take_prefix i _
    rcases List.prefix_concat_iff.mp hstarts with heq' | hword
    . have : 0 ∈ msg.take i := by simp [heq']
      exact absurd (List.mem_of_mem_take this) h
    . exact hword
  . intro hstarts
    have hword : msg.take i <+: word ++ [0] := hstarts.trans (List.prefix_append _ _)
    have := List.prefix_iff_eq_take.mp hword
    rwa [List.length_take_of_le hi] at this

theorem parm.skip_spec (msg : Bytes) (commandSz n : Nat) (h : commandSz + n ≤ msg.length)
    : commandSz ≤ skip msg commandSz n ∧ skip msg commandSz n ≤ commandSz + n
        ∧ (msg.take (commandSz + n)).drop (skip msg commandSz n)
            = ((msg.take (commandSz + n)).drop commandSz).dropWhile (· = space) := by
  induction n generalizing commandSz with
  | zero => simp [skip]
  | succ n ih =>
    have hsz : commandSz < msg.length := by omega
    have hlt : commandSz < (msg.take (commandSz + (n + 1))).length := by
      rw [List.length_take]
      omega
    have hget : (msg.take (commandSz + (n + 1)))[commandSz] = msg[commandSz] := List.getElem_take
    have hsome : msg[commandSz]? = some msg[commandSz] := List.getElem?_eq_getElem hsz
    rw [List.drop_eq_getElem_cons hlt, hget]
    unfold skip
    rw [hsome]
    split
    . rename_i heq
      rw [Option.some.injEq] at heq
      obtain ⟨hle, hge, hdrop⟩ := ih (commandSz + 1) (by omega)
      have hn : commandSz + 1 + n = commandSz + (n + 1) := by omega
      rw [hn] at hge hdrop
      refine ⟨by omega, hge, ?_⟩
      rw [hdrop, List.dropWhile_cons_of_pos (by simp [heq])]
    . rename_i hne
      rw [Option.some.injEq] at hne
      refine ⟨le_refl _, by omega, ?_⟩
      rw [List.dropWhile_cons_of_neg (by simp [hne]), List.drop_eq_getElem_cons hlt, hget]

-- The bytes to be moved are always behind the ones that have been written.
theorem parm.shift_eq (msg : Bytes) (commandSz j n : Nat) (h : commandSz + j + n ≤ msg.length)
    : shift msg commandSz j n
        = msg.take j ++ (msg.drop (commandSz + j)).take n ++ msg.drop (j + n) := by
  induction n generalizing msg j with
  | zero => simp [shift]
  | succ n ih =>
    have hj : j < msg.length := by omega
    have hsrc : commandSz + j < msg.length := by omega
    have hget : msg.getD (commandSz + j) 0 = msg[commandSz + j] := by
      simp [List.getD_eq_getElem?_getD, List.getElem?_eq_getElem hsrc]
    unfold shift
    rw [hget, ih _ _ (by rw [List.length_set]; omega)]
    have htake : (msg.set j msg[commandSz + j]).take (j + 1)
        = msg.take j ++ [msg[commandSz + j]] := by
      rw [List.take_add_one, List.getElem?_set_self hj, List.take_set_of_le (le_refl j)]
      rfl
    rw [htake, List.drop_set_of_lt (by omega), List.drop_set_of_lt (by omega),
      List.drop_eq_getElem_cons hsrc, List.take_succ_cons]
    have hn : j + 1 + n = j + (n + 1) := by omega
    have hc : commandSz + (j + 1) = commandSz + j + 1 := by omega
    rw [hn, hc]
    simp

theorem cstring_parm {msg : Bytes} (h : 0 ∉ msg) {i : Nat} (hi : i ≤ msg.length)
    : cstring (parm (msg ++ [0]) msg.length i) = (msg.drop i).dropWhile (· = space) := by
  have hlen : (msg ++ [0]).length = msg.length + 1 := by simp
  have hskip := parm.skip_spec (msg ++ [0]) i (msg.length - i) (by omega)
  rw [Nat.add_sub_cancel' hi, List.take_left] at hskip
  obtain ⟨hge, hle, hdrop⟩ := hskip
  unfold parm
  generalize parm.skip (msg ++ [0]) i (msg.length - i) = c at *
  simp only
  rw [parm.shift_eq _ _ _ _ (by omega), ← hdrop]
  have hmoved : ((msg ++ [0]).drop (c + 0)).take (msg.length - c) = msg.drop c := by
    rw [Nat.add_zero, List.drop_append_of_le_length hle, List.take_left' (by simp)]
  have hmem : 0 ∉ msg.drop c := fun hmem => h (List.mem_of_mem_drop hmem)
  rw [hmoved]
  simp only [List.take_zero, List.nil_append, Nat.zero_add]
  rw [List.set_append_right _ _ (by simp)]
  obtain ⟨b, rest, hrest⟩ : ∃ b rest, (msg ++ [0]).drop (msg.length - c) = b :: rest := by
    apply List.exists_cons_of_ne_nil
    intro hnil
    rw [List.drop_eq_nil_iff] at hnil
    omega
  rw [hrest, List.length_drop, Nat.sub_self, List.set_cons_zero]
  exact cstring_append hmem

end Ctrl
