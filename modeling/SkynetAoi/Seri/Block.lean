import SkynetAoi.Lib.Bytes

/-!
This module contains the chain of blocks that `lua-seri.c` writes to. Every block but the last one is
full.
-/

namespace Seri

def blockSize : Nat := 128

/--
`ptr` of the code is the length of `current`, which is what was written to the last block.
-/
structure WriteBlock where
  full : List Bytes
  current : Bytes
  len : Nat

def wbInit : WriteBlock where
  full := []
  current := []
  len := 0

def WriteBlock.again (b : WriteBlock) : WriteBlock :=
  { b with full := b.full ++ [b.current], current := [] }

-- The loop of `wb_push`. It copies at least one byte in each round.
def pushLoop (rounds : Nat) (b : WriteBlock) (buffer : Bytes) : WriteBlock :=
  match rounds with
  | 0 => b
  | rounds + 1 =>
    if b.current.length + buffer.length ≤ blockSize then
      { b with current := b.current ++ buffer, len := b.len + buffer.length }
    else
      let copy := blockSize - b.current.length
      let b := { b with current := b.current ++ buffer.take copy, len := b.len + copy }
      pushLoop rounds b.again (buffer.drop copy)

def wbPush (b : WriteBlock) (buffer : Bytes) : WriteBlock :=
  let b := if b.current.length = blockSize then b.again else b
  pushLoop (buffer.length + 1) b buffer

def copyBlocks (blocks : List Bytes) (len : Nat) : Bytes :=
  match blocks with
  | [] => []
  | block :: blocks =>
    if len ≥ blockSize then
      block.take blockSize ++ copyBlocks blocks (len - blockSize)
    else
      block.take len

def seri (b : WriteBlock) : Bytes :=
  copyBlocks (b.full ++ [b.current]) b.len

def WriteBlock.contents (b : WriteBlock) : Bytes :=
  b.full.flatten ++ b.current

structure WriteBlock.WF (b : WriteBlock) : Prop where
  full : ∀ block ∈ b.full, block.length = blockSize
  current : b.current.length ≤ blockSize
  len : b.len = b.contents.length

theorem wf_wbInit : wbInit.WF where
  full := by simp [wbInit]
  current := by simp [wbInit]
  len := rfl

@[simp]
theorem contents_wbInit : wbInit.contents = [] := rfl

namespace WriteBlock

variable {b : WriteBlock}

@[simp]
theorem contents_again (b : WriteBlock) : b.again.contents = b.contents := by
  simp [contents, again]

theorem WF.again (h : b.WF) (hfull : b.current.length = blockSize) : b.again.WF where
  full := by
    intro block hblock
    rcases List.mem_append.mp hblock with hblock | hblock
    . exact h.full block hblock
    . rwa [List.mem_singleton.mp hblock]
  current := Nat.zero_le _
  len := by
    rw [contents_again]
    exact h.len

theorem contents_append (b : WriteBlock) (bs : Bytes) (len : Nat)
    : ({ b with current := b.current ++ bs, len := len } : WriteBlock).contents
        = b.contents ++ bs := by
  rw [contents, contents, List.append_assoc]

theorem WF.append (h : b.WF) (bs : Bytes) (hroom : b.current.length + bs.length ≤ blockSize)
    : ({ b with current := b.current ++ bs, len := b.len + bs.length } : WriteBlock).WF where
  full := h.full
  current := by
    rw [List.length_append]
    exact hroom
  len := by
    rw [contents_append, List.length_append, h.len]

theorem WF.pushLoop (h : b.WF) {rounds : Nat} {buffer : Bytes} (hroom : b.current.length < blockSize)
    (hrounds : buffer.length < rounds)
    : (Seri.pushLoop rounds b buffer).WF
        ∧ (Seri.pushLoop rounds b buffer).contents = b.contents ++ buffer := by
  induction rounds generalizing b buffer with
  | zero => omega
  | succ rounds ih =>
    rw [Seri.pushLoop]
    split
    . next hfits => exact ⟨h.append buffer hfits, contents_append b buffer _⟩
    . next hlong =>
      have hcopy : (buffer.take (blockSize - b.current.length)).length
          = blockSize - b.current.length := by
        rw [List.length_take]
        omega
      have happend := h.append (buffer.take (blockSize - b.current.length)) (by omega)
      rw [hcopy] at happend
      have hagain := happend.again (by
        rw [List.length_append, hcopy]
        omega)
      have hdrop : (buffer.drop (blockSize - b.current.length)).length < rounds := by
        rw [List.length_drop]
        omega
      have hrest := ih hagain (by simp [WriteBlock.again, blockSize]) hdrop
      refine ⟨hrest.1, hrest.2.trans ?_⟩
      rw [contents_again, contents_append, List.append_assoc, List.take_append_drop]

theorem WF.wbPush (h : b.WF) (buffer : Bytes)
    : (wbPush b buffer).WF ∧ (wbPush b buffer).contents = b.contents ++ buffer := by
  unfold Seri.wbPush
  by_cases hfull : b.current.length = blockSize
  . simp only [hfull, ↓reduceIte]
    rw [← contents_again b]
    exact (h.again hfull).pushLoop (by simp [WriteBlock.again, blockSize]) (Nat.lt_succ_self _)
  . simp only [hfull, ↓reduceIte]
    have := h.current
    exact h.pushLoop (by omega) (Nat.lt_succ_self _)

theorem copyBlocks_eq {full : List Bytes} (hfull : ∀ block ∈ full, block.length = blockSize)
    {current : Bytes} (hcurrent : current.length ≤ blockSize)
    : copyBlocks (full ++ [current]) (full.flatten.length + current.length)
        = full.flatten ++ current := by
  induction full with
  | nil =>
    rw [List.nil_append, copyBlocks, List.flatten_nil, List.length_nil, Nat.zero_add]
    split
    . have hsame : current.length = blockSize := by omega
      rw [hsame, Nat.sub_self, copyBlocks, List.append_nil, ← hsame, List.take_length]
      rfl
    . rw [List.take_length]
      rfl
  | cons block full ih =>
    have hblock := hfull block (by simp)
    rw [List.cons_append, copyBlocks, List.flatten_cons, List.length_append, hblock,
      if_pos (by omega), ← hblock, List.take_length, List.append_assoc]
    congr 1
    rw [← ih (by
      intro b hb
      apply hfull
      simp [hb])]
    congr 1
    omega

theorem WF.seri (h : b.WF) : seri b = b.contents := by
  rw [Seri.seri, h.len, contents, List.length_append]
  exact copyBlocks_eq h.full h.current

end WriteBlock

end Seri
