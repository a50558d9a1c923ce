import SkynetAoi.Lib.Bytes

/-!
This module contains byte streams that are made of frames. A frame is the length of its body in two
bytes, the big end first, and the body.
-/

@[ext]
structure Payload where
  body : Bytes
  length_lt : body.length < 0x10000
  deriving DecidableEq

namespace Frame

def size (hi lo : UInt8) : Nat := hi.toNat * 256 + lo.toNat

def writeSize (n : Nat) : Bytes := [UInt8.ofNat (n / 256), UInt8.ofNat (n % 256)]

def ofPayload (p : Payload) : Bytes := writeSize p.body.length ++ p.body

def encode (payloads : List Payload) : Bytes := payloads.flatMap ofPayload

@[simp]
theorem encode_nil : encode [] = [] := rfl

@[simp]
theorem encode_cons (p : Payload) (payloads : List Payload)
    : encode (p :: payloads) = ofPayload p ++ encode payloads := rfl

@[simp]
theorem encode_append (payloads more : List Payload)
    : encode (payloads ++ more) = encode payloads ++ encode more := by
  simp [encode]

theorem size_lt (hi lo : UInt8) : size hi lo < 0x10000 := by
  have := hi.toNat_lt
  have := lo.toNat_lt
  unfold size
  omega

theorem size_writeSize {n : Nat} (h : n < 0x10000)
    : size (UInt8.ofNat (n / 256)) (UInt8.ofNat (n % 256)) = n := by
  unfold size
  rw [UInt8.toNat_ofNat', UInt8.toNat_ofNat']
  omega

theorem writeSize_size (hi lo : UInt8) : writeSize (size hi lo) = [hi, lo] := by
  have hhi := hi.toNat_lt
  have hlo := lo.toNat_lt
  have hdiv : size hi lo / 256 = hi.toNat := by
    unfold size
    omega
  have hmod : size hi lo % 256 = lo.toNat := by
    unfold size
    omega
  simp [writeSize, hdiv, hmod]

theorem ofPayload_append {p : Payload} {hi lo : UInt8} (h : p.body.length = size hi lo)
    (bytes : Bytes) : ofPayload p ++ bytes = hi :: lo :: (p.body ++ bytes) := by
  rw [ofPayload, h, writeSize_size]
  rfl

theorem encode_eq_cons {payloads : List Payload} {hi lo : UInt8} {bytes : Bytes}
    (h : encode payloads = hi :: lo :: bytes)
    : ∃ p rest, payloads = p :: rest ∧ size hi lo = p.body.length
        ∧ bytes = p.body ++ encode rest := by
  cases payloads with
  | nil => simp at h
  | cons p rest =>
    simp only [encode_cons, ofPayload, writeSize, List.cons_append, List.nil_append,
      List.cons.injEq] at h
    refine ⟨p, rest, rfl, ?_, h.2.2.symm⟩
    rw [← h.1, ← h.2.1, size_writeSize p.length_lt]

def Incomplete (rest : Bytes) : Prop :=
  ∀ hi lo body, rest = hi :: lo :: body → body.length < size hi lo

theorem not_incomplete (p : Payload) (bytes : Bytes) : ¬Incomplete (ofPayload p ++ bytes) := by
  intro h
  have := h _ _ (p.body ++ bytes) rfl
  rw [size_writeSize p.length_lt, List.length_append] at this
  omega

theorem encode_unique {payloads payloads' : List Payload} {rest rest' : Bytes}
    (h : encode payloads ++ rest = encode payloads' ++ rest') (hrest : Incomplete rest)
    (hrest' : Incomplete rest') : payloads = payloads' ∧ rest = rest' := by
  induction payloads generalizing payloads' with
  | nil =>
    cases payloads' with
    | nil => simpa using h
    | cons p' payloads' =>
      rw [encode_nil, List.nil_append, encode_cons, List.append_assoc] at h
      rw [h] at hrest
      exact absurd hrest (not_incomplete p' _)
  | cons p payloads ih =>
    cases payloads' with
    | nil =>
      rw [encode_nil, List.nil_append, encode_cons, List.append_assoc] at h
      rw [← h] at hrest'
      exact absurd hrest' (not_incomplete p _)
    | cons p' payloads' =>
      simp only [encode_cons, ofPayload, writeSize, List.cons_append, List.nil_append,
        List.append_assoc, List.cons.injEq] at h
      have hlength : p.body.length = p'.body.length := by
        rw [← size_writeSize p.length_lt, ← size_writeSize p'.length_lt, h.1, h.2.1]
      obtain ⟨hbody, htail⟩ := List.append_inj h.2.2 hlength
      obtain ⟨rfl, rfl⟩ := ih htail
      exact ⟨by rw [Payload.ext hbody], rfl⟩

end Frame
