import SkynetAoi.Seri.Basic

/-!
This module contains what is written for the values that are no table, and that it is read back.
-/

namespace Seri

def Writes (f : WriteBlock → WriteBlock) (bs : Bytes) : Prop :=
  ∀ b : WriteBlock, b.WF → (f b).WF ∧ (f b).contents = b.contents ++ bs

theorem writes_wbPush (bs : Bytes) : Writes (wbPush · bs) bs := fun _ h => h.wbPush bs

theorem Writes.comp {f g : WriteBlock → WriteBlock} {bs cs : Bytes} (hf : Writes f bs)
    (hg : Writes g cs) : Writes (fun b => g (f b)) (bs ++ cs) := by
  intro b hb
  obtain ⟨hwf, hcontents⟩ := hf b hb
  obtain ⟨hwf', hcontents'⟩ := hg (f b) hwf
  exact ⟨hwf', by rw [hcontents', hcontents, List.append_assoc]⟩

theorem writes_header (type : UInt8) (bs : Bytes)
    : Writes (fun b => wbPush (wbPush b [type]) bs) (type :: bs) :=
  (writes_wbPush [type]).comp (writes_wbPush bs)

theorem header_of_lt {t : UInt8} (ht : t = typeShortString ∨ t = typeTable) {n : Nat} (hn : n < 32)
    : combineType t (.ofNat n) &&& 7 = t ∧ combineType t (.ofNat n) >>> 3 = .ofNat n := by
  have hall : ∀ n < 32,
      (combineType typeShortString (.ofNat n) &&& 7 = typeShortString
        ∧ combineType typeShortString (.ofNat n) >>> 3 = .ofNat n)
      ∧ combineType typeTable (.ofNat n) &&& 7 = typeTable
        ∧ combineType typeTable (.ofNat n) >>> 3 = .ofNat n := by
    decide
  rcases ht with rfl | rfl
  . exact (hall n hn).1
  . exact (hall n hn).2

theorem rbRead_append {sz : Nat} {bs : Bytes} (hsz : bs.length = sz) (rest : Bytes)
    : rbRead (bs ++ rest) sz = some (bs, rest) := by
  subst hsz
  rw [rbRead, if_neg (by simp), List.take_left, List.drop_left]

theorem getWord_append (n : UInt64) (rest : Bytes)
    : getWord (LittleEndian.bytes 8 n.toNat ++ rest) = some (n, rest) := by
  unfold getWord
  rw [rbRead_append (LittleEndian.length_bytes 8 _)]
  have hlt := n.toNat_lt
  simp only [Option.bind_eq_bind, Option.bind_some]
  rw [LittleEndian.number_bytes (by omega), UInt64.ofNat_toNat]

structure IntegerBytes (v : Int64) (type : UInt8) (bs : Bytes) : Prop where
  writes : Writes (wbInteger · v) (type :: bs)
  number : type &&& 7 = typeNumber
  cookie : type >>> 3 ≠ typeNumberReal
  reads : ∀ rest, getInteger (bs ++ rest) (type >>> 3) = some (v, rest)

theorem IntegerBytes.word {v : Int64} {type : UInt8} {width n : Nat} (f : Nat → Int64)
    (hwrites : ∀ b, wbInteger b v = wbPush (wbPush b [type]) (LittleEndian.bytes width n))
    (hnumber : type &&& 7 = typeNumber) (hcookie : type >>> 3 ≠ typeNumberReal)
    (hread : ∀ rb, getInteger rb (type >>> 3)
      = (rbRead rb width).bind fun (s, rb) => some (f (LittleEndian.number s), rb))
    (hn : n < 256 ^ width) (hv : f n = v)
    : IntegerBytes v type (LittleEndian.bytes width n) where
  writes := by
    simp only [hwrites]
    exact writes_header type _
  number := hnumber
  cookie := hcookie
  reads := by
    intro rest
    rw [hread, rbRead_append (LittleEndian.length_bytes width n), Option.bind_some]
    dsimp only
    rw [LittleEndian.number_bytes hn, hv]

theorem toUInt32_toInt32 (v : Int64) : v.toUInt64.toUInt32 = v.toInt32.toUInt32 := by
  apply UInt32.toBitVec_inj.mp
  change v.toBitVec.setWidth 32 = v.toBitVec.signExtend 32
  rw [BitVec.signExtend_eq_setWidth_of_le _ (by decide)]

theorem toNat_of_lt {v : Int64} {n : Nat} (hneg : ¬ v < 0) (hlt : v.toInt < n)
    : v.toUInt64.toNat < n := by
  have hle : 0 ≤ v := by
    rw [Int64.lt_iff_toInt_lt] at hneg
    rw [Int64.le_iff_toInt_le]
    omega
  rw [Int64.toNat_toUInt64_of_le hle]
  rw [Int64.le_iff_toInt_le, Int64.toInt_zero] at hle
  have : (v.toNatClampNeg : Int) = v.toInt := Int.toNat_of_nonneg hle
  omega

theorem exists_integerBytes (v : Int64) : ∃ type bs, IntegerBytes v type bs := by
  by_cases hzero : v = 0
  . refine ⟨combineType typeNumber typeNumberZero, [], ?_, by decide, by decide, ?_⟩
    . simp only [wbInteger, hzero, ↓reduceIte]
      exact writes_wbPush _
    . intro rest
      rw [hzero]
      rfl
  by_cases hq : v ≠ v.toInt32.toInt64
  . refine ⟨combineType typeNumber typeNumberQword, _, .word (n := v.toUInt64.toNat)
      (fun n => (UInt64.ofNat n).toInt64) ?_ (by decide) (by decide) (fun _ => rfl) ?_ ?_⟩
    . intro b
      rw [wbInteger, if_neg hzero, if_pos hq]
    . exact v.toUInt64.toNat_lt
    . rw [UInt64.ofNat_toNat, Int64.toInt64_toUInt64]
  rw [ne_eq, not_not] at hq
  have hdword : (UInt32.ofNat v.toInt32.toUInt32.toNat).toInt32.toInt64 = v := by
    rw [UInt32.ofNat_toNat, Int32.toInt32_toUInt32, ← hq]
  by_cases hneg : v < 0
  . refine ⟨combineType typeNumber typeNumberDword, _, .word (n := v.toInt32.toUInt32.toNat)
      (fun n => (UInt32.ofNat n).toInt32.toInt64) ?_ (by decide) (by decide) (fun _ => rfl) ?_ hdword⟩
    . intro b
      simp only [wbInteger, hzero, hneg, ↓reduceIte, ne_eq, ← hq, not_true_eq_false]
    . exact v.toInt32.toUInt32.toNat_lt
  by_cases hbyte : v < 0x100
  . have hlt := hbyte
    rw [Int64.lt_iff_toInt_lt] at hlt
    have hnat := toNat_of_lt (n := 256) hneg hlt
    refine ⟨combineType typeNumber typeNumberByte, _, .word (n := v.toUInt64.toUInt8.toNat)
      (fun n => (UInt8.ofNat n).toUInt64.toInt64) ?_ (by decide) (by decide) (fun _ => rfl) ?_ ?_⟩
    . intro b
      simp only [wbInteger, hzero, hneg, hbyte, ↓reduceIte, ne_eq, ← hq, not_true_eq_false]
    . exact v.toUInt64.toUInt8.toNat_lt
    . have hsame : v.toUInt64.toUInt8.toUInt64 = v.toUInt64 := by
        rw [← UInt64.toNat_inj, UInt8.toNat_toUInt64, UInt64.toNat_toUInt8]
        omega
      rw [UInt8.ofNat_toNat, hsame, Int64.toInt64_toUInt64]
  by_cases hword : v < 0x10000
  . have hlt := hword
    rw [Int64.lt_iff_toInt_lt] at hlt
    have hnat := toNat_of_lt (n := 0x10000) hneg hlt
    refine ⟨combineType typeNumber typeNumberWord, _, .word (n := v.toUInt64.toUInt16.toNat)
      (fun n => (UInt16.ofNat n).toUInt64.toInt64) ?_ (by decide) (by decide) (fun _ => rfl) ?_ ?_⟩
    . intro b
      simp only [wbInteger, hzero, hneg, hbyte, hword, ↓reduceIte, ne_eq, ← hq, not_true_eq_false]
    . exact v.toUInt64.toUInt16.toNat_lt
    . have hsame : v.toUInt64.toUInt16.toUInt64 = v.toUInt64 := by
        rw [← UInt64.toNat_inj, UInt16.toNat_toUInt64, UInt64.toNat_toUInt16]
        omega
      rw [UInt16.ofNat_toNat, hsame, Int64.toInt64_toUInt64]
  refine ⟨combineType typeNumber typeNumberDword, _, .word (n := v.toUInt64.toUInt32.toNat)
    (fun n => (UInt32.ofNat n).toInt32.toInt64) ?_ (by decide) (by decide) (fun _ => rfl) ?_ ?_⟩
  . intro b
    simp only [wbInteger, hzero, hneg, hbyte, hword, ↓reduceIte, ne_eq, ← hq, not_true_eq_false]
  . exact v.toUInt64.toUInt32.toNat_lt
  . rw [toUInt32_toInt32]
    exact hdword

def Reads (m : Machine) (bs : Bytes) (w : LuaValue) : Prop :=
  ∀ fuel rest, bs.length ≤ fuel → unpackOne m fuel (bs ++ rest) = some (w, rest)

theorem reads_of_pushValue {m : Machine} {type : UInt8} {bs : Bytes} {w : LuaValue}
    (h : ∀ fuel rest, bs.length ≤ fuel → pushValue m (unpackOne m fuel) (fuel + 1) (type &&& 7)
      (type >>> 3) (bs ++ rest) = some (w, rest))
    : Reads m (type :: bs) w := by
  intro fuel rest hfuel
  cases fuel with
  | zero => simp at hfuel
  | succ fuel =>
    rw [List.length_cons, Nat.succ_le_succ_iff] at hfuel
    rw [List.cons_append, unpackOne]
    exact h fuel rest hfuel

structure Codes (m : Machine) (f : WriteBlock → WriteBlock) (bs : Bytes) (w : LuaValue) : Prop where
  writes : Writes f bs
  reads : Reads m bs w
  nonempty : 0 < bs.length

section

variable (m : Machine)

theorem codes_nil : Codes m wbNil [typeNil] .nil where
  writes := writes_wbPush _
  reads := reads_of_pushValue fun _ _ _ => rfl
  nonempty := by simp

theorem codes_boolean (v : Bool)
    : Codes m (wbBoolean · v) [combineType typeBoolean (if v then 1 else 0)] (.boolean v) where
  writes := writes_wbPush _
  reads := by
    cases v with
    | true => exact reads_of_pushValue fun _ _ _ => rfl
    | false => exact reads_of_pushValue fun _ _ _ => rfl
  nonempty := by simp

theorem codes_number (bits : UInt64)
    : Codes m (wbReal · bits)
        (combineType typeNumber typeNumberReal :: LittleEndian.bytes 8 bits.toNat) (.number bits) where
  writes := writes_header _ _
  reads := by
    apply reads_of_pushValue
    intro fuel rest _
    change (getWord (LittleEndian.bytes 8 bits.toNat ++ rest)).bind
      (fun read => some (LuaValue.number read.1, read.2)) = _
    rw [getWord_append]
    rfl
  nonempty := by simp

theorem codes_pointer (p : UInt64)
    : Codes m (wbPointer · p) (typeUserdata :: LittleEndian.bytes 8 p.toNat)
        (.lightuserdata p) where
  writes := writes_header _ _
  reads := by
    apply reads_of_pushValue
    intro fuel rest _
    change (getWord (LittleEndian.bytes 8 p.toNat ++ rest)).bind
      (fun read => some (LuaValue.lightuserdata read.1, read.2)) = _
    rw [getWord_append]
    rfl
  nonempty := by simp

theorem exists_codes_integer (n : Int64) : ∃ bs, Codes m (wbInteger · n) bs (.integer n) := by
  obtain ⟨type, bs, h⟩ := exists_integerBytes n
  refine ⟨type :: bs, h.writes, ?_, by simp⟩
  apply reads_of_pushValue
  intro fuel rest _
  have hcookie := h.cookie
  rw [h.number]
  unfold pushValue
  rw [if_neg (by decide), if_neg (by decide), if_pos rfl, if_neg hcookie, h.reads]
  rfl

theorem getBuffer_append (s rest : Bytes)
    : getBuffer (s ++ rest) s.length = some (.string s, rest) := by
  unfold getBuffer
  rw [rbRead_append rfl]
  rfl

theorem exists_codes_string {s : Bytes} (hs : s.length < 2 ^ 31)
    : ∃ bs, Codes m (wbString · s) bs (.string s) := by
  by_cases hshort : s.length < maxCookie
  . obtain ⟨htype, hcookie⟩ := header_of_lt (t := typeShortString) (.inl rfl) hshort
    refine ⟨combineType typeShortString (.ofNat s.length) :: s, ?_, ?_, by simp⟩
    . by_cases hempty : s.length > 0
      . simp only [wbString, hshort, hempty, ↓reduceIte]
        exact writes_header _ _
      . have hnil : s = [] := List.eq_nil_of_length_eq_zero (by omega)
        simp only [wbString, hshort, hempty, ↓reduceIte]
        rw [hnil]
        exact writes_wbPush _
    . apply reads_of_pushValue
      intro fuel rest _
      rw [htype, hcookie]
      have hlen : (UInt8.ofNat s.length).toNat = s.length := by
        rw [UInt8.toNat_ofNat']
        unfold maxCookie at hshort
        omega
      change getBuffer (s ++ rest) (UInt8.ofNat s.length).toNat = _
      rw [hlen, getBuffer_append]
  . have hread : ∀ width, s.length < 256 ^ width → ∀ rest,
        ((rbRead (LittleEndian.bytes width s.length ++ s ++ rest) width).bind fun (n, rb) =>
          getBuffer rb (LittleEndian.number n)) = some (.string s, rest) := by
      intro width hwidth rest
      rw [List.append_assoc, rbRead_append (LittleEndian.length_bytes width s.length),
        Option.bind_some]
      dsimp only
      rw [LittleEndian.number_bytes hwidth, getBuffer_append]
    by_cases hword : s.length < 0x10000
    . refine ⟨combineType typeLongString 2 :: (LittleEndian.bytes 2 s.length ++ s), ?_, ?_, by simp⟩
      . simp only [wbString, hshort, hword, ↓reduceIte]
        exact (writes_header _ _).comp (writes_wbPush s)
      . apply reads_of_pushValue
        intro fuel rest _
        exact hread 2 (by omega) rest
    . refine ⟨combineType typeLongString 4 :: (LittleEndian.bytes 4 s.length ++ s), ?_, ?_, by simp⟩
      . simp only [wbString, hshort, hword, ↓reduceIte]
        exact (writes_header _ _).comp (writes_wbPush s)
      . apply reads_of_pushValue
        intro fuel rest _
        exact hread 4 (by omega) rest

end

end Seri
