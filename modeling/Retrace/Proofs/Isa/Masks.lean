import Mathlib.Tactic.IntervalCases
import Retrace.Isa.Fields

/-!
# Fields by masks and shifts

The fields of an encoding may also be moved to their places by shifts, cut out by masks and put
together, with the sign extended last. Both ways give the same registers and immediates.
-/

namespace Retrace.Isa

/-- The register whose field starts at a bit. -/
def maskedReg (w : BitVec 32) (low : Nat) : BitVec 8 :=
  (w >>> low).setWidth 8 &&& 0x1f#8

/-- The register that a short field names. -/
def maskedShort (field : BitVec 32) : BitVec 8 :=
  (field.setWidth 8 &&& 0x07#8) ||| 0x08#8

/-- The value with all bits behind a position like the bit there. -/
def signExtendFrom (value : BitVec 32) (position : Nat) : BitVec 32 :=
  let mask := (1#32 <<< position) - 1#32
  if value &&& 1#32 <<< position ≠ 0#32 then value ||| ~~~mask else value &&& mask

/-! The immediates that are put together of several pieces. -/

namespace Masked

def storeWord (w : BitVec 32) : BitVec 32 :=
  (w >>> 7 &&& 0x01f#32) ||| (w >>> (25 - 5) &&& 0xfe0#32)

def branchWord (w : BitVec 32) : BitVec 32 :=
  (w >>> 7 &&& 0x001e#32) ||| (w >>> (25 - 5) &&& 0x07e0#32) ||| (w <<< (11 - 7) &&& 0x0800#32) |||
    (w >>> (31 - 12) &&& 0x1000#32)

def jumpWord (w : BitVec 32) : BitVec 32 :=
  (w >>> (21 - 1) &&& 0x0007fe#32) ||| (w >>> (20 - 11) &&& 0x000800#32) ||| (w &&& 0x0ff000#32) |||
    (w >>> (31 - 20) &&& 0x100000#32)

def immediateHalf (w : BitVec 32) : BitVec 32 :=
  (w >>> 2 &&& 0x1f#32) ||| (w >>> (12 - 5) &&& 0x20#32)

def branchHalf (w : BitVec 32) : BitVec 32 :=
  (w >>> (3 - 1) &&& 0x006#32) ||| (w >>> (10 - 3) &&& 0x018#32) |||
    (w <<< (5 - 2) &&& 0x020#32) ||| (w <<< (7 - 6) &&& 0x0c0#32) |||
    (w >>> (12 - 8) &&& 0x100#32)

def upperHalf (w : BitVec 32) : BitVec 32 :=
  (w <<< (12 - 2) &&& 0x0001f000#32) ||| (w <<< (17 - 12) &&& 0x00020000#32)

def jumpHalf (w : BitVec 32) : BitVec 32 :=
  (w >>> (3 - 1) &&& 0x00e#32) ||| (w >>> (11 - 4) &&& 0x010#32) |||
    (w <<< (5 - 2) &&& 0x020#32) ||| (w >>> (7 - 6) &&& 0x040#32) |||
    (w <<< (7 - 6) &&& 0x080#32) ||| (w >>> (9 - 8) &&& 0x300#32) |||
    (w <<< (10 - 8) &&& 0x400#32) ||| (w >>> (12 - 11) &&& 0x800#32)

end Masked

/-! ## Registers -/

theorem maskedReg_eq (w : BitVec 32) (low : Nat) :
    maskedReg w low = (w.extractLsb' low 5).setWidth 8 := by
  refine BitVec.eq_of_getLsbD_eq fun i hi => ?_
  simp only [maskedReg, BitVec.getLsbD_and, BitVec.getLsbD_setWidth, BitVec.getLsbD_ushiftRight,
    BitVec.getLsbD_extractLsb']
  interval_cases i <;> simp

theorem getLsbD_widened (w : BitVec 16) (i : Nat) : (w.setWidth 32).getLsbD i = w.getLsbD i := by
  rw [BitVec.getLsbD_setWidth]
  cases hbit : w.getLsbD i with
  | false => exact Bool.and_false _
  | true =>
      have hlt := BitVec.lt_of_getLsbD hbit
      rw [decide_eq_true (by omega), Bool.true_and]

theorem maskedShort_eq (w : BitVec 16) (low : Nat) :
    maskedShort (w.setWidth 32 >>> low) = (Reg.ofShort (w.extractLsb' low 3)).setWidth 8 := by
  refine BitVec.eq_of_getLsbD_eq fun i hi => ?_
  rw [maskedShort, Reg.ofShort, BitVec.getLsbD_or, BitVec.getLsbD_and, BitVec.getLsbD_setWidth,
    BitVec.getLsbD_ushiftRight, getLsbD_widened, BitVec.getLsbD_setWidth, BitVec.getLsbD_append,
    BitVec.getLsbD_extractLsb']
  interval_cases i <;> simp

theorem extractLsb'_widened (w : BitVec 16) (low length : Nat) :
    (w.setWidth 32).extractLsb' low length = w.extractLsb' low length := by
  refine BitVec.eq_of_getLsbD_eq fun i hi => ?_
  rw [BitVec.getLsbD_extractLsb', BitVec.getLsbD_extractLsb', getLsbD_widened]

theorem registers_ofWord (w : BitVec 32) :
    maskedReg w 7 = (destination w).setWidth 8 ∧ maskedReg w 15 = (source1 w).setWidth 8 ∧
      maskedReg w 20 = (source2 w).setWidth 8 :=
  ⟨maskedReg_eq w 7, maskedReg_eq w 15, maskedReg_eq w 20⟩

theorem registers_ofHalf (w : BitVec 16) :
    maskedReg (w.setWidth 32) 7 = (upperReg w).setWidth 8 ∧
      maskedReg (w.setWidth 32) 2 = (lowerReg w).setWidth 8 ∧
      maskedShort (w.setWidth 32 >>> 7) = (upperShort w).setWidth 8 ∧
      maskedShort (w.setWidth 32 >>> 2) = (lowerShort w).setWidth 8 := by
  rw [maskedReg_eq, maskedReg_eq, extractLsb'_widened, extractLsb'_widened]
  exact ⟨rfl, rfl, maskedShort_eq w 7, maskedShort_eq w 2⟩

/-! ## Signs -/

theorem getLsbD_mask {position : Nat} (h : position < 32) (i : Nat) :
    ((1#32 <<< position) - 1#32).getLsbD i = decide (i < position) := by
  have hlt : 2 ^ position < 2 ^ 32 := Nat.pow_lt_pow_right (by decide) h
  have hpos : 0 < 2 ^ position := Nat.two_pow_pos position
  have hmask : BitVec.twoPow 32 position - 1#32 = BitVec.ofNat 32 (2 ^ position - 1) := by
    refine BitVec.eq_of_toNat_eq ?_
    rw [BitVec.toNat_sub, BitVec.toNat_twoPow_of_lt h, BitVec.toNat_ofNat, BitVec.toNat_ofNat]
    omega
  change (BitVec.twoPow 32 position - 1#32).getLsbD i = _
  rw [hmask, BitVec.getLsbD_ofNat, Nat.testBit_two_pow_sub_one]
  cases hi : decide (i < position) <;> simp at hi ⊢
  omega

theorem and_bit_eq_zero_iff (value : BitVec 32) {position : Nat} (h : position < 32) :
    value &&& 1#32 <<< position = 0#32 ↔ value.getLsbD position = false := by
  change value &&& BitVec.twoPow 32 position = 0#32 ↔ _
  rw [BitVec.and_twoPow]
  cases hbit : value.getLsbD position with
  | false => simp
  | true =>
      have hne : BitVec.twoPow 32 position ≠ 0#32 := by
        intro hzero
        have hpos : 0 < 2 ^ position := Nat.two_pow_pos position
        have hnat := congrArg BitVec.toNat hzero
        rw [BitVec.toNat_twoPow_of_lt h, BitVec.toNat_ofNat] at hnat
        omega
      simp [hne]

theorem signExtendFrom_eq (value : BitVec 32) {position : Nat} (h : position < 32) :
    signExtendFrom value position = (value.setWidth (position + 1)).signExtend 32 := by
  refine BitVec.eq_of_getLsbD_eq fun i hi => ?_
  have hmsb : (value.setWidth (position + 1)).msb = value.getLsbD position := by
    simp [BitVec.msb_eq_getLsbD_last]
  rw [signExtendFrom, BitVec.getLsbD_signExtend, BitVec.getLsbD_setWidth, hmsb]
  simp only [hi, decide_true, Bool.true_and, ne_eq, and_bit_eq_zero_iff value h]
  cases hbit : value.getLsbD position with
  | true =>
      -- The mask has the bits below the sign, so that those above it are set.
      simp only [Bool.true_eq_false, not_false_eq_true, if_true, BitVec.getLsbD_or,
        BitVec.getLsbD_not, getLsbD_mask h, hi, decide_true, Bool.true_and]
      rcases Nat.lt_trichotomy i position with hlt | rfl | hgt
      · simp [hlt, Nat.lt_succ_of_lt hlt]
      · simp [hbit]
      · simp [Nat.not_lt_of_gt hgt, Nat.not_lt_of_ge hgt]
  | false =>
      simp only [not_true_eq_false, if_false, BitVec.getLsbD_and, getLsbD_mask h]
      rcases Nat.lt_trichotomy i position with hlt | rfl | hgt
      · simp [hlt, Nat.lt_succ_of_lt hlt]
      · simp [hbit]
      · simp [Nat.not_lt_of_gt hgt, Nat.not_lt_of_ge hgt]

/-- The sign of a number is extended from its last bit. -/
theorem toInt_signExtendFrom {position : Nat} (h : position < 32) (x : BitVec (position + 1)) :
    (signExtendFrom (x.setWidth 32) position).toInt = x.toInt := by
  rw [signExtendFrom_eq _ h, BitVec.toInt_signExtend_of_le h,
    BitVec.setWidth_setWidth_of_le _ h, BitVec.setWidth_eq]

/-- Cutting the number down keeps it, as long as there is room. -/
theorem toInt_narrowed {position : Nat} (h : position < 16) (x : BitVec (position + 1)) :
    ((signExtendFrom (x.setWidth 32) position).setWidth 16).toInt = x.toInt := by
  have hnarrow : (x.signExtend 32).setWidth 16 = x.signExtend 16 := by
    refine BitVec.eq_of_getLsbD_eq fun i hi => ?_
    simp only [BitVec.getLsbD_setWidth, BitVec.getLsbD_signExtend, hi, decide_true, Bool.true_and,
      show i < 32 by omega]
  rw [signExtendFrom_eq _ (by omega), BitVec.setWidth_setWidth_of_le _ (by omega),
    BitVec.setWidth_eq, hnarrow, BitVec.toInt_signExtend_of_le h]

theorem toInt_append_zeros {n : Nat} (hn : 0 < n) (x : BitVec n) (zeros : Nat) :
    (x ++ BitVec.ofNat zeros 0).toInt = 2 ^ zeros * x.toInt := by
  rw [BitVec.toInt_append, if_neg (by simpa using hn.ne')]
  simp

/-! ## Immediates of 32-bit encodings -/

theorem IType.value_ofWord (w : BitVec 32) :
    ((signExtendFrom (w >>> 20) 11).setWidth 16).toInt = (IType.ofWord w).value := by
  have hbits : w >>> 20 = (IType.ofWord w).imm.setWidth 32 := by
    refine BitVec.eq_of_getLsbD_eq fun i hi => ?_
    simp only [IType.ofWord, BitVec.getLsbD_ushiftRight, BitVec.getLsbD_setWidth,
      BitVec.getLsbD_extractLsb]
    interval_cases i <;> simp
  rw [hbits, toInt_narrowed (by decide), IType.value]

theorem SType.value_ofWord (w : BitVec 32) :
    ((signExtendFrom (Masked.storeWord w) 11).setWidth 16).toInt = (SType.ofWord w).value := by
  have hbits : Masked.storeWord w = (SType.ofWord w).imm.setWidth 32 := by
    refine BitVec.eq_of_getLsbD_eq fun i hi => ?_
    simp only [Masked.storeWord, SType.ofWord, BitVec.getLsbD_or, BitVec.getLsbD_and,
      BitVec.getLsbD_ushiftRight, BitVec.getLsbD_setWidth, BitVec.getLsbD_append,
      BitVec.getLsbD_extractLsb]
    interval_cases i <;> simp
  rw [hbits, toInt_narrowed (by decide), SType.value]

theorem BType.offset_ofWord (w : BitVec 32) :
    ((signExtendFrom (Masked.branchWord w) 12).setWidth 16).toInt = (BType.ofWord w).offset := by
  have hbits : Masked.branchWord w = ((BType.ofWord w).halves ++ 0#1).setWidth 32 := by
    refine BitVec.eq_of_getLsbD_eq fun i hi => ?_
    simp only [Masked.branchWord, BType.ofWord, BitVec.getLsbD_or, BitVec.getLsbD_and,
      BitVec.getLsbD_ushiftRight, BitVec.getLsbD_shiftLeft, BitVec.getLsbD_setWidth,
      BitVec.getLsbD_append, BitVec.getLsbD_extractLsb]
    interval_cases i <;> simp
  rw [hbits, toInt_narrowed (by decide), toInt_append_zeros (by decide), BType.offset]
  rfl

theorem UType.value_ofWord (w : BitVec 32) :
    (w &&& 0xfffff000#32).toInt = (UType.ofWord w).value := by
  have hbits : w &&& 0xfffff000#32 = (UType.ofWord w).upper ++ 0#12 := by
    refine BitVec.eq_of_getLsbD_eq fun i hi => ?_
    simp only [UType.ofWord, BitVec.getLsbD_and, BitVec.getLsbD_append, BitVec.getLsbD_extractLsb]
    interval_cases i <;> simp
  rw [hbits, toInt_append_zeros (by decide), UType.value]
  rfl

theorem JType.offset_ofWord (w : BitVec 32) :
    (signExtendFrom (Masked.jumpWord w) 20).toInt = (JType.ofWord w).offset := by
  have hbits : Masked.jumpWord w = ((JType.ofWord w).halves ++ 0#1).setWidth 32 := by
    refine BitVec.eq_of_getLsbD_eq fun i hi => ?_
    simp only [Masked.jumpWord, JType.ofWord, BitVec.getLsbD_or, BitVec.getLsbD_and,
      BitVec.getLsbD_ushiftRight, BitVec.getLsbD_setWidth, BitVec.getLsbD_append,
      BitVec.getLsbD_extractLsb]
    interval_cases i <;> simp
  rw [hbits, toInt_signExtendFrom (by decide), toInt_append_zeros (by decide), JType.offset]
  rfl

/-! ## Immediates of 16-bit encodings -/

theorem IType.value_ofHalf (w : BitVec 16) :
    ((signExtendFrom (Masked.immediateHalf (w.setWidth 32)) 5).setWidth 16).toInt =
      (IType.ofHalf w).value := by
  have hbits : Masked.immediateHalf (w.setWidth 32) = (sixBits w).setWidth 32 := by
    refine BitVec.eq_of_getLsbD_eq fun i hi => ?_
    simp only [Masked.immediateHalf, sixBits, BitVec.getLsbD_or, BitVec.getLsbD_and,
      BitVec.getLsbD_ushiftRight, getLsbD_widened]
    simp only [BitVec.getLsbD_setWidth, BitVec.getLsbD_append, BitVec.getLsbD_extractLsb]
    interval_cases i <;> simp
  rw [hbits, toInt_narrowed (by decide), IType.value, IType.ofHalf,
    BitVec.toInt_signExtend_of_le (by decide)]

theorem BType.offset_ofHalf (w : BitVec 16) :
    ((signExtendFrom (Masked.branchHalf (w.setWidth 32)) 8).setWidth 16).toInt =
      (BType.ofHalf w).offset := by
  obtain ⟨halves, hhalves, hbits⟩ : ∃ halves : BitVec 8,
      (BType.ofHalf w).halves = halves.signExtend 12 ∧
        Masked.branchHalf (w.setWidth 32) = (halves ++ 0#1).setWidth 32 := by
    refine ⟨_, rfl, BitVec.eq_of_getLsbD_eq fun i hi => ?_⟩
    simp only [Masked.branchHalf, BitVec.getLsbD_or, BitVec.getLsbD_and,
      BitVec.getLsbD_ushiftRight, BitVec.getLsbD_shiftLeft, getLsbD_widened]
    simp only [BitVec.getLsbD_setWidth, BitVec.getLsbD_append, BitVec.getLsbD_extractLsb]
    interval_cases i <;> simp
  rw [hbits, toInt_narrowed (by decide), toInt_append_zeros (by decide), BType.offset,
    hhalves, BitVec.toInt_signExtend_of_le (by decide)]
  rfl

theorem UType.value_ofHalf (w : BitVec 16) :
    (signExtendFrom (Masked.upperHalf (w.setWidth 32)) 17).toInt = (UType.ofHalf w).value := by
  have hbits : Masked.upperHalf (w.setWidth 32) = (sixBits w ++ 0#12).setWidth 32 := by
    refine BitVec.eq_of_getLsbD_eq fun i hi => ?_
    simp only [Masked.upperHalf, sixBits, BitVec.getLsbD_or, BitVec.getLsbD_and,
      BitVec.getLsbD_shiftLeft, getLsbD_widened]
    simp only [BitVec.getLsbD_setWidth, BitVec.getLsbD_append, BitVec.getLsbD_extractLsb]
    interval_cases i <;> simp
  rw [hbits, toInt_signExtendFrom (by decide), toInt_append_zeros (by decide), UType.value,
    UType.ofHalf, BitVec.toInt_signExtend_of_le (by decide)]
  rfl

theorem JType.offset_ofHalf (w : BitVec 16) :
    (signExtendFrom (Masked.jumpHalf (w.setWidth 32)) 11).toInt = (JType.ofHalf w).offset := by
  have hbits : Masked.jumpHalf (w.setWidth 32) = (offsetOfHalf w ++ 0#1).setWidth 32 := by
    refine BitVec.eq_of_getLsbD_eq fun i hi => ?_
    simp only [Masked.jumpHalf, offsetOfHalf, BitVec.getLsbD_or, BitVec.getLsbD_and,
      BitVec.getLsbD_ushiftRight, BitVec.getLsbD_shiftLeft, getLsbD_widened]
    simp only [BitVec.getLsbD_setWidth, BitVec.getLsbD_append, BitVec.getLsbD_extractLsb]
    interval_cases i <;> simp
  rw [hbits, toInt_signExtendFrom (by decide), toInt_append_zeros (by decide), JType.offset,
    JType.ofHalf, BitVec.toInt_signExtend_of_le (by decide)]
  rfl

end Retrace.Isa
