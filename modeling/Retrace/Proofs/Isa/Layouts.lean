import Mathlib.Tactic.IntervalCases
import Retrace.Isa.Instruction

/-!
# Layouts of control transfers

The layouts that the manual gives for the encodings of control transfers. The bits of an offset are
scattered over a word; reading the word gathers them again, and no bit of the word is left out.
-/

namespace Retrace.Isa

/-! ## Layouts -/

/-- The 32-bit layout of branches: `imm[12|10:5] rs2 rs1 funct3 imm[4:1|11] opcode`. -/
def branchWord (funct3 : BitVec 3) (rs1 rs2 : Reg) (imm : BitVec 13) : BitVec 32 :=
  imm.extractLsb 12 12 ++ imm.extractLsb 10 5 ++ rs2 ++ rs1 ++ funct3 ++ imm.extractLsb 4 1 ++
    imm.extractLsb 11 11 ++ 0b1100011#7

/-- The layout of `jal`: `imm[20|10:1|11|19:12] rd opcode`. -/
def jalWord (rd : Reg) (imm : BitVec 21) : BitVec 32 :=
  imm.extractLsb 20 20 ++ imm.extractLsb 10 1 ++ imm.extractLsb 11 11 ++ imm.extractLsb 19 12 ++
    rd ++ 0b1101111#7

/-- The layout of `jalr`: `imm[11:0] rs1 000 rd opcode`. -/
def jalrWord (rd rs1 : Reg) (imm : BitVec 12) : BitVec 32 :=
  imm ++ rs1 ++ 0b000#3 ++ rd ++ 0b1100111#7

/-- The 16-bit layout of branches: `funct3 imm[8|4:3] rs1 imm[7:6|2:1|5] op`. -/
def branchHalf (funct3 rs1 : BitVec 3) (imm : BitVec 9) : BitVec 16 :=
  funct3 ++ imm.extractLsb 8 8 ++ imm.extractLsb 4 3 ++ rs1 ++ imm.extractLsb 7 6 ++
    imm.extractLsb 2 1 ++ imm.extractLsb 5 5 ++ 0b01#2

/-- The 16-bit layout of jumps to an offset: `funct3 imm[11|4|9:8|10|6|7|3:1|5] op`. -/
def jumpHalf (funct3 : BitVec 3) (imm : BitVec 12) : BitVec 16 :=
  funct3 ++ imm.extractLsb 11 11 ++ imm.extractLsb 4 4 ++ imm.extractLsb 9 8 ++
    imm.extractLsb 10 10 ++ imm.extractLsb 6 6 ++ imm.extractLsb 7 7 ++ imm.extractLsb 3 1 ++
    imm.extractLsb 5 5 ++ 0b01#2

/-- The 16-bit layout of jumps to a register: `funct4 rs1 00000 op`. -/
def registerHalf (funct4 : BitVec 4) (rs1 : Reg) : BitVec 16 :=
  funct4 ++ rs1 ++ 0b00000#5 ++ 0b10#2

variable (funct3 short : BitVec 3) (rd rs1 rs2 : Reg)

/-- The offset without its lowest bit, which is zero. -/
theorem extractLsb_append_zero {n : Nat} (halves : BitVec n) :
    (halves ++ 0#1).extractLsb' 1 n = halves :=
  BitVec.extractLsb'_append_eq_left

/-! ## Branches of 32 bits -/

theorem opcode_branchWord (imm : BitVec 13) :
    (branchWord funct3 rs1 rs2 imm).extractLsb 6 0 = 0b1100011#7 ∧
      (branchWord funct3 rs1 rs2 imm).extractLsb 14 12 = funct3 := by
  constructor <;> refine BitVec.eq_of_getLsbD_eq fun i hi => ?_
  all_goals
    simp only [branchWord, BitVec.getLsbD_append, BitVec.getLsbD_extractLsb]
    interval_cases i <;> rfl

theorem ofWord_branchWord (imm : BitVec 13) :
    BType.ofWord (branchWord funct3 rs1 rs2 imm) = ⟨rs1, rs2, imm.extractLsb 12 1⟩ := by
  rw [BType.ofWord, BType.mk.injEq]
  refine ⟨?_, ?_, ?_⟩ <;> refine BitVec.eq_of_getLsbD_eq fun i hi => ?_
  all_goals
    simp only [branchWord, source1, source2, BitVec.getLsbD_append, BitVec.getLsbD_extractLsb]
    interval_cases i <;> rfl

theorem branchWord_ofWord {w : BitVec 32} (h : w.extractLsb 6 0 = 0b1100011#7) :
    branchWord (w.extractLsb 14 12) (BType.ofWord w).rs1 (BType.ofWord w).rs2
      ((BType.ofWord w).halves ++ 0#1) = w := by
  rw [branchWord, ← h]
  refine BitVec.eq_of_getLsbD_eq fun i hi => ?_
  simp only [BType.ofWord, source1, source2, BitVec.getLsbD_append, BitVec.getLsbD_extractLsb]
  interval_cases i <;> rfl

/-! ## Jumps of 32 bits -/

theorem opcode_jalWord (imm : BitVec 21) : (jalWord rd imm).extractLsb 6 0 = 0b1101111#7 := by
  refine BitVec.eq_of_getLsbD_eq fun i hi => ?_
  simp only [jalWord, BitVec.getLsbD_append, BitVec.getLsbD_extractLsb]
  interval_cases i <;> rfl

theorem ofWord_jalWord (imm : BitVec 21) :
    JType.ofWord (jalWord rd imm) = ⟨rd, imm.extractLsb 20 1⟩ := by
  rw [JType.ofWord, JType.mk.injEq]
  constructor <;> refine BitVec.eq_of_getLsbD_eq fun i hi => ?_
  all_goals
    simp only [jalWord, destination, BitVec.getLsbD_append, BitVec.getLsbD_extractLsb]
    interval_cases i <;> rfl

theorem jalWord_ofWord {w : BitVec 32} (h : w.extractLsb 6 0 = 0b1101111#7) :
    jalWord (JType.ofWord w).rd ((JType.ofWord w).halves ++ 0#1) = w := by
  rw [jalWord, ← h]
  refine BitVec.eq_of_getLsbD_eq fun i hi => ?_
  simp only [JType.ofWord, destination, BitVec.getLsbD_append, BitVec.getLsbD_extractLsb]
  interval_cases i <;> rfl

theorem opcode_jalrWord (imm : BitVec 12) :
    (jalrWord rd rs1 imm).extractLsb 6 0 = 0b1100111#7 ∧
      (jalrWord rd rs1 imm).extractLsb 14 12 = 0b000#3 := by
  constructor <;> refine BitVec.eq_of_getLsbD_eq fun i hi => ?_
  all_goals
    simp only [jalrWord, BitVec.getLsbD_append, BitVec.getLsbD_extractLsb]
    interval_cases i <;> rfl

theorem ofWord_jalrWord (imm : BitVec 12) :
    IType.ofWord (jalrWord rd rs1 imm) = ⟨rd, rs1, imm⟩ := by
  rw [IType.ofWord, IType.mk.injEq]
  refine ⟨?_, ?_, ?_⟩ <;> refine BitVec.eq_of_getLsbD_eq fun i hi => ?_
  all_goals
    simp only [jalrWord, destination, source1, BitVec.getLsbD_append, BitVec.getLsbD_extractLsb]
    interval_cases i <;> rfl

theorem jalrWord_ofWord {w : BitVec 32} (hopcode : w.extractLsb 6 0 = 0b1100111#7)
    (hfunct3 : w.extractLsb 14 12 = 0b000#3) :
    jalrWord (IType.ofWord w).rd (IType.ofWord w).rs1 (IType.ofWord w).imm = w := by
  rw [jalrWord, ← hopcode, ← hfunct3]
  refine BitVec.eq_of_getLsbD_eq fun i hi => ?_
  simp only [IType.ofWord, destination, source1, BitVec.getLsbD_append, BitVec.getLsbD_extractLsb]
  interval_cases i <;> rfl

/-! ## Branches of 16 bits -/

theorem opcode_branchHalf (imm : BitVec 9) :
    (branchHalf funct3 short imm).extractLsb 1 0 = 0b01#2 ∧
      (branchHalf funct3 short imm).extractLsb 15 13 = funct3 := by
  constructor <;> refine BitVec.eq_of_getLsbD_eq fun i hi => ?_
  all_goals
    simp only [branchHalf, BitVec.getLsbD_append, BitVec.getLsbD_extractLsb]
    interval_cases i <;> rfl

theorem ofHalf_branchHalf (imm : BitVec 9) :
    BType.ofHalf (branchHalf funct3 short imm) =
      ⟨Reg.ofShort short, 0#5, (imm.extractLsb' 1 8).signExtend 12⟩ := by
  rw [BType.ofHalf, BType.mk.injEq, upperShort]
  refine ⟨congrArg Reg.ofShort ?_, rfl, congrArg (BitVec.signExtend 12) ?_⟩ <;>
    refine BitVec.eq_of_getLsbD_eq fun i hi => ?_
  all_goals
    simp only [branchHalf, BitVec.getLsbD_append, BitVec.getLsbD_extractLsb,
      BitVec.getLsbD_extractLsb']
    interval_cases i <;> rfl

theorem exists_branchHalf {w : BitVec 16} (h : w.extractLsb 1 0 = 0b01#2) :
    ∃ (short : BitVec 3) (halves : BitVec 8),
      BType.ofHalf w = ⟨Reg.ofShort short, 0#5, halves.signExtend 12⟩ ∧
        w = branchHalf (w.extractLsb 15 13) short (halves ++ 0#1) := by
  refine ⟨_, _, rfl, ?_⟩
  rw [branchHalf, ← h]
  refine BitVec.eq_of_getLsbD_eq fun i hi => ?_
  simp only [BitVec.getLsbD_append, BitVec.getLsbD_extractLsb]
  interval_cases i <;> rfl

/-! ## Jumps of 16 bits -/

theorem opcode_jumpHalf (imm : BitVec 12) :
    (jumpHalf funct3 imm).extractLsb 1 0 = 0b01#2 ∧
      (jumpHalf funct3 imm).extractLsb 15 13 = funct3 := by
  constructor <;> refine BitVec.eq_of_getLsbD_eq fun i hi => ?_
  all_goals
    simp only [jumpHalf, BitVec.getLsbD_append, BitVec.getLsbD_extractLsb]
    interval_cases i <;> rfl

theorem offsetOfHalf_jumpHalf (imm : BitVec 12) :
    offsetOfHalf (jumpHalf funct3 imm) = imm.extractLsb 11 1 := by
  refine BitVec.eq_of_getLsbD_eq fun i hi => ?_
  simp only [offsetOfHalf, jumpHalf, BitVec.getLsbD_append, BitVec.getLsbD_extractLsb]
  interval_cases i <;> rfl

theorem jumpHalf_offsetOfHalf {w : BitVec 16} (h : w.extractLsb 1 0 = 0b01#2) :
    jumpHalf (w.extractLsb 15 13) (offsetOfHalf w ++ 0#1) = w := by
  rw [jumpHalf, ← h]
  refine BitVec.eq_of_getLsbD_eq fun i hi => ?_
  simp only [offsetOfHalf, BitVec.getLsbD_append, BitVec.getLsbD_extractLsb]
  interval_cases i <;> rfl

theorem opcode_registerHalf (funct4 : BitVec 4) (rs1 : Reg) :
    (registerHalf funct4 rs1).extractLsb 1 0 = 0b10#2 ∧
      (registerHalf funct4 rs1).extractLsb 15 13 = funct4.extractLsb 3 1 ∧
      (registerHalf funct4 rs1).extractLsb 12 12 = funct4.extractLsb 0 0 := by
  refine ⟨?_, ?_, ?_⟩ <;> refine BitVec.eq_of_getLsbD_eq fun i hi => ?_
  all_goals
    simp only [registerHalf, BitVec.getLsbD_append, BitVec.getLsbD_extractLsb]
    interval_cases i <;> rfl

theorem registers_registerHalf (funct4 : BitVec 4) (rs1 : Reg) :
    upperReg (registerHalf funct4 rs1) = rs1 ∧ lowerReg (registerHalf funct4 rs1) = 0#5 := by
  constructor <;> refine BitVec.eq_of_getLsbD_eq fun i hi => ?_
  all_goals
    simp only [upperReg, lowerReg, registerHalf, BitVec.getLsbD_append, BitVec.getLsbD_extractLsb]
    interval_cases i <;> rfl

theorem registerHalf_upperReg {w : BitVec 16} (hop : w.extractLsb 1 0 = 0b10#2)
    (hlower : lowerReg w = 0#5) :
    registerHalf (w.extractLsb 15 13 ++ w.extractLsb 12 12) (upperReg w) = w := by
  rw [registerHalf, ← hop, ← hlower]
  refine BitVec.eq_of_getLsbD_eq fun i hi => ?_
  simp only [upperReg, lowerReg, BitVec.getLsbD_append, BitVec.getLsbD_extractLsb]
  interval_cases i <;> rfl

end Retrace.Isa
