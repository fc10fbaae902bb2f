import Retrace.Text.Hex

/-!
# Instruction fields

The variable fields of the encoding formats. Each format is read from a 32-bit word
(`ofWord`) and, where a 16-bit format corresponds to it, from a 16-bit word (`ofHalf`).

Immediates hold exactly the bits that an encoding can choose: an offset of a branch or jump is
kept in half-words, an upper immediate in units of 4096. The number that an instruction means
is `offset` or `value`.
-/

namespace Retrace.Isa

/-- A register number. -/
abbrev Reg := BitVec 5

/-- The register that a three-bit field of a 16-bit encoding names: `x8` to `x15`. -/
def Reg.ofShort (field : BitVec 3) : Reg :=
  0b01#2 ++ field

/-- The link registers `x1` and `x5`, which calls write and returns read. -/
def Reg.isLink (r : Reg) : Bool :=
  r = 1#5 || r = 5#5

/-- The fields of the R and CR formats. -/
structure RType where
  rd : Reg
  rs1 : Reg
  rs2 : Reg
  deriving DecidableEq, Repr

/-- The fields of the I and CI formats, with an immediate of 12 bits. -/
structure IType where
  rd : Reg
  rs1 : Reg
  imm : BitVec 12
  deriving DecidableEq, Repr

/-- The fields of the S format, with an immediate of 12 bits. -/
structure SType where
  rs1 : Reg
  rs2 : Reg
  imm : BitVec 12
  deriving DecidableEq, Repr

/-- The fields of the B and CB formats, with an offset of 12 bits in half-words. -/
structure BType where
  rs1 : Reg
  rs2 : Reg
  halves : BitVec 12
  deriving DecidableEq, Repr

/-- The fields of the U format, with an immediate of 20 bits in units of 4096. -/
structure UType where
  rd : Reg
  upper : BitVec 20
  deriving DecidableEq, Repr

/-- The fields of the J and CJ formats, with an offset of 20 bits in half-words. -/
structure JType where
  rd : Reg
  halves : BitVec 20
  deriving DecidableEq, Repr

/-! ## Reading a 32-bit word -/

/-- The destination register. -/
def destination (w : BitVec 32) : Reg := w.extractLsb 11 7

/-- The first source register. -/
def source1 (w : BitVec 32) : Reg := w.extractLsb 19 15

/-- The second source register. -/
def source2 (w : BitVec 32) : Reg := w.extractLsb 24 20

def RType.ofWord (w : BitVec 32) : RType :=
  ⟨destination w, source1 w, source2 w⟩

def IType.ofWord (w : BitVec 32) : IType :=
  ⟨destination w, source1 w, w.extractLsb 31 20⟩

def SType.ofWord (w : BitVec 32) : SType :=
  ⟨source1 w, source2 w, w.extractLsb 31 25 ++ w.extractLsb 11 7⟩

def BType.ofWord (w : BitVec 32) : BType :=
  ⟨source1 w, source2 w,
    w.extractLsb 31 31 ++ w.extractLsb 7 7 ++ w.extractLsb 30 25 ++ w.extractLsb 11 8⟩

def UType.ofWord (w : BitVec 32) : UType :=
  ⟨destination w, w.extractLsb 31 12⟩

def JType.ofWord (w : BitVec 32) : JType :=
  ⟨destination w,
    w.extractLsb 31 31 ++ w.extractLsb 19 12 ++ w.extractLsb 20 20 ++ w.extractLsb 30 21⟩

/-! ## Reading a 16-bit word -/

/-- The full register field in the upper half of the operands. -/
def upperReg (w : BitVec 16) : Reg := w.extractLsb 11 7

/-- The full register field in the lower half of the operands. -/
def lowerReg (w : BitVec 16) : Reg := w.extractLsb 6 2

/-- The short register field in the upper half of the operands. -/
def upperShort (w : BitVec 16) : Reg := Reg.ofShort (w.extractLsb 9 7)

/-- The short register field in the lower half of the operands. -/
def lowerShort (w : BitVec 16) : Reg := Reg.ofShort (w.extractLsb 4 2)

/-- The six bits of a CI immediate or shift amount. -/
def sixBits (w : BitVec 16) : BitVec 6 :=
  w.extractLsb 12 12 ++ w.extractLsb 6 2

/-- The CR format: the destination is also the first source. -/
def RType.ofHalf (w : BitVec 16) : RType :=
  ⟨upperReg w, upperReg w, lowerReg w⟩

/-- The CI format: the destination is also the source, the six bits are signed. -/
def IType.ofHalf (w : BitVec 16) : IType :=
  ⟨upperReg w, upperReg w, (sixBits w).signExtend 12⟩

/-- The CB format compares one register with zero. -/
def BType.ofHalf (w : BitVec 16) : BType :=
  let offset : BitVec 8 :=
    w.extractLsb 12 12 ++ w.extractLsb 6 5 ++ w.extractLsb 2 2 ++ w.extractLsb 11 10 ++
      w.extractLsb 4 3
  ⟨upperShort w, 0#5, offset.signExtend 12⟩

/-- The upper immediate of the CI format. -/
def UType.ofHalf (w : BitVec 16) : UType :=
  ⟨upperReg w, (sixBits w).signExtend 20⟩

/-- The offset of the CJ format. -/
def offsetOfHalf (w : BitVec 16) : BitVec 11 :=
  w.extractLsb 12 12 ++ w.extractLsb 8 8 ++ w.extractLsb 10 9 ++ w.extractLsb 6 6 ++
    w.extractLsb 7 7 ++ w.extractLsb 2 2 ++ w.extractLsb 11 11 ++ w.extractLsb 5 3

/-- The CJ format has no register field; the link register is `x0`. -/
def JType.ofHalf (w : BitVec 16) : JType :=
  ⟨0#5, (offsetOfHalf w).signExtend 20⟩

/-! ## The numbers that immediates mean -/

def IType.value (d : IType) : Int := d.imm.toInt

def SType.value (d : SType) : Int := d.imm.toInt

/-- The distance to the target in bytes. -/
def BType.offset (d : BType) : Int := 2 * d.halves.toInt

/-- The upper immediate in units of one. -/
def UType.value (d : UType) : Int := 4096 * d.upper.toInt

/-- The distance to the target in bytes. -/
def JType.offset (d : JType) : Int := 2 * d.halves.toInt

/-! ## Text -/

/-- A register of the integer file. -/
def Reg.text (r : Reg) : String :=
  "x" ++ toString r.toNat

/-- A register of the floating-point file. -/
def Reg.floatText (r : Reg) : String :=
  "f" ++ toString r.toNat

end Retrace.Isa
