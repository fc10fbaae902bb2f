import Retrace.Isa.Base
import Retrace.Isa.Operation

/-!
# 16-bit encodings

The encodings of the C extension. The two lowest bits select a quadrant and the three highest
bits a function in it. `Compressed.transfer?` reads the control transfers,
`Compressed.computation?` all others; no word is read by both.
-/

namespace Retrace.Isa.Compressed

/-! ## Offsets of loads and stores -/

/-- The offset of a word that a short register points near. -/
def wordOffset (w : BitVec 16) : BitVec 7 :=
  w.extractLsb 5 5 ++ w.extractLsb 12 10 ++ w.extractLsb 6 6 ++ 0#2

/-- The offset of a double word that a short register points near. -/
def doubleOffset (w : BitVec 16) : BitVec 8 :=
  w.extractLsb 6 5 ++ w.extractLsb 12 10 ++ 0#3

/-- The offset of a word loaded from the stack. -/
def wordStackLoad (w : BitVec 16) : BitVec 8 :=
  w.extractLsb 3 2 ++ w.extractLsb 12 12 ++ w.extractLsb 6 4 ++ 0#2

/-- The offset of a double word loaded from the stack. -/
def doubleStackLoad (w : BitVec 16) : BitVec 9 :=
  w.extractLsb 4 2 ++ w.extractLsb 12 12 ++ w.extractLsb 6 5 ++ 0#3

/-- The offset of a word stored to the stack. -/
def wordStackStore (w : BitVec 16) : BitVec 8 :=
  w.extractLsb 8 7 ++ w.extractLsb 12 9 ++ 0#2

/-- The offset of a double word stored to the stack. -/
def doubleStackStore (w : BitVec 16) : BitVec 9 :=
  w.extractLsb 9 7 ++ w.extractLsb 12 10 ++ 0#3

/-- The fields of a load near a short register. -/
def load {width : Nat} (w : BitVec 16) (offset : BitVec width) : IType :=
  ⟨lowerShort w, upperShort w, offset.setWidth 12⟩

/-- The fields of a store near a short register. -/
def store {width : Nat} (w : BitVec 16) (offset : BitVec width) : SType :=
  ⟨upperShort w, lowerShort w, offset.setWidth 12⟩

/-- The fields of a load from the stack, whose pointer is `x2`. -/
def stackLoad {width : Nat} (w : BitVec 16) (offset : BitVec width) : IType :=
  ⟨upperReg w, 2#5, offset.setWidth 12⟩

/-- The fields of a store to the stack, whose pointer is `x2`. -/
def stackStore {width : Nat} (w : BitVec 16) (offset : BitVec width) : SType :=
  ⟨2#5, lowerReg w, offset.setWidth 12⟩

/-! ## Decoding -/

/-- The distance above the stack pointer that `c.addi4spn` computes. -/
def stackSlot (w : BitVec 16) : BitVec 10 :=
  w.extractLsb 10 7 ++ w.extractLsb 12 11 ++ w.extractLsb 5 5 ++ w.extractLsb 6 6 ++ 0#2

/-- The amount by which `c.addi16sp` moves the stack pointer. -/
def stackMove (w : BitVec 16) : BitVec 10 :=
  w.extractLsb 12 12 ++ w.extractLsb 4 3 ++ w.extractLsb 5 5 ++ w.extractLsb 2 2 ++
    w.extractLsb 6 6 ++ 0#4

/-- The control transfers, the breakpoint and the upper immediate of a 16-bit word. -/
def transfer? (base : BaseSet) (w : BitVec 16) : Option Operation :=
  match w.extractLsb 1 0, w.extractLsb 15 13 with
  | 0b01#2, 0b001#3 =>
    match base with
    | .rv32 => some (.cJal { JType.ofHalf w with rd := 1#5 })
    | .rv64 => none
  | 0b01#2, 0b011#3 =>
    let d := UType.ofHalf w
    if d.rd ≠ 2#5 ∧ d.rd ≠ 0#5 ∧ d.upper ≠ 0#20 then some (.cLui d) else none
  | 0b01#2, 0b101#3 => some (.cJ (.ofHalf w))
  | 0b01#2, 0b110#3 => some (.cBranch .eqz (.ofHalf w))
  | 0b01#2, 0b111#3 => some (.cBranch .nez (.ofHalf w))
  | 0b10#2, 0b100#3 =>
    if lowerReg w ≠ 0#5 then none
    else if w.extractLsb 12 12 = 0#1 then
      if upperReg w = 0#5 then none else some (.cJr (upperReg w))
    else if upperReg w = 0#5 then some .cEbreak
    else some (.cJalr (upperReg w))
  | _, _ => none

/-- Arithmetic on short registers, the fourth function of the second quadrant. -/
def shortArithmetic? (base : BaseSet) (w : BitVec 16) : Option Operation :=
  let amount := sixBits w
  let shift := Operands.shift (upperShort w) (upperShort w) amount
  let regs := Operands.regs ⟨upperShort w, upperShort w, lowerShort w⟩
  let amountFits := base.is64 || amount.toNat < 32
  match w.extractLsb 11 10, w.extractLsb 12 12, w.extractLsb 6 5 with
  | 0b00#2, _, _ => if amountFits then some (.compute "c.srli" shift) else none
  | 0b01#2, _, _ => if amountFits then some (.compute "c.srai" shift) else none
  | 0b10#2, _, _ =>
    some (.compute "c.andi" (.imm ⟨upperShort w, upperShort w, (sixBits w).signExtend 12⟩))
  | _, 0#1, 0b00#2 => some (.compute "c.sub" regs)
  | _, 0#1, 0b01#2 => some (.compute "c.xor" regs)
  | _, 0#1, 0b10#2 => some (.compute "c.or" regs)
  | _, 0#1, _ => some (.compute "c.and" regs)
  | _, _, 0b00#2 => if base.is64 then some (.compute "c.subw" regs) else none
  | _, _, 0b01#2 => if base.is64 then some (.compute "c.addw" regs) else none
  | _, _, _ => none

/-- The loads, stores and arithmetic of a 16-bit word. -/
def computation? (base : BaseSet) (w : BitVec 16) : Option Operation :=
  match w.extractLsb 1 0, w.extractLsb 15 13 with
  | 0b00#2, 0b000#3 =>
    if stackSlot w = 0#10 then none
    else some (.compute "c.addi4spn" (.imm ⟨lowerShort w, 2#5, (stackSlot w).setWidth 12⟩))
  | 0b00#2, 0b001#3 => some (.compute "c.fld" (.floatLoad (load w (doubleOffset w))))
  | 0b00#2, 0b010#3 => some (.compute "c.lw" (.load (load w (wordOffset w))))
  | 0b00#2, 0b011#3 =>
    match base with
    | .rv64 => some (.compute "c.ld" (.load (load w (doubleOffset w))))
    | .rv32 => some (.compute "c.flw" (.floatLoad (load w (wordOffset w))))
  | 0b00#2, 0b101#3 => some (.compute "c.fsd" (.floatStore (store w (doubleOffset w))))
  | 0b00#2, 0b110#3 => some (.compute "c.sw" (.store (store w (wordOffset w))))
  | 0b00#2, 0b111#3 =>
    match base with
    | .rv64 => some (.compute "c.sd" (.store (store w (doubleOffset w))))
    | .rv32 => some (.compute "c.fsw" (.floatStore (store w (wordOffset w))))
  | 0b01#2, 0b000#3 =>
    if upperReg w = 0#5 then some (.compute "c.nop" .none)
    else some (.compute "c.addi" (.imm (.ofHalf w)))
  | 0b01#2, 0b001#3 =>
    match base with
    | .rv64 => if upperReg w = 0#5 then none else some (.compute "c.addiw" (.imm (.ofHalf w)))
    | .rv32 => none
  | 0b01#2, 0b010#3 => some (.compute "c.li" (.imm { IType.ofHalf w with rs1 := 0#5 }))
  | 0b01#2, 0b011#3 =>
    if upperReg w = 2#5 ∧ stackMove w ≠ 0#10 then
      some (.compute "c.addi16sp" (.imm ⟨2#5, 2#5, (stackMove w).signExtend 12⟩))
    else none
  | 0b01#2, 0b100#3 => shortArithmetic? base w
  | 0b10#2, 0b000#3 =>
    if base.is64 || (sixBits w).toNat < 32 then
      some (.compute "c.slli" (.shift (upperReg w) (upperReg w) (sixBits w)))
    else none
  | 0b10#2, 0b001#3 => some (.compute "c.fldsp" (.floatLoad (stackLoad w (doubleStackLoad w))))
  | 0b10#2, 0b010#3 =>
    if upperReg w = 0#5 then none
    else some (.compute "c.lwsp" (.load (stackLoad w (wordStackLoad w))))
  | 0b10#2, 0b011#3 =>
    match base with
    | .rv64 =>
      if upperReg w = 0#5 then none
      else some (.compute "c.ldsp" (.load (stackLoad w (doubleStackLoad w))))
    | .rv32 => some (.compute "c.flwsp" (.floatLoad (stackLoad w (wordStackLoad w))))
  | 0b10#2, 0b100#3 =>
    if upperReg w = 0#5 ∨ lowerReg w = 0#5 then none
    else if w.extractLsb 12 12 = 0#1 then
      some (.compute "c.mv" (.regs { RType.ofHalf w with rs1 := 0#5 }))
    else some (.compute "c.add" (.regs (.ofHalf w)))
  | 0b10#2, 0b101#3 =>
    some (.compute "c.fsdsp" (.floatStore (stackStore w (doubleStackStore w))))
  | 0b10#2, 0b110#3 => some (.compute "c.swsp" (.store (stackStore w (wordStackStore w))))
  | 0b10#2, 0b111#3 =>
    match base with
    | .rv64 => some (.compute "c.sdsp" (.store (stackStore w (doubleStackStore w))))
    | .rv32 => some (.compute "c.fswsp" (.floatStore (stackStore w (wordStackStore w))))
  | _, _ => none

/-- The operation of a 16-bit word. -/
def ofHalf? (base : BaseSet) (w : BitVec 16) : Option Operation :=
  transfer? base w <|> computation? base w

end Retrace.Isa.Compressed
