import Retrace.Isa.Fields

/-!
# Operations

What an instruction does. Operations that matter for control flow have their own constructor
with the fields that determine where execution goes. All others are `compute`: a mnemonic and
the operands, which is all that a listing shows.

The text of an operation is its mnemonic, followed by its operands if it has any.
-/

namespace Retrace.Isa

/-- The test of a conditional branch on two registers. -/
inductive BranchTest where
  | eq | ne | lt | ge | ltu | geu
  deriving DecidableEq, Repr

/-- The test of a 16-bit conditional branch on one register. -/
inductive ZeroTest where
  | eqz | nez
  deriving DecidableEq, Repr

/-- A register of one of the two files. -/
inductive FileReg where
  | int (r : Reg)
  | float (r : Reg)
  deriving DecidableEq, Repr

/-- The operands of a computation, by the way they are written. -/
inductive Operands where
  | none
  /-- Operands `rd, rs1, rs2`. -/
  | regs (d : RType)
  /-- Operands `rd, rs1, imm`. -/
  | imm (d : IType)
  /-- Operands `rd, rs1, amount`. -/
  | shift (rd rs1 : Reg) (amount : BitVec 6)
  /-- Operands `rd, imm(rs1)`. -/
  | load (d : IType)
  /-- Operands `rs2, imm(rs1)`. -/
  | store (d : SType)
  /-- Operands `fd, imm(rs1)`. -/
  | floatLoad (d : IType)
  /-- Operands `fs2, imm(rs1)`. -/
  | floatStore (d : SType)
  /-- Operands `rd, csr, rs1`. -/
  | csr (rd : Reg) (number : BitVec 12) (rs1 : Reg)
  /-- Operands `rd, csr, imm`. -/
  | csrImm (rd : Reg) (number : BitVec 12) (value : BitVec 5)
  /-- Operands `rd, rs2, (rs1)`. -/
  | atomic (d : RType)
  /-- Operands `rd, (rs1)`. -/
  | reserve (d : RType)
  /-- Registers of either file, destination first. -/
  | mixed (rs : List FileReg)
  deriving DecidableEq, Repr

/-- What an instruction does. -/
inductive Operation where
  | mret
  | sret
  | uret
  | dret
  | fence
  | fenceI
  | sfenceVma
  | wfi
  | ecall
  | ebreak
  | cEbreak
  | branch (test : BranchTest) (d : BType)
  | cBranch (test : ZeroTest) (d : BType)
  | auipc (d : UType)
  | lui (d : UType)
  | cLui (d : UType)
  | jal (d : JType)
  | cJ (d : JType)
  | cJal (d : JType)
  | jalr (d : IType)
  | cJr (rs1 : Reg)
  | cJalr (rs1 : Reg)
  | compute (mnemonic : String) (operands : Operands)
  deriving DecidableEq, Repr

/-! ## Text -/

def BranchTest.mnemonic : BranchTest → String
  | eq => "beq"
  | ne => "bne"
  | lt => "blt"
  | ge => "bge"
  | ltu => "bltu"
  | geu => "bgeu"

def ZeroTest.mnemonic : ZeroTest → String
  | eqz => "c.beqz"
  | nez => "c.bnez"

def FileReg.text : FileReg → String
  | int r => r.text
  | float r => r.floatText

/-- Operands in the order in which they are written. -/
def listed (operands : List String) : String :=
  ", ".intercalate operands

/-- A memory operand: the offset from a register. -/
def memoryText (offset : Int) (base : Reg) : String :=
  Text.signedHex offset ++ "(" ++ base.text ++ ")"

def Operands.text : Operands → String
  | none => ""
  | regs d => listed [d.rd.text, d.rs1.text, d.rs2.text]
  | imm d => listed [d.rd.text, d.rs1.text, Text.signedHex d.value]
  | shift rd rs1 amount => listed [rd.text, rs1.text, Text.hex amount.toNat]
  | load d => listed [d.rd.text, memoryText d.value d.rs1]
  | store d => listed [d.rs2.text, memoryText d.value d.rs1]
  | floatLoad d => listed [d.rd.floatText, memoryText d.value d.rs1]
  | floatStore d => listed [d.rs2.floatText, memoryText d.value d.rs1]
  | csr rd number rs1 => listed [rd.text, Text.hex number.toNat, rs1.text]
  | csrImm rd number value => listed [rd.text, Text.hex number.toNat, Text.hex value.toNat]
  | atomic d => listed [d.rd.text, d.rs2.text, "(" ++ d.rs1.text ++ ")"]
  | reserve d => listed [d.rd.text, "(" ++ d.rs1.text ++ ")"]
  | mixed rs => listed (rs.map FileReg.text)

namespace Operation

def mnemonic : Operation → String
  | mret => "mret"
  | sret => "sret"
  | uret => "uret"
  | dret => "dret"
  | fence => "fence"
  | fenceI => "fence.i"
  | sfenceVma => "sfence.vma"
  | wfi => "wfi"
  | ecall => "ecall"
  | ebreak => "ebreak"
  | cEbreak => "c.ebreak"
  | branch test _ => test.mnemonic
  | cBranch test _ => test.mnemonic
  | auipc _ => "auipc"
  | lui _ => "lui"
  | cLui _ => "c.lui"
  | jal _ => "jal"
  | cJ _ => "c.j"
  | cJal _ => "c.jal"
  | jalr _ => "jalr"
  | cJr _ => "c.jr"
  | cJalr _ => "c.jalr"
  | compute name _ => name

/-- The operands as they are written; empty if there are none. -/
def operandText : Operation → String
  | branch _ d => listed [d.rs1.text, d.rs2.text, Text.signedHex d.offset]
  | cBranch _ d => listed [d.rs1.text, Text.signedHex d.offset]
  | auipc d | lui d | cLui d => listed [d.rd.text, Text.signedHex d.upper.toInt]
  | jal d => listed [d.rd.text, Text.signedHex d.offset]
  | cJ d | cJal d => Text.signedHex d.offset
  | jalr d => listed [d.rd.text, d.rs1.text, Text.signedHex d.value]
  | cJr rs1 | cJalr rs1 => rs1.text
  | compute _ operands => operands.text
  | _ => ""

/-- The mnemonic and the operands. -/
def text (op : Operation) : String :=
  let operands := op.operandText
  if operands.isEmpty then op.mnemonic else op.mnemonic ++ " " ++ operands

end Operation

end Retrace.Isa
