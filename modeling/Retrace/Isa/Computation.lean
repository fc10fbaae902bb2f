import Retrace.Isa.Base
import Retrace.Isa.Operation

/-!
# Computations

The 32-bit encodings without influence on control flow: the base sets and the extensions M, A,
F, D and Zicsr. They are a table of rows; a row gives the bits that must match, the base set
that it is limited to, the mnemonic and how the operands are read. A word is the first row that
matches.
-/

namespace Retrace.Isa

/-- Bits that a word must have: those under `mask` are `bits`. -/
structure Pattern where
  mask : BitVec 32
  bits : BitVec 32

namespace Pattern

/-- The word has the given value in the field that starts at bit `low`. -/
def field {width : Nat} (low : Nat) (value : BitVec width) : Pattern :=
  ⟨(BitVec.allOnes width).setWidth 32 <<< low, value.setWidth 32 <<< low⟩

/-- Both patterns hold. -/
def and (p q : Pattern) : Pattern :=
  ⟨p.mask ||| q.mask, p.bits ||| q.bits⟩

def Matches (p : Pattern) (w : BitVec 32) : Prop :=
  w &&& p.mask = p.bits

instance (p : Pattern) (w : BitVec 32) : Decidable (p.Matches w) :=
  inferInstanceAs (Decidable (_ = _))

end Pattern

/-- A row of the table. -/
structure Computation where
  pattern : Pattern
  /-- The base set that the row is limited to. -/
  only? : Option BaseSet
  mnemonic : String
  operands : BitVec 32 → Operands

namespace Computation

/-- A row of any base set that matches the opcode. -/
def ofOpcode (opcode : BitVec 7) (operands : BitVec 32 → Operands) (mnemonic : String) :
    Computation :=
  ⟨.field 0 opcode, none, mnemonic, operands⟩

/-- The row with a further field to match. -/
def withField (c : Computation) {width : Nat} (low : Nat) (value : BitVec width) : Computation :=
  { c with pattern := c.pattern.and (.field low value) }

/-- The row with the three bits that select the function. -/
def funct3 (c : Computation) (value : BitVec 3) : Computation := c.withField 12 value

/-- The row with the seven bits that select the function. -/
def funct7 (c : Computation) (value : BitVec 7) : Computation := c.withField 25 value

/-- The row with the five bits that select an atomic or floating-point function. -/
def funct5 (c : Computation) (value : BitVec 5) : Computation := c.withField 27 value

/-- The row with the two bits of the floating-point format. -/
def format (c : Computation) (value : BitVec 2) : Computation := c.withField 25 value

/-- The row with the second source register. -/
def source2 (c : Computation) (value : BitVec 5) : Computation := c.withField 20 value

/-- The row limited to one base set. -/
def only (c : Computation) (base : BaseSet) : Computation := { c with only? := some base }

/-! ## Operands -/

def regs (w : BitVec 32) : Operands := .regs (.ofWord w)

def imm (w : BitVec 32) : Operands := .imm (.ofWord w)

/-- A shift by five bits of amount. -/
def shift5 (w : BitVec 32) : Operands :=
  .shift (destination w) (source1 w) ((w.extractLsb 24 20).setWidth 6)

/-- A shift by six bits of amount. -/
def shift6 (w : BitVec 32) : Operands :=
  .shift (destination w) (source1 w) (w.extractLsb 25 20)

def csr (w : BitVec 32) : Operands :=
  .csr (destination w) (w.extractLsb 31 20) (source1 w)

def csrImm (w : BitVec 32) : Operands :=
  .csrImm (destination w) (w.extractLsb 31 20) (source1 w)

/-- Floating-point registers: destination and one source. -/
def float1 (w : BitVec 32) : Operands :=
  .mixed [.float (destination w), .float (source1 w)]

/-- Floating-point registers: destination and two sources. -/
def float2 (w : BitVec 32) : Operands :=
  .mixed [.float (destination w), .float (source1 w), .float (Isa.source2 w)]

/-- Floating-point registers: destination and three sources. -/
def float3 (w : BitVec 32) : Operands :=
  .mixed [.float (destination w), .float (source1 w), .float (Isa.source2 w),
    .float (w.extractLsb 31 27)]

/-- An integer destination and one floating-point source. -/
def toInt1 (w : BitVec 32) : Operands :=
  .mixed [.int (destination w), .float (source1 w)]

/-- An integer destination and two floating-point sources. -/
def toInt2 (w : BitVec 32) : Operands :=
  .mixed [.int (destination w), .float (source1 w), .float (Isa.source2 w)]

/-- A floating-point destination and an integer source. -/
def fromInt (w : BitVec 32) : Operands :=
  .mixed [.float (destination w), .int (source1 w)]

/-! ## The table -/

/-- Loads of the integer file. -/
def loads : List Computation :=
  let load := ofOpcode 0b0000011 fun w => .load (.ofWord w)
  [ (load "lb").funct3 0b000,
    (load "lh").funct3 0b001,
    (load "lw").funct3 0b010,
    ((load "ld").funct3 0b011).only .rv64,
    (load "lbu").funct3 0b100,
    (load "lhu").funct3 0b101,
    ((load "lwu").funct3 0b110).only .rv64 ]

/-- Stores of the integer file. -/
def stores : List Computation :=
  let store := ofOpcode 0b0100011 fun w => .store (.ofWord w)
  [ (store "sb").funct3 0b000,
    (store "sh").funct3 0b001,
    (store "sw").funct3 0b010,
    ((store "sd").funct3 0b011).only .rv64 ]

/-- Loads and stores of the floating-point file. -/
def floatMemory : List Computation :=
  let load := ofOpcode 0b0000111 fun w => .floatLoad (.ofWord w)
  let store := ofOpcode 0b0100111 fun w => .floatStore (.ofWord w)
  [ (load "flw").funct3 0b010,
    (load "fld").funct3 0b011,
    (store "fsw").funct3 0b010,
    (store "fsd").funct3 0b011 ]

/-- Arithmetic on a register and an immediate. On RV64I a shift amount has six bits, and
operations on words are separate. -/
def immediates : List Computation :=
  let op := ofOpcode 0b0010011
  let opWord := fun operands mnemonic => (ofOpcode 0b0011011 operands mnemonic).only .rv64
  let wide := fun mnemonic => (op shift6 mnemonic).only .rv64
  let narrow := fun mnemonic => (op shift5 mnemonic).only .rv32
  [ (op imm "addi").funct3 0b000,
    (op imm "slti").funct3 0b010,
    (op imm "sltiu").funct3 0b011,
    (op imm "xori").funct3 0b100,
    (op imm "ori").funct3 0b110,
    (op imm "andi").funct3 0b111,
    ((wide "slli").funct3 0b001).withField 26 0b000000#6,
    ((wide "srli").funct3 0b101).withField 26 0b000000#6,
    ((wide "srai").funct3 0b101).withField 26 0b010000#6,
    ((narrow "slli").funct3 0b001).funct7 0b0000000,
    ((narrow "srli").funct3 0b101).funct7 0b0000000,
    ((narrow "srai").funct3 0b101).funct7 0b0100000,
    (opWord imm "addiw").funct3 0b000,
    ((opWord shift5 "slliw").funct3 0b001).funct7 0b0000000,
    ((opWord shift5 "srliw").funct3 0b101).funct7 0b0000000,
    ((opWord shift5 "sraiw").funct3 0b101).funct7 0b0100000 ]

/-- Arithmetic on two registers. -/
def registers : List Computation :=
  let op := fun upper lower mnemonic =>
    ((ofOpcode 0b0110011 regs mnemonic).funct7 upper).funct3 lower
  [ op 0b0000000 0b000 "add",
    op 0b0100000 0b000 "sub",
    op 0b0000000 0b001 "sll",
    op 0b0000000 0b010 "slt",
    op 0b0000000 0b011 "sltu",
    op 0b0000000 0b100 "xor",
    op 0b0000000 0b101 "srl",
    op 0b0100000 0b101 "sra",
    op 0b0000000 0b110 "or",
    op 0b0000000 0b111 "and",
    op 0b0000001 0b000 "mul",
    op 0b0000001 0b001 "mulh",
    op 0b0000001 0b010 "mulhsu",
    op 0b0000001 0b011 "mulhu",
    op 0b0000001 0b100 "div",
    op 0b0000001 0b101 "divu",
    op 0b0000001 0b110 "rem",
    op 0b0000001 0b111 "remu" ]

/-- Arithmetic on the lower words of two registers. -/
def wordRegisters : List Computation :=
  let op := fun upper lower mnemonic =>
    (((ofOpcode 0b0111011 regs mnemonic).funct7 upper).funct3 lower).only .rv64
  [ op 0b0000000 0b000 "addw",
    op 0b0100000 0b000 "subw",
    op 0b0000000 0b001 "sllw",
    op 0b0000000 0b101 "srlw",
    op 0b0100000 0b101 "sraw",
    op 0b0000001 0b000 "mulw",
    op 0b0000001 0b100 "divw",
    op 0b0000001 0b101 "divuw",
    op 0b0000001 0b110 "remw",
    op 0b0000001 0b111 "remuw" ]

/-- An atomic operation on words and, on RV64I, on double words. -/
def atomic (function : BitVec 5) (name : String) : List Computation :=
  let op := fun mnemonic =>
    (ofOpcode 0b0101111 (fun w => .atomic (.ofWord w)) mnemonic).funct5 function
  [ (op (name ++ ".w")).funct3 0b010,
    ((op (name ++ ".d")).funct3 0b011).only .rv64 ]

/-- The atomic operations. A load that reserves has no second source. -/
def atomics : List Computation :=
  let reserve := fun mnemonic =>
    ((ofOpcode 0b0101111 (fun w => .reserve (.ofWord w)) mnemonic).funct5 0b00010).source2 0
  [ (reserve "lr.w").funct3 0b010,
    ((reserve "lr.d").funct3 0b011).only .rv64 ] ++
  atomic 0b00011 "sc" ++
  atomic 0b00001 "amoswap" ++
  atomic 0b00000 "amoadd" ++
  atomic 0b00100 "amoxor" ++
  atomic 0b01100 "amoand" ++
  atomic 0b01000 "amoor" ++
  atomic 0b10000 "amomin" ++
  atomic 0b10100 "amomax" ++
  atomic 0b11000 "amominu" ++
  atomic 0b11100 "amomaxu"

/-- Accesses of control and status registers. -/
def csrs : List Computation :=
  let op := fun operands function mnemonic => (ofOpcode 0b1110011 operands mnemonic).funct3 function
  [ op csr 0b001 "csrrw",
    op csr 0b010 "csrrs",
    op csr 0b011 "csrrc",
    op csrImm 0b101 "csrrwi",
    op csrImm 0b110 "csrrsi",
    op csrImm 0b111 "csrrci" ]

/-- A row in single and in double precision; `name` takes the letter of the format. -/
def bothFormats (name : String → String) (row : String → Computation) : List Computation :=
  [ (row (name "s")).format 0b00, (row (name "d")).format 0b01 ]

/-- Fused multiplications and additions. -/
def fused : List Computation :=
  let op := fun opcode name => bothFormats (name ++ "." ++ ·) (ofOpcode opcode float3)
  op 0b1000011 "fmadd" ++ op 0b1000111 "fmsub" ++ op 0b1001011 "fnmsub" ++ op 0b1001111 "fnmadd"

/-- Arithmetic, comparison and conversion of floating-point numbers. -/
def floats : List Computation :=
  let op := fun function operands mnemonic =>
    (ofOpcode 0b1010011 operands mnemonic).funct5 function
  let both := fun name function operands =>
    bothFormats (name ++ "." ++ ·) (op function operands)
  let select := fun name function operands lower =>
    bothFormats (name ++ "." ++ ·) fun mnemonic => (op function operands mnemonic).funct3 lower
  let toInt := fun kind value =>
    bothFormats ("fcvt." ++ kind ++ "." ++ ·) fun mnemonic =>
      (op 0b11000 toInt1 mnemonic).source2 value
  let ofInt := fun kind value =>
    bothFormats ("fcvt." ++ · ++ "." ++ kind) fun mnemonic =>
      (op 0b11010 fromInt mnemonic).source2 value
  let move := fun function operands mnemonic =>
    ((op function operands mnemonic).source2 0).funct3 0b000
  let classify := fun mnemonic => ((op 0b11100 toInt1 mnemonic).source2 0).funct3 0b001
  both "fadd" 0b00000 float2 ++
  both "fsub" 0b00001 float2 ++
  both "fmul" 0b00010 float2 ++
  both "fdiv" 0b00011 float2 ++
  bothFormats ("fsqrt." ++ ·) (fun mnemonic => (op 0b01011 float1 mnemonic).source2 0) ++
  select "fsgnj" 0b00100 float2 0b000 ++
  select "fsgnjn" 0b00100 float2 0b001 ++
  select "fsgnjx" 0b00100 float2 0b010 ++
  select "fmin" 0b00101 float2 0b000 ++
  select "fmax" 0b00101 float2 0b001 ++
  select "fle" 0b10100 toInt2 0b000 ++
  select "flt" 0b10100 toInt2 0b001 ++
  select "feq" 0b10100 toInt2 0b010 ++
  [ ((op 0b01000 float1 "fcvt.s.d").format 0b00).source2 1,
    ((op 0b01000 float1 "fcvt.d.s").format 0b01).source2 0 ] ++
  toInt "w" 0 ++
  toInt "wu" 1 ++
  (toInt "l" 2).map (only · .rv64) ++
  (toInt "lu" 3).map (only · .rv64) ++
  ofInt "w" 0 ++
  ofInt "wu" 1 ++
  (ofInt "l" 2).map (only · .rv64) ++
  (ofInt "lu" 3).map (only · .rv64) ++
  [ (move 0b11100 toInt1 "fmv.x.w").format 0b00,
    ((move 0b11100 toInt1 "fmv.x.d").format 0b01).only .rv64 ] ++
  bothFormats ("fclass." ++ ·) classify ++
  [ (move 0b11110 fromInt "fmv.w.x").format 0b00,
    ((move 0b11110 fromInt "fmv.d.x").format 0b01).only .rv64 ]

/-- All rows. -/
def table : List Computation :=
  loads ++ stores ++ floatMemory ++ immediates ++ registers ++ wordRegisters ++ atomics ++ csrs ++
    fused ++ floats

/-- Whether the row is the meaning of a word on a base set. -/
def Applies (c : Computation) (base : BaseSet) (w : BitVec 32) : Prop :=
  c.pattern.Matches w ∧ (c.only? = none ∨ c.only? = some base)

instance (c : Computation) (base : BaseSet) (w : BitVec 32) : Decidable (c.Applies base w) :=
  inferInstanceAs (Decidable (_ ∧ _))

/-- The computation that a word encodes. -/
def ofWord? (base : BaseSet) (w : BitVec 32) : Option Operation :=
  (table.find? (·.Applies base w)).map fun c => .compute c.mnemonic (c.operands w)

end Computation

end Retrace.Isa
