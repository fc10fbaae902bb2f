import Retrace.Isa.Operation

/-!
# Control flow

Where execution may continue after an operation, as far as the operation itself tells: the
offset of a branch, the target of a jump, or the register that a jump takes its target from.
Calls, returns and swaps are told apart by the link registers `x1` and `x5`.
-/

namespace Retrace.Isa

/-- The target of a jump that the encoding determines. -/
inductive JumpTarget where
  /-- The distance from the jump itself. -/
  | relative (offset : Int)
  /-- The address itself. -/
  | absolute (address : Int)
  deriving DecidableEq, Repr

namespace Operation

/-- The distance to the target of a conditional branch. -/
def branchOffset? : Operation → Option Int
  | branch _ d => some d.offset
  | cBranch _ d => some d.offset
  | _ => none

/-- The target of an unconditional jump, if it does not depend on a register. A jump through
`x0` goes to a fixed address. -/
def inferableTarget? : Operation → Option JumpTarget
  | jal d | cJ d | cJal d => some (.relative d.offset)
  | jalr d => if d.rs1 = 0#5 then some (.absolute d.value) else none
  | _ => none

/-- The register and offset that a jump takes its target from, unless the register is `x0`. -/
def uninferableTarget? : Operation → Option (Reg × Int)
  | jalr d => if d.rs1 = 0#5 then none else some (d.rs1, d.value)
  | cJr rs1 | cJalr rs1 => if rs1 = 0#5 then none else some (rs1, 0)
  | _ => none

/-- Whether the operation returns from a trap. -/
def isTrapReturn : Operation → Bool
  | mret | sret | uret | dret => true
  | _ => false

/-- Whether the operation calls the environment or the debugger. -/
def isEnvironmentCall : Operation → Bool
  | ecall | ebreak | cEbreak => true
  | _ => false

/-- Whether the operation swaps coroutines: it jumps through one link register and links to the
other. A 16-bit jump-and-link links to `x1`. -/
def isSwap : Operation → Bool
  | jalr d => d.rd.isLink && d.rs1.isLink && d.rd != d.rs1
  | cJalr rs1 => rs1 = 5#5
  | _ => false

/-- Whether the operation calls a function: it links, and is not a swap. -/
def isCall : Operation → Bool
  | jal d | cJal d => d.rd.isLink
  | jalr d => d.rd.isLink && !isSwap (jalr d)
  | cJalr rs1 => !isSwap (cJalr rs1)
  | _ => false

/-- Whether the operation returns from a function: it jumps through a link register and does
not link. -/
def isReturn : Operation → Bool
  | jalr d => d.rs1.isLink && !d.rd.isLink
  | cJr rs1 => rs1.isLink
  | _ => false

/-- Whether the operation is a conditional branch. -/
def isBranch (op : Operation) : Bool :=
  op.branchOffset?.isSome

/-- Whether the operation is a jump whose target it determines. -/
def isInferableJump (op : Operation) : Bool :=
  op.inferableTarget?.isSome

/-- Whether the operation is a jump whose target it does not determine. -/
def isUninferableJump (op : Operation) : Bool :=
  op.uninferableTarget?.isSome

/-- Whether execution goes to an address that the operation does not determine. -/
def isUninferable (op : Operation) : Bool :=
  op.isUninferableJump || op.isTrapReturn || op.isEnvironmentCall

/-- Whether only the trace tells where execution continues. -/
def needsEvidence (op : Operation) : Bool :=
  op.isBranch || op.isUninferable

end Operation

/-- The role of an instruction in control flow. -/
inductive Flow where
  /-- Execution continues with the next instruction. -/
  | sequential
  /-- A conditional branch. -/
  | branch
  /-- A jump that is neither a call nor a return. -/
  | jump
  | call
  | return
  | swap
  /-- A call of the environment or the debugger. -/
  | exception
  /-- A return from a trap. -/
  | exceptionReturn
  deriving DecidableEq, Repr

namespace Flow

/-- The role of an operation. -/
def of (op : Operation) : Flow :=
  if op.isEnvironmentCall then exception
  else if op.isTrapReturn then exceptionReturn
  else if op.isBranch then branch
  else if op.isSwap then swap
  else if op.isCall then call
  else if op.isReturn then .return
  else if op.isInferableJump || op.isUninferableJump then jump
  else sequential

def text : Flow → String
  | sequential => "sequential"
  | branch => "branch"
  | jump => "jump"
  | call => "call"
  | .return => "return"
  | swap => "swap"
  | exception => "exception"
  | exceptionReturn => "exception return"

end Flow

end Retrace.Isa
