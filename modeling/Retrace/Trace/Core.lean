import Retrace.Isa.Flow
import Retrace.Isa.Instruction
import Retrace.Trace.ReturnStack

/-!
# Cores

What reconstruction knows about one core. A core whose place in the code is known is parked at an
instruction that it has executed and that only a message leads on from: a conditional branch, a
jump whose target the code does not tell, or a jump to itself.
-/

namespace Retrace

open Isa

/-- The instruction that a core is parked at. -/
structure Stop where
  address : UInt64
  instruction : Instruction
  deriving DecidableEq, Repr

namespace Stop

/-- The address after the instruction. -/
def after (s : Stop) : UInt64 :=
  s.address + s.instruction.size.toUInt64

/-- An address at a distance from the instruction. -/
def relative (s : Stop) (offset : Int) : UInt64 :=
  s.address + UInt64.ofInt offset

/-- Whether a message has to tell where execution continues; it need not at a jump to itself. -/
def needsEvidence (s : Stop) : Bool :=
  s.instruction.operation.needsEvidence

/-- Where execution continues if no message is about the instruction: a branch is not taken, a
jump to itself is repeated. -/
def silent? (s : Stop) : Option UInt64 :=
  if s.instruction.operation.isBranch then some s.after
  else if s.needsEvidence then none
  else some s.address

/-- Where execution continues after a conditional branch. -/
def outcome? (s : Stop) (taken : Bool) : Option UInt64 :=
  s.instruction.operation.branchOffset?.map fun offset =>
    if taken then s.relative offset else s.after

/-- Where execution continues after a jump to a target that a message tells. -/
def jump? (s : Stop) (target : UInt64) : Option UInt64 :=
  if s.instruction.operation.isUninferable then some target else none

end Stop

/-- What is known about the place of a core in the code. -/
inductive Phase where
  /-- Nothing, from the start or since messages were lost. -/
  | unsynced
  /-- Nothing, since the trace and the image did not agree. -/
  | faulted
  /-- The instruction that the core is parked at. -/
  | parked (stop : Stop)
  deriving DecidableEq, Repr

def Phase.text : Phase → String
  | unsynced => "unsynced"
  | faulted => "faulted"
  | parked stop => if stop.needsEvidence then "branching" else "synced"

/-- What is known about a core. -/
structure Core where
  phase : Phase
  /-- The number of half-words that were executed since the last counted message. -/
  retired : Nat
  stack : ReturnStack
  deriving Repr

namespace Core

/-- A core at the start, with the depth of its return stack. -/
def start (depth : Nat) : Core :=
  ⟨.unsynced, 0, .empty depth⟩

/-- The core after a disagreement: the trace has to tell its place anew. -/
def fault (c : Core) : Core :=
  ⟨.faulted, 0, c.stack.clear⟩

end Core

end Retrace
