import Retrace.Isa.Instruction
import Retrace.Message.Basic

/-!
# Disagreements

Why reconstruction cannot go on at an address: there is no instruction, or the trace says what
the instruction there does not allow.
-/

namespace Retrace

/-- How the trace contradicts the instructions. -/
inductive TraceConflict where
  /-- A message does not tell what the instruction that waits for one needs. -/
  | unexpectedEvidence (evidence : MessageKind) (pending : String)
  /-- The count of a message does not end with an instruction that the message may be about. -/
  | countMismatch (count retired : Nat)
  /-- There are too many instructions before one that needs a message. -/
  | runLimit (limit : Nat)
  deriving DecidableEq, Repr

def TraceConflict.message : TraceConflict → String
  | unexpectedEvidence evidence pending =>
    evidence.text ++ " message does not resolve pending " ++ pending
  | countMismatch count retired =>
    "instruction count " ++ toString count ++ " does not match " ++ toString retired ++
      " retired half-words"
  | runLimit limit => "no branch within " ++ toString limit ++ " instructions"

/-- Why reconstruction cannot go on. -/
inductive Obstacle where
  /-- The address is in no section that holds instructions. -/
  | notExecutable
  /-- The bytes at the address are no instruction. -/
  | instruction (error : Isa.DecodeError)
  /-- The trace contradicts the instructions. -/
  | conflict (conflict : TraceConflict)
  deriving DecidableEq, Repr

def Obstacle.message : Obstacle → String
  | notExecutable => "address is not in an executable section"
  | instruction e => e.message
  | conflict c => c.message

/-- An address and why reconstruction cannot go on there. -/
structure Disagreement where
  address : UInt64
  obstacle : Obstacle
  deriving DecidableEq, Repr

end Retrace
