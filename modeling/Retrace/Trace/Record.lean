import Retrace.Isa.Flow
import Retrace.Trace.Site

/-!
# Records

The instructions that were executed, as they are reconstructed. A visit is one of them on some
core, a record tells also which core, and the time of the message that led to it.
-/

namespace Retrace

open Isa

/-- An executed instruction. -/
structure Visit where
  address : UInt64
  instruction : Instruction
  /-- The source, if it is known. -/
  source? : Option Source
  /-- The closest symbol at or before the address. -/
  label? : Option Label
  /-- The role of the instruction in control flow. -/
  flow : Flow
  deriving DecidableEq, Repr

namespace Visit

/-- A visit of an address with what is found there. -/
def ofSite (address : UInt64) (site : Site) : Visit :=
  ⟨address, site.instruction, site.correlation.source?, site.correlation.label?,
    .of site.instruction.operation⟩

/-- What is known about the address. -/
def correlation (v : Visit) : Correlation :=
  ⟨v.address, v.source?, v.label?⟩

end Visit

/-- An instruction that a core executed. -/
structure Record extends Visit where
  core : UInt16
  /-- The timestamp of the message that led to the record. -/
  timestamp : UInt64
  deriving DecidableEq, Repr

end Retrace
