import Retrace.Disagreement
import Retrace.Image.LineRange
import Retrace.Image.Symbol

/-!
# Images

The program that was traced: its sections, symbols and line ranges. An image gives the
instruction at an address and what is known about the address.
-/

namespace Retrace

open Isa

/-- A place in a source file. -/
structure Source where
  file : String
  line : UInt32
  /-- The function that encloses the place, if there is one. -/
  function? : Option String
  deriving DecidableEq, Repr

/-- The function, the file and the line. -/
def Source.text (s : Source) : String :=
  (match s.function? with
    | some name => name ++ ":"
    | none => "") ++
  s.file ++ ":" ++ toString s.line.toNat

/-- What is known about an address. -/
structure Correlation where
  address : UInt64
  /-- The source, if a line range covers the address. -/
  source? : Option Source
  /-- The closest symbol at or before the address. -/
  label? : Option Label
  deriving DecidableEq, Repr

/-- A program in memory with its symbols and line ranges. -/
structure Image where
  base : BaseSet
  /-- The sections in the order of their addresses. -/
  sections : List Section
  symbols : SymbolTable
  lines : LineTable

namespace Image

/-- The image of sections, symbols and line ranges in any order. -/
def ofParts (base : BaseSet) (sections : List Section) (symbols : List Symbol)
    (lines : List LineRange) : Image :=
  ⟨base, sections.mergeSort (·.address ≤ ·.address), .ofList symbols, .ofList lines⟩

/-- The last section that an address lies in. -/
def sectionAt? (image : Image) (address : UInt64) : Option Section :=
  (Search.front (·.address ≤ address) image.sections).reverse.find? (·.contains address)

/-- What is known about an address. Line ranges count in sections only. -/
def lookup (image : Image) (address : UInt64) : Correlation :=
  let source? := do
    let _ ← image.sectionAt? address
    let range ← image.lines.find? address
    return ⟨range.file, range.line, image.symbols.function? address⟩
  ⟨address, source?, image.symbols.label? address⟩

/-- The instruction at an address. -/
def instructionAt (image : Image) (address : UInt64) : Except Obstacle Instruction :=
  let data? := do
    let s ← image.sectionAt? address
    if s.executable then s.dataFrom? address else none
  match data? with
  | none => .error .notExecutable
  | some data =>
    match Instruction.split? image.base data with
    | .error e => .error (.instruction e)
    | .ok (i, _) => .ok i

/-- The number of bits of the greatest address of a section, at least one. -/
def addressBits (image : Image) : Nat :=
  let highest := (image.sections.map (·.lastAddress.toNat)).foldl max 0
  highest.log2 + 1

end Image

end Retrace
