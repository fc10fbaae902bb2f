import Retrace.Dwarf.LineProgram
import Retrace.Dwarf.Ranges
import Retrace.Elf.File
import Retrace.Elf.Program
import Retrace.Image.Basic

/-!
# Loading images

An image from an ELF file: its loaded sections, its symbols, and the ranges of its line
programs. Only RISC-V programs of little byte order are images, and they must tell something
about their addresses.
-/

namespace Retrace

/-- Why an image could not be loaded. -/
inductive ImageError where
  /-- The file could not be read. -/
  | unreadable
  /-- The file has not the structure of an ELF file. -/
  | badFile
  /-- The line programs are malformed. -/
  | badLines
  /-- The program is for another machine. -/
  | machine (number : Nat)
  /-- The byte order is the other one. -/
  | bigEndian
  /-- There are neither symbols nor line ranges. -/
  | noDebugInfo
  deriving DecidableEq, Repr

def ImageError.message : ImageError → String
  | unreadable => "could not read image"
  | badFile => "could not parse ELF file"
  | badLines => "could not parse line information"
  | machine number => "unsupported machine " ++ Text.hex number
  | bigEndian => "image is not little endian"
  | noDebugInfo => "image contains neither symbols nor line information"

namespace Image

/-- What an ELF file holds: loaded sections, symbols, and the sections of line information. -/
structure FileParts where
  sections : List Section
  symbols : List Symbol
  strings : Dwarf.Strings
  lineData : List UInt8

/-- The parts of an ELF file, if it has their structure. -/
def partsOfFile? (elf : Elf.Reader) (file : elf.File) : Option FileParts := do
  let sections ← elf.loadedSections? file
  let symbols ← elf.visibleSymbols? file
  let strings ← elf.debugData? file ".debug_str"
  let lineStrings ← elf.debugData? file ".debug_line_str"
  let lineData ← elf.debugData? file ".debug_line"
  return ⟨sections, symbols, ⟨strings, lineStrings⟩, lineData⟩

/-- The image of the bytes of an ELF file, with readers of such files and of line information. -/
def parse (elf : Elf.Reader) (dwarf : Dwarf.Reader) (data : List UInt8) : Except ImageError Image :=
  match elf.open? data with
  | none => .error .badFile
  | some file =>
    if elf.machine file ≠ Elf.machineRiscv then .error (.machine (elf.machine file))
    else if !elf.isLittle file then .error .bigEndian
    else
      let base := if elf.is64 file then .rv64 else .rv32
      match partsOfFile? elf file with
      | none => .error .badFile
      | some parts =>
        match dwarf.ranges? parts.strings (base.addressBits / 8) parts.lineData with
        | none => .error .badLines
        | some lines =>
          let image := ofParts base parts.sections parts.symbols lines
          if image.symbols.isEmpty && image.lines.isEmpty then .error .noDebugInfo else .ok image

/-- The image of the bytes of an ELF file. -/
def ofElf (data : List UInt8) : Except ImageError Image :=
  parse Elf.reader Dwarf.reader data

/-- The image of the contents of a file, if it could be read. -/
def ofFile (contents? : Option (List UInt8)) : Except ImageError Image :=
  match contents? with
  | none => .error .unreadable
  | some data => ofElf data

end Image

end Retrace
