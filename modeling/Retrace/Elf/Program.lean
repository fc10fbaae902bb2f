import Retrace.Elf.Reader
import Retrace.Image.Section
import Retrace.Image.Symbol

/-!
# Programs in ELF files

The sections of an ELF file that are loaded into memory, its symbols, and the contents of sections
for debugging.
-/

namespace Retrace.Elf

/-- The machine number of RISC-V. -/
def machineRiscv : Nat := 243

/-- The kind of a function. -/
def SymbolEntry.kindFunction : Nat := 2

/-- Whether the symbol is defined and has no kind, or that of an object or function. -/
def SymbolEntry.isRelevant (s : SymbolEntry) : Bool :=
  !s.isUndefined && s.kind ≤ kindFunction

/-- Whether a name is of use to a reader: local labels and mapping symbols are not. -/
def isVisibleName (name : String) : Bool :=
  match name.toList with
  | [] => false
  | '$' :: _ => false
  | '.' :: 'L' :: _ => false
  | _ => true

namespace Reader

variable (r : Reader)

/-- The section that is loaded for a header. Compressed sections are passed over. -/
def load? (file : r.File) (names : Names) (h : SectionHeader) : Option (Option Section) := do
  let name ← names h.name
  let (data, isCompressed) ← r.contents? file h
  if isCompressed then return none
  else return some ⟨name, h.address.toUInt64, data, h.isExecutable⟩

/-- The sections that are loaded into memory and not empty. -/
def loadedSections? (file : r.File) : Option (List Section) := do
  match ← r.sections? file with
  | (some headers, some names) =>
    let relevant := headers.filter fun h =>
      h.isAllocated && h.type = SectionHeader.typeProgram && h.size ≠ 0
    let sections ← relevant.mapM (r.load? file names)
    return sections.filterMap id
  | _ => return []

/-- The symbols with a visible name. -/
def visibleSymbols? (file : r.File) : Option (List Symbol) := do
  match ← r.symbols? file with
  | none => return []
  | some (entries, names) =>
    let symbols ← (entries.filter (·.isRelevant)).mapM fun s => do
      let name ← names s.name
      return (⟨name, s.value.toUInt64, s.size.toUInt64, s.kind = SymbolEntry.kindFunction⟩ : Symbol)
    return symbols.filter (isVisibleName ·.name)

/-- The contents of a section for debugging, nothing if it is absent or compressed. -/
def debugData? (file : r.File) (name : String) : Option (List UInt8) := do
  match ← r.sectionNamed? file name with
  | none => return []
  | some h =>
    let (data, isCompressed) ← r.contents? file h
    return if isCompressed then [] else data

end Reader

end Retrace.Elf
