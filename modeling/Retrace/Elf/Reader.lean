/-!
# Readers of ELF files

What is asked of a reader of ELF files when an image is loaded. Loading is the same for every
reader.
-/

namespace Retrace.Elf

/-- A section header. -/
structure SectionHeader where
  /-- The place of the name in the table of section names. -/
  name : Nat
  type : Nat
  flags : Nat
  address : Nat
  offset : Nat
  size : Nat
  link : Nat
  info : Nat
  alignment : Nat
  entrySize : Nat
  deriving DecidableEq, Repr

namespace SectionHeader

/-- The type of a section with contents of the program. -/
def typeProgram : Nat := 1

/-- The type of the symbol table. -/
def typeSymbols : Nat := 2

/-- The type of a section without contents in the file. -/
def typeNoBits : Nat := 8

/-- Whether the section is loaded into memory. -/
def isAllocated (h : SectionHeader) : Bool := h.flags.testBit 1

/-- Whether the section holds instructions. -/
def isExecutable (h : SectionHeader) : Bool := h.flags.testBit 2

/-- Whether the contents are compressed. -/
def isCompressed (h : SectionHeader) : Bool := h.flags.testBit 11

end SectionHeader

/-- A symbol. -/
structure SymbolEntry where
  /-- The place of the name in the table of symbol names. -/
  name : Nat
  value : Nat
  size : Nat
  kind : Nat
  isUndefined : Bool
  deriving DecidableEq, Repr

/-- The names at places of a string table. There is none where the table has no text that ends. -/
abbrev Names := Nat → Option String

/-- A reader of ELF files. Every question has no answer where the file is malformed. -/
structure Reader where
  File : Type
  /-- The file that bytes hold. -/
  open? : List UInt8 → Option File
  /-- The machine that the file is for. -/
  machine : File → Nat
  /-- Whether the lowest byte of a number comes first. -/
  isLittle : File → Bool
  /-- Whether the words have 64 bits. -/
  is64 : File → Bool
  /-- The section headers and their names, as far as the file has them. -/
  sections? : File → Option (Option (List SectionHeader) × Option Names)
  /-- The symbols and their names, if the file has a symbol table. -/
  symbols? : File → Option (Option (List SymbolEntry × Names))
  /-- The header of the section of a name, if there is one. -/
  sectionNamed? : File → String → Option (Option SectionHeader)
  /-- The contents of a section, and whether they are compressed. -/
  contents? : File → SectionHeader → Option (List UInt8 × Bool)

end Retrace.Elf
