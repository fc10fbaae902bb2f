import Retrace.Elf.Reader
import Retrace.Proofs.Bytes.Reads
import Retrace.Proofs.Text.Utf8

/-!
# The layout of ELF files

Where a file of 32-bit words in little byte order has its tables, and what a reader tells of it.
This is all that is relied on of readers.
-/

namespace Retrace.Elf

open Bytes Text

/-- The start of a file of 32-bit words in little byte order. -/
def identification : List UInt8 :=
  [0x7f, 0x45, 0x4c, 0x46, 1, 1, 1, 0, 0, 0, 0, 0, 0, 0, 0, 0]

def headerSize : Nat := 52

/-- The numbers of a section header, in the order in which they are stored. -/
def SectionHeader.fields (h : SectionHeader) : List Nat :=
  [h.name, h.type, h.flags, h.address, h.offset, h.size, h.link, h.info, h.alignment, h.entrySize]

def SectionHeader.bytes (h : SectionHeader) : List UInt8 :=
  h.fields.flatMap (littleEndian 4)

/-- The bytes are the contents of the section. -/
structure SectionHeader.Holds (h : SectionHeader) (data bytes : List UInt8) : Prop where
  contents : At data h.offset bytes
  size : bytes.length = h.size

/-- A symbol as it is stored. -/
structure StoredSymbol where
  name : Nat
  value : Nat
  size : Nat
  /-- The binding, and the kind in the lower half. -/
  info : UInt8
  visibility : UInt8
  sectionIndex : Nat
  deriving DecidableEq, Repr

namespace StoredSymbol

def bytes (s : StoredSymbol) : List UInt8 :=
  littleEndian 4 s.name ++ littleEndian 4 s.value ++ littleEndian 4 s.size ++
    [s.info, s.visibility] ++ littleEndian 2 s.sectionIndex

structure Fits (s : StoredSymbol) : Prop where
  name : s.name < 2 ^ 32
  value : s.value < 2 ^ 32
  size : s.size < 2 ^ 32
  sectionIndex : s.sectionIndex < 2 ^ 16

/-- What a reader gives for the symbol. Section zero stands for none. -/
def entry (s : StoredSymbol) : SymbolEntry :=
  ⟨s.name, s.value, s.size, s.info.toNat % 16, s.sectionIndex = 0⟩

end StoredSymbol

/-- The name stands at a place of a string table, with a zero behind it. -/
structure NameAt (table : List UInt8) (place : Nat) (name : String) : Prop where
  plain : '\x00' ∉ name.toList
  bytes : At table place (Utf8.encode name ++ [0])

/-- The names are those that stand in the string table. -/
def Names.Of (names : Names) (table : List UInt8) : Prop :=
  ∀ place name, NameAt table place name → names place = some name

/-- What stands in a file without program headers. -/
structure Layout where
  type : Nat
  machine : Nat
  entry : Nat
  flags : Nat
  /-- The place of the section headers. -/
  tableOffset : Nat
  sections : List SectionHeader
  /-- The index of the section with the names of all sections. -/
  namesIndex : Nat
  /-- The contents of that section. -/
  names : List UInt8

namespace Layout

def header (l : Layout) : List UInt8 :=
  identification ++ littleEndian 2 l.type ++ littleEndian 2 l.machine ++ littleEndian 4 1 ++
    littleEndian 4 l.entry ++ littleEndian 4 0 ++ littleEndian 4 l.tableOffset ++
    littleEndian 4 l.flags ++ littleEndian 2 headerSize ++ littleEndian 2 32 ++ littleEndian 2 0 ++
    littleEndian 2 40 ++ littleEndian 2 l.sections.length ++ littleEndian 2 l.namesIndex

/-- The numbers fit into their fields. Where the number of sections or the index of their names is
zero, and where the index is the greatest one, these are told otherwise. -/
structure Fits (l : Layout) : Prop where
  type : l.type < 2 ^ 16
  machine : l.machine < 2 ^ 16
  entry : l.entry < 2 ^ 32
  flags : l.flags < 2 ^ 32
  tableOffset : 0 < l.tableOffset ∧ l.tableOffset < 2 ^ 32
  count : 0 < l.sections.length ∧ l.sections.length < 2 ^ 16
  namesIndex : 0 < l.namesIndex ∧ l.namesIndex < 2 ^ 16 - 1
  sections : ∀ h ∈ l.sections, ∀ n ∈ h.fields, n < 2 ^ 32

/-- The file has the layout: its header, its section headers and their names stand where they
should. -/
structure Describes (l : Layout) (data : List UInt8) : Prop where
  fits : l.Fits
  header : At data 0 l.header
  table : At data l.tableOffset (l.sections.flatMap SectionHeader.bytes)
  names : ∃ h, l.sections[l.namesIndex]? = some h ∧ h.Holds data l.names

end Layout

/-- What the reader tells of a file is what stands in it. -/
structure Reader.Tells (r : Reader) (l : Layout) (data : List UInt8) (file : r.File) : Prop where
  machine : r.machine file = l.machine
  little : r.isLittle file = true
  words32 : r.is64 file = false
  sections : ∃ names, r.sections? file = some (some l.sections, some names) ∧ names.Of l.names
  /-- The first section of a name is found. -/
  named : ∀ sections : List (SectionHeader × String), sections.map Prod.fst = l.sections →
    (∀ s ∈ sections, NameAt l.names s.1.name s.2) → ∀ name,
    r.sectionNamed? file name = some ((sections.find? (·.2 = name)).map Prod.fst)
  contents : ∀ h bytes, h.type ≠ SectionHeader.typeNoBits → h.isCompressed = false →
    h.Holds data bytes → r.contents? file h = some (bytes, false)
  noSymbols : l.sections.find? (·.type = SectionHeader.typeSymbols) = none →
    r.symbols? file = some none
  /-- The symbols are those of the first symbol table, and their names those of the string table
  that it is linked to. -/
  symbols : ∀ (table strings : SectionHeader) (symbols : List StoredSymbol) (text : List UInt8),
    l.sections.find? (·.type = SectionHeader.typeSymbols) = some table → table.entrySize = 16 →
    (∀ s ∈ symbols, s.Fits) → table.Holds data (symbols.flatMap StoredSymbol.bytes) →
    l.sections[table.link]? = some strings → strings.Holds data text →
    ∃ names, r.symbols? file = some (some (symbols.map StoredSymbol.entry, names)) ∧ names.Of text

/-- The reader opens files of which it is known what stands in them, and tells that. -/
def Reader.ReadsTables (r : Reader) : Prop :=
  ∀ l data, l.Describes data → ∃ file, r.open? data = some file ∧ r.Tells l data file

end Retrace.Elf
