import Retrace.Bytes.Parser
import Retrace.Elf.Reader
import Retrace.Text.Utf8

/-!
# ELF files

The structure of an ELF file as far as images need it: the header, the section headers, the
contents of sections, symbols, and names in string tables. Numbers are of either byte order and of
the two word sizes. What lies outside of the file cannot be read.
-/

namespace Retrace.Elf

open Bytes

/-- The word size and byte order of a file. -/
structure Format where
  is64 : Bool
  order : Order
  deriving DecidableEq, Repr

namespace Format

/-- A number of `size` bytes. -/
def number (f : Format) (size : Nat) : Parser Nat := do
  return Bytes.number f.order (← Parser.take size)

/-- A number of two bytes. -/
def half (f : Format) : Parser Nat := f.number 2

/-- A number of four bytes. -/
def word (f : Format) : Parser Nat := f.number 4

/-- A number of the word size of the file. -/
def address (f : Format) : Parser Nat := f.number (if f.is64 then 8 else 4)

/-- The size of a section header in bytes. -/
def sectionHeaderSize (f : Format) : Nat := if f.is64 then 64 else 40

/-- The size of a program header in bytes. -/
def programHeaderSize (f : Format) : Nat := if f.is64 then 56 else 32

/-- The size of a symbol in bytes. -/
def symbolSize (f : Format) : Nat := if f.is64 then 24 else 16

/-- The size of the header of compressed contents in bytes. -/
def compressionHeaderSize (f : Format) : Nat := if f.is64 then 24 else 12

end Format

/-- The parts of the file header that are used. -/
structure Header where
  format : Format
  machine : Nat
  programOffset : Nat
  sectionOffset : Nat
  programEntrySize : Nat
  programCount : Nat
  sectionEntrySize : Nat
  sectionCount : Nat
  namesIndex : Nat
  deriving Repr

/-- Word size and byte order from the first 16 bytes of a file. -/
def format : Parser Format := do
  let magic ← Parser.take 4
  Parser.require (magic = [0x7f, 0x45, 0x4c, 0x46])
  let size ← Parser.byte
  Parser.require (size = 1 ∨ size = 2)
  let order ← Parser.byte
  Parser.require (order = 1 ∨ order = 2)
  let version ← Parser.byte
  Parser.require (version = 1)
  let _ ← Parser.take 9
  return ⟨size = 2, if order = 1 then .little else .big⟩

/-- The file header. -/
def header : Parser Header := do
  let f ← format
  let _type ← f.half
  let machine ← f.half
  let _version ← f.word
  let _entry ← f.address
  let programOffset ← f.address
  let sectionOffset ← f.address
  let _flags ← f.word
  let _size ← f.half
  let programEntrySize ← f.half
  let programCount ← f.half
  let sectionEntrySize ← f.half
  let sectionCount ← f.half
  let namesIndex ← f.half
  return ⟨f, machine, programOffset, sectionOffset, programEntrySize, programCount,
    sectionEntrySize, sectionCount, namesIndex⟩

/-- A section header. -/
def sectionHeader (f : Format) : Parser SectionHeader := do
  let name ← f.word
  let type ← f.word
  let flags ← f.address
  let address ← f.address
  let offset ← f.address
  let size ← f.address
  let link ← f.word
  let info ← f.word
  let alignment ← f.address
  let entrySize ← f.address
  return ⟨name, type, flags, address, offset, size, link, info, alignment, entrySize⟩

/-- A symbol of which its type and binding, and the index of its section are stored. -/
def SymbolEntry.stored (name value size info sectionIndex : Nat) : SymbolEntry :=
  ⟨name, value, size, info % 16, sectionIndex = 0⟩

/-- A symbol. The two word sizes order the fields differently. -/
def symbolEntry (f : Format) : Parser SymbolEntry := do
  let name ← f.word
  if f.is64 then
    let info ← f.number 1
    let _other ← f.number 1
    let sectionIndex ← f.half
    let value ← f.address
    let size ← f.address
    return .stored name value size info sectionIndex
  else
    let value ← f.address
    let size ← f.address
    let info ← f.number 1
    let _other ← f.number 1
    let sectionIndex ← f.half
    return .stored name value size info sectionIndex

/-- The bytes of a file from `offset` on, `size` many. -/
def slice? (data : List UInt8) (offset size : Nat) : Option (List UInt8) :=
  if offset + size ≤ data.length then some ((data.drop offset).take size) else none

/-- The name that starts at a place in a string table. -/
def name? (table : List UInt8) (offset : Nat) : Option String :=
  if offset ≤ table.length then
    (Parser.untilZero.run? (table.drop offset)).bind Text.Utf8.decode?
  else none

/-- A file and its section headers; there may be none at all. -/
structure File where
  data : List UInt8
  header : Header
  sections? : Option (List SectionHeader)

namespace File

/-- The first section header. It holds counts and indices that are too great for the file
header. -/
def firstSection? (data : List UInt8) (h : Header) : Option SectionHeader :=
  (slice? data h.sectionOffset h.format.sectionHeaderSize).bind (sectionHeader h.format).run?

/-- The section headers, if the file has a table of them. -/
def readSections? (data : List UInt8) (h : Header) : Option (Option (List SectionHeader)) :=
  if h.sectionOffset = 0 then some none
  else do
    let count ← if h.sectionCount = 0 then (firstSection? data h).map (·.size)
      else some h.sectionCount
    if h.sectionEntrySize ≠ h.format.sectionHeaderSize then none
    else
      let table ← slice? data h.sectionOffset (h.sectionEntrySize * count)
      let sections ← ((sectionHeader h.format).times count).run? table
      return some sections

/-- Whether the table of program headers, if there is one, lies in the file. -/
def hasProgramHeaders (data : List UInt8) (h : Header) : Bool :=
  h.programOffset = 0 || Option.isSome do
    let count ← if h.programCount = 0xffff then (firstSection? data h).map (·.info)
      else some h.programCount
    if h.programEntrySize ≠ h.format.programHeaderSize then none
    else slice? data h.programOffset (h.programEntrySize * count)

/-- The file that bytes hold. -/
def ofBytes? (data : List UInt8) : Option File := do
  let h ← Parser.run? Elf.header data
  let sections? ← readSections? data h
  if hasProgramHeaders data h then some ⟨data, h, sections?⟩ else none

/-- The contents of a section in the file. -/
def stored? (file : File) (s : SectionHeader) : Option (List UInt8) :=
  slice? file.data s.offset s.size

/-- The contents of a section and whether they are compressed. Compressed contents come behind a
header. -/
def contents? (file : File) (s : SectionHeader) : Option (List UInt8 × Bool) :=
  if s.type = SectionHeader.typeNoBits then some ([], false)
  else do
    let data ← file.stored? s
    if s.isCompressed then
      let size := file.header.format.compressionHeaderSize
      if data.length < size then none else some (data.drop size, true)
    else some (data, false)

/-- The section headers and the names in their string table, as far as the file has them. -/
def namedSections? (file : File) : Option (Option (List SectionHeader) × Option Names) :=
  match file.sections? with
  | none => some (none, none)
  | some sections =>
    if file.header.namesIndex = 0 then some (some sections, none)
    else do
      let index ← if file.header.namesIndex = 0xffff then sections.head?.map (·.link)
        else some file.header.namesIndex
      let header ← sections[index]?
      let table ← file.stored? header
      return (some sections, some (name? table))

/-- The first section of a name. -/
def sectionNamed? (file : File) (name : String) : Option (Option SectionHeader) := do
  match ← file.namedSections? with
  | (some sections, some names) => return sections.find? fun s => names s.name = some name
  | _ => return none

/-- The symbols and their names, if there is a symbol table. -/
def symbols? (file : File) : Option (Option (List SymbolEntry × Names)) :=
  match file.sections? with
  | none => some none
  | some sections =>
    match sections.find? (·.type = SectionHeader.typeSymbols) with
    | none => some none
    | some table => do
      let format := file.header.format
      if table.entrySize ≠ format.symbolSize then none
      else
        let data ← file.stored? table
        let strings ← sections[table.link]?.bind file.stored?
        let entries ← ((symbolEntry format).times (data.length / format.symbolSize)).run? data
        return some (entries, name? strings)

end File

/-- The reader of these files. -/
def reader : Reader where
  File := File
  open? := File.ofBytes?
  machine file := file.header.machine
  isLittle file := file.header.format.order = .little
  is64 file := file.header.format.is64
  sections? := File.namedSections?
  symbols? := File.symbols?
  sectionNamed? := File.sectionNamed?
  contents? := File.contents?

end Retrace.Elf
