import Retrace.Dwarf.Leb128
import Retrace.Dwarf.Reader

/-!
# Headers of line programs

The line information of a program is a sequence of units. A unit starts with a header, which
lists directories and files and gives the parameters of the line program behind it. Versions 2
to 5 are read, with offsets of four or eight bytes.
-/

namespace Retrace.Dwarf

open Bytes

/-- A file and the index of its directory. -/
structure FileEntry where
  path : Attribute
  directory : Nat
  deriving DecidableEq, Repr

/-- The header of a line program. -/
structure LineHeader where
  version : Nat
  /-- The size of an address in bytes. -/
  addressSize : Nat
  minimumInstructionLength : Nat
  maximumOperations : Nat
  lineBase : Int
  lineRange : Nat
  opcodeBase : Nat
  /-- The number of arguments of each standard opcode. -/
  opcodeLengths : List UInt8
  directories : List Attribute
  files : List FileEntry
  deriving Repr

/-- A line program and its header. -/
structure LineUnit where
  /-- The number of bytes behind the length. -/
  length : Nat
  /-- The size of offsets in bytes. -/
  offsetSize : Nat
  header : LineHeader
  program : List UInt8
  deriving Repr

/-- Whether addresses may have that size. -/
def isAddressSize (size : Nat) : Bool :=
  [1, 2, 4, 8].contains size

/-- The length of a unit and the size of its offsets. -/
def initialLength : Parser (Nat × Nat) := do
  let length ← Parser.number 4
  if length < 0xfffffff0 then return (length, 4)
  else
    Parser.require (length = 0xffffffff)
    return (← Parser.number 8, 8)

/-- A value that cannot name a file or directory. -/
def skipped {α : Type} (p : Parser α) : Parser Attribute := do
  let _ ← p
  return .other

/-- A block of bytes whose length `size` reads. -/
def block (size : Parser Nat) : Parser (List UInt8) := do
  Parser.take (← size)

/-- The value of an attribute in a given form. -/
def attributeValue (offsetSize form : Nat) : Parser Attribute := do
  match form with
  | 0x03 => skipped (block (Parser.number 2))
  | 0x04 => skipped (block (Parser.number 4))
  | 0x05 => return .number (← Parser.number 2)
  | 0x06 => return .number (← Parser.number 4)
  | 0x07 => return .number (← Parser.number 8)
  | 0x08 => return .text (← Parser.untilZero)
  | 0x09 => skipped (block Leb128.unsigned)
  | 0x0a => skipped (block (Parser.number 1))
  | 0x0b => return .number (← Parser.number 1)
  | 0x0c => skipped (Parser.number 1)
  | 0x0d =>
    let n ← Leb128.signed
    return if n < 0 then .other else .number n.toNat
  | 0x0e => return .stringAt (← Parser.number offsetSize)
  | 0x0f => return .number (← Leb128.unsigned)
  | 0x17 | 0x1d | 0x1f21 => skipped (Parser.number offsetSize)
  | 0x1a | 0x1f02 => skipped Leb128.unsigned
  | 0x1e => skipped (Parser.take 16)
  | 0x1f => return .lineStringAt (← Parser.number offsetSize)
  | 0x25 => skipped (Parser.number 1)
  | 0x26 => skipped (Parser.number 2)
  | 0x27 => skipped (Parser.number 3)
  | 0x28 => skipped (Parser.number 4)
  | _ => Parser.fail

/-- What an attribute of an entry is about, and its form. -/
structure EntryFormat where
  content : Nat
  form : Nat
  deriving Repr

/-- The content of a path. -/
def contentPath : Nat := 1

/-- The content of the index of a directory. -/
def contentDirectory : Nat := 2

/-- The format of one attribute. -/
def entryFormat : Parser EntryFormat := do
  let content ← Leb128.unsigned
  let form ← Leb128.unsigned16
  return ⟨content, form⟩

/-- The formats of the attributes of entries; exactly one of them is a path. -/
def entryFormats : Parser (List EntryFormat) := do
  let count ← Parser.number 1
  let formats ← entryFormat.times count
  Parser.require ((formats.filter (·.content = contentPath)).length = 1)
  return formats

/-- An entry with one more attribute. -/
def FileEntry.set (e : FileEntry) (content : Nat) (value : Attribute) : FileEntry :=
  if content = contentPath then { e with path := value }
  else
    match value with
    | .number n => if content = contentDirectory then { e with directory := n } else e
    | _ => e

/-- An entry whose attributes are in the given formats. -/
def entry (offsetSize : Nat) : List EntryFormat → FileEntry → Parser FileEntry
  | [], e => return e
  | f :: rest, e => do
    let value ← attributeValue offsetSize f.form
    entry offsetSize rest (e.set f.content value)

/-- A list of entries that starts with their formats and their number. -/
def entries (offsetSize : Nat) : Parser (List FileEntry) := do
  let formats ← entryFormats
  let count ← Leb128.unsigned
  (entry offsetSize formats ⟨.other, 0⟩).times count

/-- The directory, time and size of a file, the path of which is known. -/
def fileEntry (path : List UInt8) : Parser FileEntry := do
  let directory ← Leb128.unsigned
  let _time ← Leb128.unsigned
  let _size ← Leb128.unsigned
  return ⟨.text path, directory⟩

theorem fileEntry_shrinks (path : List UInt8) : (fileEntry path).Shrinks :=
  .bind Leb128.unsigned_shrinks fun _ => .bind Leb128.unsigned_shrinks fun _ =>
    .bind Leb128.unsigned_shrinks fun _ => .pure _

/-- The directories and files of a header. Up to version 4 they are strings that end with an
empty one. -/
def tables (version offsetSize : Nat) : Parser (List Attribute × List FileEntry) := do
  if version ≤ 4 then
    let directories ← Parser.untilEmpty (fun path => pure (Attribute.text path)) fun _ => .pure _
    let files ← Parser.untilEmpty fileEntry fileEntry_shrinks
    return (directories, files)
  else
    let directories ← entries offsetSize
    let files ← entries offsetSize
    return (directories.map (·.path), files)

/-- The part of a header that the length of the header covers. -/
def parameters (version addressSize offsetSize : Nat) : Parser LineHeader := do
  let minimumInstructionLength ← Parser.number 1
  Parser.require (minimumInstructionLength ≠ 0)
  let maximumOperations ← if version ≥ 4 then Parser.number 1 else pure 1
  Parser.require (maximumOperations ≠ 0)
  let _isStatement ← Parser.byte
  let lineBase ← Parser.byte
  let lineRange ← Parser.number 1
  Parser.require (lineRange ≠ 0)
  let opcodeBase ← Parser.number 1
  Parser.require (opcodeBase ≠ 0)
  let opcodeLengths ← Parser.take (opcodeBase - 1)
  let (directories, files) ← tables version offsetSize
  return ⟨version, addressSize, minimumInstructionLength, maximumOperations,
    lineBase.toInt8.toInt, lineRange, opcodeBase, opcodeLengths, directories, files⟩

/-- The contents of a unit. Before version 5, addresses have the size that the image has. -/
def unitBody (addressSize length offsetSize : Nat) : Parser LineUnit := do
  let version ← Parser.number 2
  Parser.require (2 ≤ version ∧ version ≤ 5)
  let addressSize ← if version ≥ 5 then do
      let size ← Parser.number 1
      Parser.require (isAddressSize size)
      let segmentSize ← Parser.number 1
      Parser.require (segmentSize = 0)
      pure size
    else pure addressSize
  let headerLength ← Parser.number offsetSize
  let header ← (parameters version addressSize offsetSize).within (← Parser.take headerLength)
  let program ← get
  return ⟨length, offsetSize, header, program⟩

/-- A unit. -/
def unit (addressSize : Nat) : Parser LineUnit := do
  let (length, offsetSize) ← initialLength
  (unitBody addressSize length offsetSize).within (← Parser.take length)

end Retrace.Dwarf
