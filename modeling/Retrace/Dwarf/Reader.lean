/-!
# Readers of line information

What is asked of a reader of line information when an image is loaded: the line programs, the rows
that each emits, and the strings that rows refer to.
-/

namespace Retrace.Dwarf

/-- The value of an attribute, as far as it can name a file or directory. -/
inductive Attribute where
  | text (bytes : List UInt8)
  /-- An offset in the section of strings. -/
  | stringAt (offset : Nat)
  /-- An offset in the section of strings of line programs. -/
  | lineStringAt (offset : Nat)
  | number (n : Nat)
  | other
  deriving DecidableEq, Repr

/-- A source file. -/
structure SourceFile where
  path : Attribute
  directory? : Option Attribute
  deriving DecidableEq, Repr

/-- A row: the code from the address on is that of the line, up to the next row. -/
structure Row where
  address : UInt64
  /-- The index of the file. -/
  file : UInt64
  /-- The file that has the index when the row is emitted. -/
  source? : Option SourceFile
  /-- The line, zero if there is none. -/
  line : UInt64
  /-- Whether the row ends its sequence. -/
  isEnd : Bool
  deriving DecidableEq, Repr

/-- A reader of line information. No question has an answer where the information is malformed. -/
structure Reader where
  Program : Type
  /-- The line program of the unit at an offset of the information, for addresses of a size. -/
  program? : List UInt8 → Nat → Nat → Option Program
  /-- The number of bytes of the unit behind its length. -/
  unitLength : Program → Nat
  /-- Whether lengths and offsets have 64 bits. -/
  is64 : Program → Bool
  /-- The rows of the program, in order. -/
  rows? : Program → Option (List Row)
  /-- The string at an offset of a section of strings. -/
  string? : List UInt8 → Nat → Option (List UInt8)

end Retrace.Dwarf
