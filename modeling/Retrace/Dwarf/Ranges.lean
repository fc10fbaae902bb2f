import Retrace.Dwarf.Reader
import Retrace.Image.LineRange
import Retrace.Text.Utf8

/-!
# Line ranges of line programs

The rows of all line programs are turned into line ranges: a range goes from a row to the next one.
-/

namespace Retrace.Dwarf

open Text

/-- The sections that hold strings. -/
structure Strings where
  strings : List UInt8
  lineStrings : List UInt8
  deriving Repr

/-- A row that waits for the next one, which ends its range. -/
structure OpenRange where
  start : UInt64
  file : String
  line : UInt32
  deriving Repr

/-- The greatest line number. -/
def maxLine : Nat := UInt32.size - 1

/-- The size of the length of a unit in bytes. -/
def initialLengthSize (is64 : Bool) : Nat :=
  if is64 then 12 else 4

namespace Reader

variable (r : Reader)

/-- The text of an attribute. -/
def resolve? (s : Strings) : Attribute → Option String
  | .text bytes => some (Utf8.decodeLossy bytes)
  | .stringAt offset => (r.string? s.strings offset).map Utf8.decodeLossy
  | .lineStringAt offset => (r.string? s.lineStrings offset).map Utf8.decodeLossy
  | .number _ | .other => none

/-- The name of a file, with its directory unless the name is absolute. -/
def fileName (s : Strings) (source? : Option SourceFile) : String :=
  match source? with
  | none => "??"
  | some source =>
    let name := (r.resolve? s source.path).getD ""
    match source.directory?.bind (r.resolve? s) with
    | none => name
    | some directory =>
      if directory.isEmpty || name.startsWith "/" then name else directory ++ "/" ++ name

/-- The ranges between rows. A range goes from a row with a line to the next row. A file keeps
the name that it has in the first row about it. -/
def rangesOfRows (s : Strings) (names : List (UInt64 × String)) (opened : Option OpenRange) :
    List Row → List LineRange
  | [] => []
  | row :: rest =>
    let closed := match opened with
      | none => []
      | some o => if o.start < row.address then [⟨o.start, row.address, o.file, o.line⟩] else []
    closed ++
      if row.isEnd || row.line = 0 then rangesOfRows s names none rest
      else
        let name := (names.lookup row.file).getD (r.fileName s row.source?)
        let line := (min maxLine row.line.toNat).toUInt32
        rangesOfRows s ((row.file, name) :: names) (some ⟨row.address, name, line⟩) rest

/-- The line ranges of all units from an offset on, in the order of their rows; fails if any unit
does. -/
def rangesFrom? (s : Strings) (addressSize : Nat) (data : List UInt8) (offset : Nat) :
    Option (List LineRange) :=
  if offset < data.length then do
    let program ← r.program? data offset addressSize
    let rows ← r.rows? program
    let size := r.unitLength program + initialLengthSize (r.is64 program)
    let later ← rangesFrom? s addressSize data (offset + size)
    return r.rangesOfRows s [] none rows ++ later
  else some []
termination_by data.length - offset
decreasing_by
  simp only [initialLengthSize]
  split <;> omega

/-- The line ranges of all units. -/
def ranges? (s : Strings) (addressSize : Nat) (data : List UInt8) : Option (List LineRange) :=
  r.rangesFrom? s addressSize data 0

end Reader

end Retrace.Dwarf
