import Std.Data.TreeMap
import Retrace.Print.Line

/-!
# Assembling printed lines

Fragments of printed output are joined to lines, for each stream on its own. A line ends with a
fragment that has a terminator; one that grows to a limit before is given as it is, incomplete.
-/

namespace Retrace

/-- The part of a line that has arrived. -/
structure OpenLine where
  /-- The bytes, at least one. -/
  data : List UInt8
  /-- The timestamp of the first fragment. -/
  start : UInt64
  /-- The timestamp of the last fragment. -/
  last : UInt64
  deriving DecidableEq, Repr

namespace OpenLine

/-- The line of its first fragment. Nothing starts a line if there are no bytes. -/
def ofFragment? (f : Fragment) : Option OpenLine :=
  if f.data.isEmpty then none else some ⟨f.data, f.timestamp, f.timestamp⟩

/-- The line with one more fragment. -/
def extend (l : OpenLine) (f : Fragment) : OpenLine :=
  ⟨l.data ++ f.data, l.start, f.timestamp⟩

/-- The line as it is. -/
def close (l : OpenLine) (stream : PrintStream) (complete : Bool) : PrintLine :=
  ⟨stream, l.data, l.start, l.last, complete⟩

end OpenLine

/-- The lines that have not ended. -/
structure Assembler where
  /-- The number of bytes that end a line without a terminator. -/
  limit : Nat
  lines : Std.TreeMap PrintStream OpenLine

namespace Assembler

/-- An assembler without lines. A line has at least one byte, so the limit is at least one. -/
def start (limit : Nat) : Assembler :=
  ⟨max limit 1, {}⟩

/-- Takes a fragment and gives the line that ends with it, if one does. -/
def feed (a : Assembler) (f : Fragment) : Option PrintLine × Assembler :=
  let line? := match a.lines[f.stream]? with
    | none => OpenLine.ofFragment? f
    | some line => some (line.extend f)
  match line? with
  | none => (none, a)
  | some line =>
    if f.terminator || a.limit ≤ line.data.length then
      (some (line.close f.stream f.terminator), { a with lines := a.lines.erase f.stream })
    else (none, { a with lines := a.lines.insert f.stream line })

/-- Ends all lines, in the order of their streams. -/
def drain (a : Assembler) : List PrintLine × Assembler :=
  (a.lines.toList.map fun (stream, line) => line.close stream false, { a with lines := {} })

/-- Whether all lines have ended. -/
def isEmpty (a : Assembler) : Bool :=
  a.lines.isEmpty

end Assembler

end Retrace
