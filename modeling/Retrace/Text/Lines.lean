/-!
# Lines

Lines end with a newline, which may have a carriage return before it. What follows the last
newline is a line too, unless it is empty.
-/

namespace Retrace.Text

/-- A line that a newline ends, from its characters in reverse. -/
def endedLine : List Char → List Char
  | '\r' :: cs => cs.reverse
  | cs => cs.reverse

/-- The lines of characters, after those of the current line in reverse. -/
def lineChars (current : List Char) : List Char → List (List Char)
  | [] => if current.isEmpty then [] else [current.reverse]
  | c :: rest =>
    if c = '\n' then endedLine current :: lineChars [] rest else lineChars (c :: current) rest

/-- The lines of a text, without what ends them. -/
def lines (s : String) : List String :=
  (lineChars [] s.toList).map String.ofList

/-- A text without the newline at its end. -/
def withoutNewline (s : String) : String :=
  match s.toList.reverse with
  | '\n' :: cs => String.ofList (endedLine cs)
  | _ => s

end Retrace.Text
