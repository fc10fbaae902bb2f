import Retrace.Text.Lines
import Retrace.Text.Utf8

/-!
# Source files

Line information names source files as they were called where the program was built. A
substitution replaces the start of such paths. `SourceFiles` gives the lines of files; a file is
read once, and one that cannot be read is not tried again.
-/

namespace Retrace

/-- Replaces the start of paths. -/
structure PathSubstitution where
  strip : String
  replace : String
  deriving DecidableEq, Repr

/-- A path in a directory. A separator comes between, unless the directory is empty or ends with
one. -/
def joinPath (directory path : List Char) : List Char :=
  match directory.getLast? with
  | none => path
  | some c => if c = '/' then directory ++ path else directory ++ '/' :: path

/-- The rest of characters behind a given start, if they have it. -/
def dropStart? : List Char → List Char → Option (List Char)
  | [], cs => some cs
  | _ :: _, [] => none
  | a :: start, c :: cs => if a = c then dropStart? start cs else none

/-- The path with its start replaced, if it starts so. Separators of either kind behind the start
are dropped. -/
def PathSubstitution.apply (p : PathSubstitution) (path : String) : String :=
  match dropStart? p.strip.toList path.toList with
  | none => path
  | some rest =>
    let rest := rest.dropWhile fun c => c = '/' || c = '\\'
    String.ofList (joinPath p.replace.toList rest)

/-- The contents of the files that can be read, by path. -/
abbrev Directory := String → Option (List UInt8)

/-- Source files, and what is known of those that were asked for. -/
structure SourceFiles where
  substitution? : Option PathSubstitution
  /-- The lines of each file, or nothing if it could not be read. -/
  known : List (String × Option (List String))
  deriving Repr

namespace SourceFiles

/-- Source files of which none is known. -/
def start (substitution? : Option PathSubstitution) : SourceFiles :=
  ⟨substitution?, []⟩

/-- The path under which a file is read. -/
def path (s : SourceFiles) (file : String) : String :=
  match s.substitution? with
  | none => file
  | some p => p.apply file

/-- The lines of a file, if it can be read. -/
def read? (s : SourceFiles) (directory : Directory) (file : String) : Option (List String) :=
  (directory (s.path file)).map fun data => Text.lines (Text.Utf8.decodeLossy data)

/-- The text of a line of a file, counted from one. -/
def line? (s : SourceFiles) (directory : Directory) (file : String) (line : Nat) :
    Option String × SourceFiles :=
  match line with
  | 0 => (none, s)
  | index + 1 =>
    match s.known.lookup file with
    | some lines? => (lines?.bind (·[index]?), s)
    | none =>
      let lines? := s.read? directory file
      (lines?.bind (·[index]?), { s with known := (file, lines?) :: s.known })

/-- The number of files that were asked for. -/
def size (s : SourceFiles) : Nat :=
  s.known.length

end SourceFiles

end Retrace
