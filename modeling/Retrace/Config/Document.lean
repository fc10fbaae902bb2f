import Retrace.Config.Table
import Retrace.Config.Token
import Retrace.Config.Word

/-!
# Configuration files

Settings are kept in files of TOML, version 1.1. A line has a key and a value, or starts a table,
or the next one of a list of tables. A value in brackets may go on over several lines: a list, or
a table between braces. There a line may end wherever a gap may be, but not inside a key.

`Document.ofText?` reads a file, `Document.toSetting` is the table of its settings.
-/

namespace Retrace

/-- A part of a line: a token, or a value in brackets. -/
inductive Part where
  | token (t : Token)
  | value (v : Setting)

namespace Part

def isGap : Part → Bool
  | token (.gap _) => true
  | _ => false

/-- Whether the part is a gap or the end of a line, between brackets. -/
def isWideGap : Part → Bool
  | token .lineEnd => true
  | p => p.isGap

def isMark (mark : Char) : Part → Bool
  | token (.mark c) => c = mark
  | _ => false

/-- Parts without some at their ends. -/
def trim (drop : Part → Bool) (parts : List Part) : List Part :=
  ((parts.dropWhile drop).reverse.dropWhile drop).reverse

/-- The parts between marks. -/
def split (mark : Char) : List Part → List (List Part)
  | [] => [[]]
  | p :: rest =>
    match p.isMark mark, split mark rest with
    | true, pieces => [] :: pieces
    | false, [] => [[p]]
    | false, piece :: pieces => (p :: piece) :: pieces

/-! ## Keys and values -/

/-- A key between dots: a word or a text in one line. -/
def keyOf? (parts : List Part) : Option String :=
  match trim isGap parts with
  | [token (.word cs)] => if cs.all Token.isKeyChar then some (String.ofList cs) else none
  | [token (.text s false)] => some s
  | _ => none

/-- The greatest number of keys between dots. -/
def maxKeys : Nat := 80

/-- A key that may have dots. -/
def keyPath? (parts : List Part) : Option KeyPath := do
  let keys ← (split '.' parts).mapM keyOf?
  if keys.length ≤ maxKeys then return ⟨keys.dropLast, ← keys.getLast?⟩
  else none

/-- The characters of a value that has no quotes or brackets. -/
def wordChars? : List Part → Option (List Char)
  | [] => some []
  | token (.word cs) :: rest => (wordChars? rest).map (cs ++ ·)
  | token (.mark '.') :: rest => (wordChars? rest).map ('.' :: ·)
  | token (.gap [' ']) :: rest => (wordChars? rest).map (' ' :: ·)
  | _ => none

/-- A value without gaps at its ends. -/
def valueOf? : List Part → Option Setting
  | [value v] => some v
  | [token (.text s _)] => some (.text s)
  | parts => (wordChars? parts).bind Setting.ofWord?

/-- A key and its value. Parts at their ends that `drop` is true of do not count. -/
def entry? (drop : Part → Bool) (parts : List Part) : Option (KeyPath × Setting) :=
  let key := parts.takeWhile fun p => !p.isMark '='
  match parts.drop key.length with
  | [] => none
  | _ :: rest => do return (← keyPath? (trim drop key), ← valueOf? (trim drop rest))

/-! ## Brackets -/

/-- The pieces between commas. There may be a comma behind the last one, if there is one. -/
def pieces (parts : List Part) : List (List Part) :=
  let pieces := (split ',' parts).map (trim isWideGap)
  match pieces.getLast? with
  | some [] => pieces.dropLast
  | _ => pieces

/-- The list between brackets. -/
def list? (parts : List Part) : Option Setting :=
  ((pieces parts).mapM valueOf?).map .list

/-- The table between braces. -/
def table? (parts : List Part) : Option Setting := do
  let entries ← (pieces parts).foldlM (fun entries piece => do
    let (key, v) ← entry? isWideGap piece
    Node.Entries.addValue? key v .header entries) []
  return .table (Node.settings entries)

end Part

/-! ## Documents -/

/-- A file of settings, read so far. -/
structure Document where
  entries : Node.Entries
  /-- The header of the table that lines are added to. -/
  header : List String

namespace Document

/-- How configuration files say what is not the same in all formats. -/
def format : SettingFormat where
  allowsSurplus := true
  isNothing
    | .list [] | .table [] => true
    | _ => false

/-- The header in a line, behind its first bracket, up to the last one. -/
def headerKey? (parts : List Part) : Option KeyPath :=
  match parts.reverse with
  | .token (.mark ']') :: key => Part.keyPath? key.reverse
  | _ => none

/-- The document with one more line. -/
def addLine? (d : Document) (parts : List Part) : Option Document :=
  match Part.trim Part.isGap parts with
  | [] => some d
  | .token (.mark '[') :: .token (.mark '[') :: rest =>
    match rest.reverse with
    | .token (.mark ']') :: rest => do
      let k ← headerKey? rest.reverse
      return ⟨← d.entries.addToTables? k, k.path ++ [k.key]⟩
    | _ => none
  | .token (.mark '[') :: rest => do
    let k ← headerKey? rest
    return ⟨← d.entries.addTable? k, k.path ++ [k.key]⟩
  | parts => do
    let (k, v) ← Part.entry? Part.isGap parts
    let entries ← Node.Entries.change? false (Node.Entries.addValue? k v) .header d.entries d.header
    return { d with entries }

/-- The table of the settings. -/
def toSetting (d : Document) : Setting :=
  .table (Node.settings d.entries)

end Document

/-! ## Reading documents -/

/-- A bracket that is open, and the parts behind it, the latest first. -/
structure Bracket where
  isList : Bool
  parts : List Part

/-- The value between the bracket and one that closes it. -/
def Bracket.close? (b : Bracket) (closesList : Bool) : Option Setting :=
  if b.isList ≠ closesList then none
  else if b.isList then Part.list? b.parts.reverse
  else Part.table? b.parts.reverse

/-- A document that is being read. -/
structure Document.Reading where
  document : Document
  /-- The parts of the line, the latest first. -/
  line : List Part
  /-- The open brackets, the innermost first. -/
  brackets : List Bracket

namespace Document.Reading

/-- The greatest number of open brackets. -/
def maxDepth : Nat := 80

/-- Adds a part to the innermost bracket, or to the line. -/
def push (r : Reading) (p : Part) : Reading :=
  match r.brackets with
  | [] => { r with line := p :: r.line }
  | b :: rest => { r with brackets := { b with parts := p :: b.parts } :: rest }

/-- Whether the line starts, or has started, with a bracket. -/
def isHeader (r : Reading) : Bool :=
  match r.line.reverse.dropWhile Part.isGap with
  | [] => true
  | p :: _ => p.isMark '['

/-- Opens a bracket, which is only a token in the line of a header. -/
def open? (r : Reading) (isList : Bool) (t : Token) : Option Reading :=
  if r.brackets.isEmpty && r.isHeader then some (r.push (.token t))
  else if r.brackets.length < maxDepth then
    some { r with brackets := ⟨isList, []⟩ :: r.brackets }
  else none

/-- Closes the innermost bracket, if one is open. -/
def close? (r : Reading) (closesList : Bool) (t : Token) : Option Reading :=
  match r.brackets with
  | [] => some (r.push (.token t))
  | b :: rest => do
    let v ← b.close? closesList
    return { r with brackets := rest }.push (.value v)

/-- Ends the line, unless a bracket is open. -/
def endLine? (r : Reading) : Option Reading :=
  if r.brackets.isEmpty then
    (r.document.addLine? r.line.reverse).map fun document => { r with document, line := [] }
  else some (r.push (.token .lineEnd))

/-- Takes a token. -/
def step? (r : Reading) (t : Token) : Option Reading :=
  match t with
  | .lineEnd => r.endLine?
  | .mark '[' => r.open? true t
  | .mark '\x7b' => r.open? false t
  | .mark ']' => r.close? true t
  | .mark '\x7d' => r.close? false t
  | _ => some (r.push (.token t))

end Document.Reading

namespace Document

/-- A document at its start. -/
def start : Document := ⟨[], []⟩

/-- The document of tokens, if they are one. -/
def ofTokens? (ts : List Token) : Option Document := do
  let r ← ts.foldlM Reading.step? ⟨start, [], []⟩
  if r.brackets.isEmpty then r.document.addLine? r.line.reverse else none

/-- The characters of a text, without the mark of the byte order that it may start with. -/
def chars (s : String) : List Char :=
  match s.toList with
  | '\ufeff' :: cs => cs
  | cs => cs

/-- The document of a text, if it is one. -/
def ofText? (s : String) : Option Document :=
  (Token.ofChars? (chars s)).bind ofTokens?

end Document

end Retrace
