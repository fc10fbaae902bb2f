import Retrace.Session.Basic
import Retrace.Text.Blank

/-!
# Rendering records

The line of text that shows a record, with the parts that are configured.
-/

namespace Retrace

/-- How records are shown. -/
structure Rendering where
  verbosity : Verbosity
  /-- The least number of digits of an address. -/
  addressDigits : Nat
  deriving DecidableEq, Repr

namespace Rendering

/-- The rendering of records of an image. -/
def ofConfiguration (c : Configuration) (image : Image) : Rendering :=
  let bits := match c.addressWidth with
    | .auto => image.addressBits
    | .fixed bits => bits
  ⟨c.verbosity, (bits + 3) / 4⟩

def addressText (r : Rendering) (address : UInt64) : String :=
  Text.paddedHex r.addressDigits address.toNat ++ ":"

/-- The encoding, filled up to the width of 32 bits, and the instruction. -/
def instructionText (i : Isa.Instruction) : String :=
  let encoding := i.encoding.text
  encoding ++ String.ofList (List.replicate (8 - encoding.length) ' ') ++ " " ++ i.text

/-- The source, or else the closest symbol. -/
def placeText (v : Visit) : String :=
  match v.source?, v.label? with
  | some source, _ => source.text
  | none, some label => "<" ++ label.text ++ ">"
  | none, none => "??"

/-- The text of a visit. The given text is that of the source line, if it is known. -/
def text (r : Rendering) (v : Visit) (line? : Option String) : String :=
  let part (shown : Bool) (s : String) : List String := if shown then [s] else []
  " ".intercalate <|
    part r.verbosity.address (r.addressText v.address) ++
    part r.verbosity.instruction (instructionText v.instruction) ++
    part r.verbosity.source (placeText v) ++
    (line?.toList.flatMap fun line => part r.verbosity.text ("| " ++ Text.trim line))

end Rendering

namespace SourceFiles

/-- The text of the source line of a visit. -/
def lineOf? (files : SourceFiles) (directory : Directory) (v : Visit) :
    Option String × SourceFiles :=
  match v.source? with
  | none => (none, files)
  | some source => files.line? directory source.file source.line.toNat

/-- The text of a record as it is configured. Source files are read if their text is shown. -/
def render (files : SourceFiles) (directory : Directory) (r : Rendering) (v : Visit) :
    String × SourceFiles :=
  if r.verbosity.text then
    let (line?, files) := files.lineOf? directory v
    (r.text v line?, files)
  else (r.text v none, files)

end SourceFiles

end Retrace
