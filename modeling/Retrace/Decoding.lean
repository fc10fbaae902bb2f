import Retrace.Config.Document
import Retrace.Session.Rendering
import Retrace.Session.Replay
import Retrace.Text.Decimal

/-!
# Decoding a trace

A whole trace as lines of text: the instructions and printed lines in the order of the trace, the
messages that were passed over, and the statistics if they are asked for.
-/

namespace Retrace

/-- What a trace is decoded from. The contents of a file are missing if it cannot be read. -/
structure DecodingInputs where
  /-- The file of settings, if there is one. -/
  configuration? : Option (Option (List UInt8))
  program? : Option (List UInt8)
  trace? : Option (List UInt8)
  showStatistics : Bool

/-- Why a trace cannot be decoded. -/
inductive DecodingError where
  | unreadableConfiguration
  | badConfiguration
  | program (cause : Error)
  | unreadableTrace
  | session (cause : Error)
  deriving DecidableEq, Repr

def DecodingError.message : DecodingError → String
  | unreadableConfiguration => "Could not load configuration"
  | badConfiguration => "Could not parse configuration"
  | program cause => "Could not load ELF file: " ++ cause.message
  | unreadableTrace => "Could not load trace file"
  | session cause => "Could not start session: " ++ cause.message

/-- A line of the result. -/
inductive DecodedLine where
  /-- An instruction, a printed line or statistics. -/
  | output (text : String)
  /-- A message that was passed over. -/
  | skipped (text : String)
  deriving DecidableEq, Repr

/-- A trace that is ready to be decoded. -/
structure Decoding where
  session : Session
  showStatistics : Bool

namespace Decoding

/-- The configuration that the contents of a file denote. -/
def configuration (contents : List UInt8) : Except DecodingError Configuration :=
  match Text.Utf8.decode? contents with
  | none => .error .unreadableConfiguration
  | some text =>
    match (Document.ofText? text).bind fun d =>
      Configuration.ofSetting? Document.format d.toSetting with
    | none => .error .badConfiguration
    | some c => .ok c

/-- A decoding at the start of its trace. Of several errors, that of the configuration comes
first, then that of the program. -/
def ofInputs (inputs : DecodingInputs) : Except DecodingError Decoding := do
  let c ← match inputs.configuration? with
    | none => pure {}
    | some none => throw .unreadableConfiguration
    | some (some contents) => configuration contents
  let image ← (Image.ofFile inputs.program?).mapError fun e => .program (.badImage e)
  let trace ← match inputs.trace? with
    | none => throw .unreadableTrace
    | some trace => pure trace
  let session ← (Session.start image trace c).mapError .session
  return ⟨session, inputs.showStatistics⟩

/-- How records are shown. -/
def rendering (d : Decoding) : Rendering :=
  .ofConfiguration d.session.configuration d.session.tracer.image

/-- The source files, none of which is known. -/
def files (d : Decoding) : SourceFiles :=
  .start d.session.configuration.sourcePath?

/-- The paths of the source files whose text may be shown. -/
def sourcePaths (d : Decoding) : List String :=
  if d.rendering.verbosity.text then
    (d.session.tracer.image.lines.ranges.map fun r => d.files.path r.file).eraseDups
  else []

/-- The line of a record, in front of it its core. -/
def recordLine (core : UInt16) (text : String) : DecodedLine :=
  .output ("[" ++ toString core.toNat ++ "] " ++ text)

/-- The times of a printed line: in seconds if the frequency is known, else as they are. -/
def timesText (frequency? : Option UInt32) (l : PrintLine) : String :=
  match frequency? with
  | some frequency =>
    let (start, stop) := l.seconds frequency
    Text.fixedText 6 start ++ "s.." ++ Text.fixedText 6 stop ++ "s"
  | none => toString l.start.toNat ++ ".." ++ toString l.stop.toNat

/-- The line of a printed line, in front of it where and when it was printed. -/
def printLine (frequency? : Option UInt32) (l : PrintLine) : DecodedLine :=
  .output ("[" ++ toString l.stream.core.toNat ++ ":" ++ toString l.stream.channel.toNat ++ "] " ++
    timesText frequency? l ++ " " ++ l.trimmed ++ if l.complete then "" else " (incomplete)")

/-- The lines so far, the latest first, and the source files that were read for them. -/
structure Progress where
  lines : List DecodedLine
  files : SourceFiles

/-- Adds the lines of the result of a step. -/
def Progress.addResult (directory : Directory) (r : Rendering) (p : Progress) :
    Except Error (List Record) → Progress
  | .ok records => records.foldl (fun p record =>
      let (text, files) := p.files.render directory r record.toVisit
      ⟨recordLine record.core text :: p.lines, files⟩) p
  | .error e => { p with lines := .skipped ("Skipping: " ++ e.message) :: p.lines }

/-- Adds printed lines. -/
def Progress.addPrinted (frequency? : Option UInt32) (p : Progress) (lines : List PrintLine) :
    Progress :=
  { p with lines := (lines.map (printLine frequency?)).reverse ++ p.lines }

/-- The lines of the whole trace. Source files are read from a directory. -/
def run (d : Decoding) (directory : Directory) : List DecodedLine :=
  let frequency? := d.session.configuration.frequency?
  let (progress, session) := d.session.fold
    (fun (p : Progress) result lines =>
      (p.addResult directory d.rendering result).addPrinted frequency? lines)
    ⟨[], d.files⟩
  let summary := session.close
  let statistics := if d.showStatistics then summary.statistics.lines else []
  (progress.addPrinted frequency? summary.lines).lines.reverse ++ statistics.map .output

end Decoding

/-- The lines that decoding shows. -/
def DecodedLine.output? : DecodedLine → Option String
  | output text => some text
  | skipped _ => none

/-- The lines about messages that were passed over. -/
def DecodedLine.skipped? : DecodedLine → Option String
  | output _ => none
  | skipped text => some text

end Retrace
