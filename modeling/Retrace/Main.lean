import Retrace.Decoding

/-!
# Command line

`[OPTIONS] <elf> <trace>` decodes a trace. Instructions and printed lines go to standard output,
messages that are passed over to standard error.
-/

namespace Retrace

/-- What the command line asks for. -/
structure Arguments where
  files : List String := []
  configuration? : Option String := none
  showStatistics : Bool := false
  help : Bool := false

namespace Arguments

def usage : String :=
  "Usage: decode [OPTIONS] <elf> <trace>\n\n" ++
  "Arguments:\n" ++
  "  <elf>    Path to the ELF file\n" ++
  "  <trace>  Path to the trace file\n\n" ++
  "Options:\n" ++
  "  -c, --config <FILE>  Session configuration\n" ++
  "  -s, --stats          Print statistics after the trace was decoded\n" ++
  "  -d, --debug          Enable additional debug output\n" ++
  "  -h, --help           Print help"

/-- The arguments that a list of words denotes, after others. -/
def ofWords? (a : Arguments) : List String → Option Arguments
  | [] => if a.help || a.files.length = 2 then some a else none
  | "-c" :: path :: rest | "--config" :: path :: rest =>
    ofWords? { a with configuration? := some path } rest
  | "-s" :: rest | "--stats" :: rest => ofWords? { a with showStatistics := true } rest
  | "-d" :: rest | "--debug" :: rest => ofWords? a rest
  | "-h" :: rest | "--help" :: rest => ofWords? { a with help := true } rest
  | word :: rest =>
    if word.startsWith "-" then none else ofWords? { a with files := a.files ++ [word] } rest

end Arguments

/-- The contents of a file, if it can be read. -/
def readFile? (path : String) : IO (Option (List UInt8)) := do
  try
    let data ← IO.FS.readBinFile path
    return some data.toList
  catch _ => return none

/-- The contents of those of some files that can be read. -/
def readFiles (paths : List String) : IO (List (String × List UInt8)) :=
  paths.filterMapM fun path => return (← readFile? path).map (path, ·)

/-- Reads the files that the command line names. -/
def readInputs (a : Arguments) : IO DecodingInputs := do
  let configuration? ← a.configuration?.mapM readFile?
  let program? ← (a.files[0]?).elim (pure none) readFile?
  let trace? ← (a.files[1]?).elim (pure none) readFile?
  return ⟨configuration?, program?, trace?, a.showStatistics⟩

/-- Decodes a trace and writes its lines. -/
def decode (a : Arguments) : IO UInt32 := do
  match Decoding.ofInputs (← readInputs a) with
  | .error e =>
    IO.eprintln e.message
    return 1
  | .ok d =>
    let sources ← readFiles d.sourcePaths
    for line in d.run (sources.lookup ·) do
      match line with
      | .output text => IO.println text
      | .skipped text => IO.eprintln text
    return 0

end Retrace

def main (words : List String) : IO UInt32 := do
  match Retrace.Arguments.ofWords? {} words with
  | none =>
    IO.eprintln Retrace.Arguments.usage
    return 2
  | some a =>
    if a.help then
      IO.println Retrace.Arguments.usage
      return 0
    else Retrace.decode a
