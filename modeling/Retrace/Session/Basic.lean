import Retrace.Error
import Retrace.Message.Reader
import Retrace.Print.Assembler
import Retrace.Session.Statistics
import Retrace.Trace.Tracer

/-!
# Sessions

A session reads a trace message by message and gives what each leads to. `Session.advance` takes
the next message, `Session.close` gives what is left at the end.
-/

namespace Retrace

/-- The reconstruction of a trace so far. -/
structure Session where
  configuration : Configuration
  reader : Reader
  tracer : Tracer
  assembler : Assembler
  /-- Printed lines that have ended and are not yet taken. -/
  lines : List PrintLine
  statistics : Statistics
  /-- Whether the end of the trace has been reported. -/
  finished : Bool

/-- What is left at the end of a session. -/
structure Summary where
  statistics : Statistics
  /-- Printed lines that were not taken, with those that have not ended. -/
  lines : List PrintLine
  /-- Records that were not given. -/
  records : List Record

namespace Statistics

/-- Counts records that are given. -/
def addRecords (s : Statistics) (records : List Record) : Statistics :=
  records.foldl (fun s r => s.addInstruction r.core r.source?.isSome) s

end Statistics

namespace Configuration

def readerOptions (c : Configuration) : ReaderOptions :=
  .ofWidths c.coreBits c.timestampWidth

def tracerOptions (c : Configuration) : TracerOptions :=
  ⟨c.coreMask, c.maxRun, c.returnStack⟩

end Configuration

namespace Session

/-- A session at the start of a trace. All settings must be in their ranges. -/
def start (image : Image) (trace : List UInt8) (c : Configuration) : Except Error Session :=
  match c.invalid? with
  | some e => .error (.unsupportedConfiguration e)
  | none => .ok {
      configuration := c
      reader := .start c.readerOptions trace
      tracer := .start image c.tracerOptions (.empty SiteCache.defaultSize)
      assembler := .start c.printBufferLimit
      lines := []
      statistics := {}
      finished := false }

/-- Gives the records that were reconstructed before cores faulted, and others after them. -/
def deliver (s : Session) (records : List Record) : List Record × Session :=
  let delivered := s.tracer.undelivered ++ records
  (delivered, { s with
    tracer := s.tracer.takeUndelivered.2
    statistics := s.statistics.addRecords delivered })

/-- The step of a message that leads to records. -/
def succeed (s : Session) (records : List Record) : Except Error (List Record) × Session :=
  (.ok (s.deliver records).1, (s.deliver records).2)

/-- Counts a message. -/
def note (s : Session) (m : Message) : Session :=
  { s with statistics := (s.statistics.addMessage m.kind).addTimestamp m.timestamp }

/-- Takes a fragment of printed output. Channels that are not selected do not count. -/
def print (s : Session) (f : Fragment) : Session :=
  if s.configuration.printChannels.contains f.channel.toNat then
    let (line?, assembler) := s.assembler.feed f
    { s with
      assembler
      lines := s.lines ++ line?.toList
      statistics := s.statistics.addPrintLines line?.toList.length }
  else s

/-- Reconstructs what a message leads to. -/
def reconstruct (s : Session) (m : Message) : Except Error (List Record) × Session :=
  match s.tracer.process m with
  | (.ok records, tracer) => { s with tracer }.succeed records
  | (.error e, tracer) =>
    (.error (.unexpectedEncoding e), { s with tracer, statistics := s.statistics.addFaults 1 })

/-- Takes a message. -/
def take (s : Session) (m : Message) : Except Error (List Record) × Session :=
  match m.payload with
  | .print f => ((s.note m).print f).succeed []
  | _ => (s.note m).reconstruct m

/-- Passes over a packet that could not be read. Its core has faulted, or all of them if the core
is not known, unless the packet is only of a type that is not read. -/
def skip (s : Session) (e : Wire.PacketError) : Session :=
  match e with
  | .unsupported .. => { s with statistics := s.statistics.addUnsupported }
  | _ =>
    let (faults, tracer) := s.tracer.fault e.core?
    { s with tracer, statistics := s.statistics.addUnreadable.addFaults faults }

/-- Takes the next message and gives the records that it leads to, or why there are none. Records
that were left when a core faulted come first; if the trace ends before, they are given once
more. At the end of the trace there is nothing. -/
def advance (s : Session) : Option (Except Error (List Record)) × Session :=
  if s.finished then (none, s)
  else
    match s.reader.next with
    | (some (.ok m), reader) => Prod.map some id ({ s with reader }.take m)
    | (some (.error e), reader) => (some (.error (.ofPacketError e)), { s with reader }.skip e)
    | (none, reader) =>
      if s.tracer.undelivered.isEmpty then
        let statistics := s.statistics.addMessage .endOfTrace
        (none, { s with reader, statistics, finished := true })
      else Prod.map some id ({ s with reader }.succeed [])

/-- Takes the printed lines that have ended. -/
def takeLines (s : Session) : List PrintLine × Session :=
  (s.lines, { s with lines := [] })

/-- What is known about the place of a core. -/
def phase (s : Session) (core : UInt16) : Phase :=
  s.tracer.phase core

/-- The session at the start of its trace. -/
def reset (s : Session) : Session :=
  { s with
    reader := s.reader.reset
    tracer := s.tracer.reset
    assembler := .start s.configuration.printBufferLimit
    lines := []
    statistics := {}
    finished := false }

/-- Ends the session. Printed lines that have not ended are given as they are. -/
def close (s : Session) : Summary :=
  let unfinished := s.assembler.drain.1
  let statistics := s.statistics.addPrintLines unfinished.length
  let (records, s) := { s with statistics }.deliver []
  ⟨s.statistics, s.lines ++ unfinished, records⟩

end Session

end Retrace
