import Retrace.Config.Basic
import Retrace.Message.Basic
import Retrace.Text.Lines

/-!
# Printed lines

What a program prints on a channel of a core, cut into lines.
-/

namespace Retrace

/-- Where a program prints: a channel of a core. -/
structure PrintStream where
  core : UInt16
  channel : UInt8
  deriving DecidableEq, Repr

namespace PrintStream

/-- Streams are in the order of their cores; those of one core are in that of their channels. -/
def order : PrintStream → PrintStream → Ordering :=
  compareLex (compareOn core) (compareOn channel)

instance : Ord PrintStream := ⟨order⟩

end PrintStream

/-- The stream that a fragment belongs to. -/
def Fragment.stream (f : Fragment) : PrintStream :=
  ⟨f.core, f.channel⟩

/-- A line of printed output. -/
structure PrintLine where
  stream : PrintStream
  /-- The bytes, with the newline that ends them if there is one. -/
  data : List UInt8
  /-- The timestamp of the first fragment. -/
  start : UInt64
  /-- The timestamp of the fragment that ended the line. -/
  stop : UInt64
  /-- Whether a newline or NUL ended the line. -/
  complete : Bool
  deriving DecidableEq, Repr

namespace PrintLine

def text (l : PrintLine) : String :=
  Text.Utf8.decodeLossy l.data

/-- The text without the newline at its end. -/
def trimmed (l : PrintLine) : String :=
  Text.withoutNewline l.text

/-- The times of the first and the last fragment in seconds. -/
def seconds (frequency : UInt32) (l : PrintLine) : Float × Float :=
  (Retrace.seconds frequency l.start, Retrace.seconds frequency l.stop)

end PrintLine

end Retrace
