import Retrace.Text.Quoted
import Retrace.Text.Utf8

/-!
# Messages

A message is what a packet tells about one core, with full addresses and timestamps. Messages on
control flow carry a count: the number of half-words executed since the last counted message, up
to and including the instruction that the message is about. Conditional branches within a count
that do not end it were not taken. A count of zero means that the message has none and is about
the next instruction that waits for one.
-/

namespace Retrace

/-- A piece of printed output. -/
structure Fragment where
  core : UInt16
  channel : UInt8
  /-- The bytes, with the newline that ends them if there is one. -/
  data : List UInt8
  /-- Whether a newline or NUL ends the fragment. -/
  terminator : Bool
  /-- The running timestamp when the bytes were written. -/
  timestamp : UInt64
  deriving DecidableEq, Repr

/-- What a message tells. -/
inductive Payload where
  /-- A full address, which reconstruction can start from. -/
  | sync (address : UInt64) (count : Nat)
  /-- The outcome of a conditional branch. -/
  | directBranch (taken : Bool) (count : Nat)
  /-- The target of a jump that the code does not determine. -/
  | indirectBranch (target : UInt64) (count : Nat)
  /-- The target of a trap or interrupt. -/
  | exception (address : UInt64) (count : Nat)
  /-- A piece of printed output. -/
  | print (fragment : Fragment)
  /-- A timestamp and nothing else. -/
  | timestamp
  /-- Messages were lost. -/
  | error (code : UInt64)
  deriving DecidableEq, Repr

/-- What one core reports. -/
structure Message where
  core : UInt16
  /-- The running timestamp of the core, this message included. -/
  timestamp : UInt64
  payload : Payload
  deriving DecidableEq, Repr

/-- The kind of a message; the end of the trace counts as one. -/
inductive MessageKind where
  | sync
  | directBranch
  | indirectBranch
  | exception
  | print
  | timestamp
  | error
  | endOfTrace
  deriving DecidableEq, Repr, Ord

namespace MessageKind

/-- All kinds, in the order in which they are listed. -/
def all : List MessageKind :=
  [sync, directBranch, indirectBranch, exception, print, timestamp, error, endOfTrace]

def text : MessageKind → String
  | sync => "sync"
  | directBranch => "direct branch"
  | indirectBranch => "indirect branch"
  | exception => "exception"
  | print => "print fragment"
  | timestamp => "timestamp"
  | error => "error"
  | endOfTrace => "end"

end MessageKind

namespace Payload

/-- The count of half-words, zero if there is none. -/
def count : Payload → Nat
  | sync _ n | directBranch _ n | indirectBranch _ n | exception _ n => n
  | _ => 0

def kind : Payload → MessageKind
  | sync .. => .sync
  | directBranch .. => .directBranch
  | indirectBranch .. => .indirectBranch
  | exception .. => .exception
  | print _ => .print
  | timestamp => .timestamp
  | error _ => .error

def text : Payload → String
  | sync address n => "sync " ++ Text.hex address.toNat ++ ", i-cnt " ++ toString n
  | directBranch taken n =>
    "direct branch, taken: " ++ (if taken then "true" else "false") ++ ", i-cnt " ++ toString n
  | indirectBranch target n =>
    "indirect branch to " ++ Text.hex target.toNat ++ ", i-cnt " ++ toString n
  | exception address n =>
    "exception to " ++ Text.hex address.toNat ++ ", i-cnt " ++ toString n
  | print f =>
    let printed := Text.Utf8.decodeLossy f.data
    "print channel " ++ toString f.channel.toNat ++ ": " ++ Text.quoted printed
  | timestamp => "timestamp"
  | error code => "error " ++ Text.hex code.toNat

end Payload

namespace Message

def count (m : Message) : Nat :=
  m.payload.count

def kind (m : Message) : MessageKind :=
  m.payload.kind

/-- The core, the timestamp and what the message tells. -/
def text (m : Message) : String :=
  "[" ++ toString m.core.toNat ++ "@" ++ toString m.timestamp.toNat ++ "] " ++ m.payload.text

end Message

end Retrace
