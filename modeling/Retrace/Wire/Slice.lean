/-!
# Slices

A trace is a sequence of bytes called slices. A slice carries six bits of a message in its
upper bits and a marker in its two lowest ones, which says whether a field or the message ends
with it.
-/

namespace Retrace.Wire

/-- What a slice says about the field and the message that it belongs to. -/
inductive Marker where
  /-- The field goes on in the next slice. -/
  | more
  /-- A variable field ends here. -/
  | endField
  /-- A value without a meaning. -/
  | reserved
  /-- The message ends here. -/
  | endMessage
  deriving DecidableEq, Repr

/-- The two bits that stand for a marker. -/
def Marker.bits : Marker → Nat
  | more => 0
  | endField => 1
  | reserved => 2
  | endMessage => 3

/-- The number of message bits in a slice. -/
def sliceBits : Nat := 6

namespace Slice

/-- The marker of a slice. -/
def marker (s : UInt8) : Marker :=
  match s.toNat % 4 with
  | 0 => .more
  | 1 => .endField
  | 2 => .reserved
  | _ => .endMessage

/-- The message bits of a slice. -/
def payload (s : UInt8) : Nat :=
  s.toNat / 4

/-- The slice with the given message bits and marker. -/
def make (payload : Nat) (m : Marker) : UInt8 :=
  (payload % 64 * 4 + m.bits).toUInt8

/-- The slice that fills the time between messages: it ends a message that holds nothing. -/
def idle : UInt8 := 3

end Slice

end Retrace.Wire
