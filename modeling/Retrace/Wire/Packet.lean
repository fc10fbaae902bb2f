import Retrace.Wire.Slice
import Retrace.Wire.TypeCode

/-!
# Packets

A packet is a message as it is transmitted: its type, the core it comes from and the values of
its fields. `Packet.encode` writes the slices of a packet.

Fixed fields are packed into consecutive bits. A variable field takes as many further slices as
its value needs and is the last thing in its final slice, so a packet is a sequence of runs,
each of fixed fields with at most one variable field after them.
-/

namespace Retrace.Wire

/-- A message as it is transmitted. Fields beyond the layout of the type are optional ones. -/
structure Packet where
  type : TypeCode
  core : UInt16
  fields : List UInt64
  deriving DecidableEq, Repr

/-- Slices that hold `count` groups of six bits of a number, lowest first. The last one carries
the marker. -/
def slices (value : Nat) (marker : Marker) : Nat → List UInt8
  | 0 => []
  | 1 => [Slice.make value marker]
  | count + 2 => Slice.make value .more :: slices (value / 64) marker (count + 1)

/-- The number of slices that a run of `width` bits with a variable field after them needs. The
variable field has at least one bit, or a slice of its own if the run ends with one. -/
def runLength (total width : Nat) : Nat :=
  max (width / sliceBits + 1) ((total.log2 + 1 + (sliceBits - 1)) / sliceBits)

/-- The slices of fields, after `width` bits of a run that hold `value`. -/
def encodeFields (layout : List FieldWidth) (value width : Nat) : List UInt64 → List UInt8
  | [] => slices value .endMessage ((width + (sliceBits - 1)) / sliceBits)
  | field :: rest =>
    match layout with
    | .fixed bits :: layout =>
      encodeFields layout (value + (field.toNat % (1 <<< bits)) <<< width) (width + bits) rest
    | _ =>
      let total := value + field.toNat <<< width
      let marker := if rest.isEmpty then .endMessage else .endField
      slices total marker (runLength total width) ++ encodeFields layout.tail 0 0 rest

/-- The slices of a packet, for core ids of `coreBits` bits. Fields without a place in the layout
are variable. -/
def Packet.encode (coreBits : Nat) (p : Packet) : List UInt8 :=
  let core := p.core.toNat % (1 <<< coreBits)
  encodeFields (p.type.layout?.getD []) (p.type.number + core <<< sliceBits) (sliceBits + coreBits)
    p.fields

end Retrace.Wire
