/-!
# Numbers in bytes

Unsigned numbers as bytes, lowest or highest first.
-/

namespace Retrace.Bytes

/-- The number that bytes denote, lowest first. -/
def ofLittleEndian : List UInt8 → Nat
  | [] => 0
  | b :: rest => b.toNat + 256 * ofLittleEndian rest

/-- The number that bytes denote, highest first. -/
def ofBigEndian (bytes : List UInt8) : Nat :=
  ofLittleEndian bytes.reverse

/-- The order of the bytes of a number. -/
inductive Order where
  | little
  | big
  deriving DecidableEq, Repr

/-- The number that bytes denote in an order. -/
def number : Order → List UInt8 → Nat
  | .little, bytes => ofLittleEndian bytes
  | .big, bytes => ofBigEndian bytes

end Retrace.Bytes
