import Retrace.Bytes.Number
import Retrace.Text.Hex

/-!
# Encodings

The raw bits of one instruction. The low bits of the first byte denote the length; encodings
of 48 and 64 bits are recognised so that their length is known, longer ones are refused.

`Encoding.split?` cuts one encoding off a byte string, `Encoding.ofWord?` reads one from a
32-bit word.
-/

namespace Retrace.Isa

/-- The raw bits of one instruction, by length. -/
inductive Encoding where
  | bits16 (word : BitVec 16)
  | bits32 (word : BitVec 32)
  | bits48 (word : BitVec 64)
  | bits64 (word : BitVec 64)
  deriving DecidableEq, Repr

/-- Why no encoding could be cut off a byte string. -/
inductive EncodingError where
  /-- There are fewer bytes than the length asks for. -/
  | truncated
  /-- The length is 80 bits or more. -/
  | unsupportedLength
  deriving DecidableEq, Repr

namespace Encoding

/-- The length in bytes. -/
def size : Encoding → Nat
  | bits16 _ => 2
  | bits32 _ => 4
  | bits48 _ => 6
  | bits64 _ => 8

/-- The bits as a number. -/
def raw : Encoding → Nat
  | bits16 w => w.toNat
  | bits32 w => w.toNat
  | bits48 w => w.toNat
  | bits64 w => w.toNat

/-- The bits in hexadecimal, two digits a byte. -/
def text (e : Encoding) : String :=
  Text.paddedHex (2 * e.size) e.raw

/-- The length in bytes that the first byte denotes, if it is supported. -/
def sizeOfFirst? (first : UInt8) : Option Nat :=
  if first &&& 0b11 ≠ 0b11 then some 2
  else if first &&& 0b11100 ≠ 0b11100 then some 4
  else if first &&& 0b111111 = 0b011111 then some 6
  else if first &&& 0b1111111 = 0b0111111 then some 8
  else none

/-- The encoding of `size` bytes whose bits are the number `raw`. -/
def ofRaw (size raw : Nat) : Encoding :=
  match size with
  | 2 => bits16 (BitVec.ofNat 16 raw)
  | 4 => bits32 (BitVec.ofNat 32 raw)
  | 6 => bits48 (BitVec.ofNat 64 raw)
  | _ => bits64 (BitVec.ofNat 64 raw)

/-- The first encoding of a byte string and the bytes after it. -/
def split? : List UInt8 → Except EncodingError (Encoding × List UInt8)
  | [] => .error .truncated
  | first :: rest =>
    match sizeOfFirst? first with
    | none => .error .unsupportedLength
    | some size =>
      let bytes := (first :: rest).take size
      if bytes.length < size then .error .truncated
      else .ok (ofRaw size (Bytes.ofLittleEndian bytes), (first :: rest).drop size)

/-- The encoding that a 32-bit word holds, if it is one of 16 bits with nothing after it or
one of 32 bits. -/
def ofWord? (word : BitVec 32) : Option Encoding :=
  if word.extractLsb 1 0 ≠ 0b11#2 then
    if word.extractLsb 31 16 = 0#16 then some (bits16 (word.extractLsb 15 0)) else none
  else if word.extractLsb 4 2 ≠ 0b111#3 then some (bits32 word)
  else none

end Encoding

end Retrace.Isa
