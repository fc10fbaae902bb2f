/-!
# Sections

A section is a piece of the program as it lies in memory.
-/

namespace Retrace

/-- The greatest 64-bit number. -/
def maxWord : UInt64 := 0xffffffffffffffff

/-- The sum of two words, or the greatest word if it is beyond that. -/
def addCapped (a b : UInt64) : UInt64 :=
  if a.toNat + b.toNat < UInt64.size then a + b else maxWord

/-- A piece of the program in memory. -/
structure Section where
  name : String
  /-- The address of the first byte. -/
  address : UInt64
  data : List UInt8
  /-- Whether the section holds instructions. -/
  executable : Bool
  deriving DecidableEq, Repr

namespace Section

/-- Whether an address lies in the section. -/
def contains (s : Section) (address : UInt64) : Bool :=
  s.address ≤ address && (address - s.address).toNat < s.data.length

/-- The bytes from an address to the end of the section, if there are any. -/
def dataFrom? (s : Section) (address : UInt64) : Option (List UInt8) :=
  if s.address ≤ address then
    match s.data.drop (address - s.address).toNat with
    | [] => none
    | data => some data
  else none

/-- The address of the last byte. An empty section has none; there it is the address before the
section, or zero. -/
def lastAddress (s : Section) : UInt64 :=
  let stop := addCapped s.address s.data.length.toUInt64
  if stop = 0 then 0 else stop - 1

end Section

end Retrace
