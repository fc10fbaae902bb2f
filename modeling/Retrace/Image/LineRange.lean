import Retrace.Image.Search

/-!
# Line ranges

The addresses of the code of one source line.
-/

namespace Retrace

/-- The addresses of the code of one source line. -/
structure LineRange where
  start : UInt64
  /-- The first address after the range. -/
  stop : UInt64
  file : String
  line : UInt32
  deriving DecidableEq, Repr

/-- The ranges that are not empty, in ascending order. Of equal ones, later ones come later. -/
structure LineTable where
  ranges : List LineRange
  deriving Repr

namespace LineTable

/-- The table of ranges in any order. -/
def ofList (ranges : List LineRange) : LineTable :=
  ⟨(ranges.filter fun r => r.start < r.stop).mergeSort (·.start ≤ ·.start)⟩

def isEmpty (t : LineTable) : Bool :=
  t.ranges.isEmpty

/-- The last range that an address lies in. -/
def find? (t : LineTable) (address : UInt64) : Option LineRange :=
  (Search.front (·.start ≤ address) t.ranges).reverse.find? (address < ·.stop)

end LineTable

end Retrace
