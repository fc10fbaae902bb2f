import Retrace.Image.Search
import Retrace.Image.Section
import Retrace.Text.Hex

/-!
# Symbols

Named addresses. A table of symbols gives the closest symbol at or before an address, and the
function that encloses it. A function without a size extends to the next function.
-/

namespace Retrace

/-- A named address. -/
structure Symbol where
  name : String
  address : UInt64
  /-- The size in bytes, zero if it is not known. -/
  size : UInt64
  isFunction : Bool
  deriving DecidableEq, Repr

/-- A symbol and the distance of an address from it. -/
structure Label where
  name : String
  offset : UInt64
  deriving DecidableEq, Repr

/-- The name and, unless it is zero, the distance. -/
def Label.text (l : Label) : String :=
  if l.offset = 0 then l.name else l.name ++ "+" ++ Text.hex l.offset.toNat

/-- The addresses of a function. -/
structure FunctionRange where
  start : UInt64
  /-- The first address after the function. -/
  stop : UInt64
  name : String
  deriving DecidableEq, Repr

namespace Symbol

/-- The order by address. Of symbols at one address, functions come last. -/
def le (a b : Symbol) : Bool :=
  a.address < b.address || (a.address = b.address && (!a.isFunction || b.isFunction))

/-- The ranges of functions that are given in ascending order. -/
def functionRanges : List Symbol → List FunctionRange
  | [] => []
  | f :: rest =>
    let stop :=
      if f.size ≠ 0 then addCapped f.address f.size
      else ((rest.map (·.address)).find? (f.address < ·)).getD maxWord
    ⟨f.address, stop, f.name⟩ :: functionRanges rest

end Symbol

/-- Symbols and functions in ascending order. -/
structure SymbolTable where
  symbols : List Symbol
  functions : List FunctionRange
  deriving Repr

namespace SymbolTable

/-- The table of symbols in any order. Of equal ones, later ones come later. -/
def ofList (symbols : List Symbol) : SymbolTable :=
  let symbols := symbols.mergeSort Symbol.le
  ⟨symbols, Symbol.functionRanges (symbols.filter (·.isFunction))⟩

def isEmpty (t : SymbolTable) : Bool :=
  t.symbols.isEmpty

/-- The last symbol at or before an address. -/
def label? (t : SymbolTable) (address : UInt64) : Option Label :=
  (Search.last? (·.address ≤ address) t.symbols).map fun s => ⟨s.name, address - s.address⟩

/-- The name of the last function that encloses an address. -/
def function? (t : SymbolTable) (address : UInt64) : Option String :=
  let functions := (Search.front (·.start ≤ address) t.functions).reverse
  (functions.find? (address < ·.stop)).map (·.name)

end SymbolTable

end Retrace
