/-!
# Bisection

Tables of addresses are sorted, so that the entries up to an address are found by halving.
-/

namespace Retrace.Search

variable {α : Type}

/-- Halves a stretch of the list until one element is left, and gives the place of that element or,
if it has the property, the place behind it. -/
def bisect (p : α → Bool) (xs : List α) (base size : Nat) : Nat :=
  if 1 < size then
    let half := size / 2
    let base := if (xs[base + half]?).any p then base + half else base
    bisect p xs base (size - half)
  else if (xs[base]?).any p then base + 1 else base
termination_by size

/-- The number of elements with the property, provided that none of them is behind one without. -/
def partitionPoint (p : α → Bool) (xs : List α) : Nat :=
  bisect p xs 0 xs.length

/-- The elements in front of the partition point. -/
def front (p : α → Bool) (xs : List α) : List α :=
  xs.take (partitionPoint p xs)

/-- The last element in front of the partition point, if there is one. -/
def last? (p : α → Bool) (xs : List α) : Option α :=
  match partitionPoint p xs with
  | 0 => none
  | i + 1 => xs[i]?

end Retrace.Search
