/-!
# Reading numbers

Unsigned numbers of 64 bits in decimal or hexadecimal digits of either case. A plus sign may
stand in front.
-/

namespace Retrace.Text

/-- The value of a digit of a base up to 16. -/
def digit? (base : Nat) (c : Char) : Option Nat :=
  let value :=
    if '0' ≤ c ∧ c ≤ '9' then c.toNat - '0'.toNat
    else if 'a' ≤ c ∧ c ≤ 'f' then c.toNat - 'a'.toNat + 10
    else if 'A' ≤ c ∧ c ≤ 'F' then c.toNat - 'A'.toNat + 10
    else base
  if value < base then some value else none

/-- The number that digits denote. -/
def ofDigits (base : Nat) (digits : List Nat) : Nat :=
  digits.foldl (fun n d => base * n + d) 0

/-- The number that one or more digits denote. -/
def digits? (base : Nat) (cs : List Char) : Option Nat :=
  if cs.isEmpty then none else (cs.mapM (digit? base)).map (ofDigits base)

/-- Characters without a plus sign in front. -/
def withoutPlus : List Char → List Char
  | '+' :: cs => cs
  | cs => cs

/-- An unsigned number of 64 bits. -/
def unsigned? (base : Nat) (cs : List Char) : Option UInt64 := do
  let n ← digits? base (withoutPlus cs)
  if n < UInt64.size then some n.toUInt64 else none

end Retrace.Text
