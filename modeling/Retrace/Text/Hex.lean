/-!
# Hexadecimal text

Numbers in lower case hexadecimal digits: bare, marked with `0x`, signed, or filled up with
zeros to a fixed number of digits.
-/

namespace Retrace.Text

/-- The hexadecimal digits of a number, without leading zeros; `0` is one digit. -/
def hexDigits (n : Nat) : String :=
  String.ofList (Nat.toDigits 16 n)

/-- A number in hexadecimal, marked with `0x`. -/
def hex (n : Nat) : String :=
  "0x" ++ hexDigits n

/-- A signed number in hexadecimal: the sign stands before the mark. -/
def signedHex (n : Int) : String :=
  if n < 0 then "-" ++ hex n.natAbs else hex n.toNat

/-- The hexadecimal digits of a number, filled up with zeros to at least `width` digits. -/
def paddedHex (width n : Nat) : String :=
  let digits := Nat.toDigits 16 n
  String.ofList (List.replicate (width - digits.length) '0' ++ digits)

end Retrace.Text
