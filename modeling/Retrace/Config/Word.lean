import Retrace.Config.Moment
import Retrace.Config.Value

/-!
# Values without quotes

Truth values, integers, floats and dates in a configuration file. Underscores may group the digits
of numbers. The limits of numbers are 128 bits for integers and the greatest float for floats.
-/

namespace Retrace.Word

/-! ## Integers -/

/-- Digits without the marks that separate groups of them. -/
def ungrouped? (cs : List Char) : Option (List Char) :=
  if cs.head? = some '_' ∨ cs.getLast? = some '_' ∨ (cs.zip cs.tail).contains ('_', '_') then none
  else some (cs.filter (· ≠ '_'))

/-- The number that grouped digits denote. -/
def grouped? (base : Nat) (cs : List Char) : Option Nat :=
  (ungrouped? cs).bind (Text.digits? base)

/-- The number that decimal digits denote. Only zero starts with a zero. -/
def decimal? (cs : List Char) : Option Nat :=
  match cs with
  | '0' :: _ :: _ => none
  | _ => grouped? 10 cs

/-- A number that may have a sign in front. -/
def signed? (number? : List Char → Option Nat) : List Char → Option Int
  | '+' :: cs => (number? cs).map Int.ofNat
  | '-' :: cs => (number? cs).map fun n => -(n : Int)
  | cs => (number? cs).map Int.ofNat

/-- The integer that a word denotes. -/
def integer? : List Char → Option Int
  | '0' :: 'x' :: cs => (grouped? 16 cs).map Int.ofNat
  | '0' :: 'o' :: cs => (grouped? 8 cs).map Int.ofNat
  | '0' :: 'b' :: cs => (grouped? 2 cs).map Int.ofNat
  | cs => signed? decimal? cs

/-- Whether an integer has at most 128 bits, signed or unsigned. -/
def isAllowed (n : Int) : Bool :=
  -0x80000000000000000000000000000000 ≤ n && n ≤ 0xffffffffffffffffffffffffffffffff

/-! ## Floats -/

/-- The least number that is rounded to infinity: half a unit beyond the greatest float. -/
def floatLimit : Nat :=
  ((1 <<< 54) - 1) <<< 970

/-- Whether a number, given by its digits and the power of ten of the last one, is rounded to a
finite float. -/
def isFinite (significand : Nat) (scale : Int) : Bool :=
  let magnitude := (Nat.toDigits 10 significand).length + scale
  if significand = 0 ∨ magnitude ≤ 308 then true
  else if 310 ≤ magnitude then false
  else significand * Nat.pow 10 scale.toNat < floatLimit * Nat.pow 10 (-scale).toNat

/-- The digits of a fraction, behind its point. -/
def fraction? : List Char → Option (List Char)
  | [] => some []
  | _ :: cs => (ungrouped? cs).bind fun digits => if digits.isEmpty then none else some digits

/-- The number behind the letter of an exponent. -/
def exponent? : List Char → Option Int
  | [] => some 0
  | _ :: cs => signed? (grouped? 10) cs

/-- Whether characters without a sign, which are a float with a fraction or an exponent, denote a
finite one. -/
def isFiniteFraction? (cs : List Char) : Option Bool :=
  let mantissa := cs.takeWhile fun c => c ≠ 'e' && c ≠ 'E'
  let whole := mantissa.takeWhile (· ≠ '.')
  let fraction := mantissa.drop whole.length
  let exponent := cs.drop mantissa.length
  if fraction.isEmpty && exponent.isEmpty then none
  else do
    let n ← decimal? whole
    let digits ← fraction? fraction
    let e ← exponent? exponent
    let significand ← Text.digits? 10 (Nat.toDigits 10 n ++ digits)
    return isFinite significand (e - digits.length)

/-- Characters without a sign in front. -/
def withoutSign : List Char → List Char
  | '+' :: cs | '-' :: cs => cs
  | cs => cs

/-- The value of a float, which is beyond the limits if its digits denote no finite one. -/
def float? (cs : List Char) : Option Setting :=
  let cs := withoutSign cs
  if cs = ['i', 'n', 'f'] ∨ cs = ['n', 'a', 'n'] then some .float
  else (isFiniteFraction? cs).map fun isFinite => if isFinite then .float else .beyond

end Retrace.Word

namespace Retrace

/-- The value that a word denotes. Dates may have a space in them. -/
def Setting.ofWord? (cs : List Char) : Option Setting :=
  if cs = ['t', 'r', 'u', 'e'] then some (.bool true)
  else if cs = ['f', 'a', 'l', 's', 'e'] then some (.bool false)
  else
    match Word.integer? cs with
    | some n => some (if Word.isAllowed n then .ofInt n else .beyond)
    | none => Word.float? cs <|> (if Moment.isMoment cs then some .date else none)

end Retrace
