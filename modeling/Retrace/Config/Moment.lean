import Retrace.Text.Number

/-!
# Dates and times

Dates of the form `YYYY-MM-DD`, times of the form `hh:mm`, `hh:mm:ss` or `hh:mm:ss.fraction`, and
a date and a time with a `T` or a space between them, which may end with the distance to universal
time. The day must exist.
-/

namespace Retrace.Moment

/-- A number of a fixed count of digits, and what is behind it. No further digit may follow. -/
def number? (count : Nat) (cs : List Char) : Option (Nat × List Char) :=
  let digits := cs.takeWhile Char.isDigit
  if digits.length = count then (Text.digits? 10 digits).map (·, cs.drop count) else none

/-- What is behind a given character. -/
def behind? (c : Char) : List Char → Option (List Char)
  | [] => none
  | d :: cs => if d = c then some cs else none

/-- A number of two digits up to a greatest one, and what is behind it. -/
def part? (greatest : Nat) (cs : List Char) : Option (Nat × List Char) :=
  (number? 2 cs).bind fun (n, rest) => if n ≤ greatest then some (n, rest) else none

/-- Whether a year has a day more than others. -/
def isLeap (year : Nat) : Bool :=
  year % 4 = 0 && (year % 100 ≠ 0 || year % 400 = 0)

/-- The number of days in a month. -/
def daysIn (year month : Nat) : Nat :=
  match month with
  | 2 => if isLeap year then 29 else 28
  | 4 | 6 | 9 | 11 => 30
  | _ => 31

/-- What is behind a date. -/
def behindDate? (cs : List Char) : Option (List Char) := do
  let (year, cs) ← number? 4 cs
  let (month, cs) ← part? 12 (← behind? '-' cs)
  let (day, cs) ← part? (daysIn year month) (← behind? '-' cs)
  if month = 0 ∨ day = 0 then none else some cs

/-- What is behind the fraction of a second, if there is one. -/
def behindFraction? : List Char → Option (List Char)
  | '.' :: cs =>
    if (cs.takeWhile Char.isDigit).isEmpty then none else some (cs.dropWhile Char.isDigit)
  | cs => some cs

/-- What is behind the seconds, if there are any. A minute may have a leap second. -/
def behindSeconds? : List Char → Option (List Char)
  | ':' :: cs => (part? 60 cs).bind fun (_, rest) => behindFraction? rest
  | cs => some cs

/-- What is behind hours and minutes with a colon between them. -/
def behindMinutes? (cs : List Char) : Option (List Char) := do
  let (_, cs) ← part? 23 cs
  let (_, cs) ← part? 59 (← behind? ':' cs)
  return cs

/-- What is behind a time. -/
def behindTime? (cs : List Char) : Option (List Char) :=
  (behindMinutes? cs).bind behindSeconds?

/-- Whether characters are a distance to universal time, or none. -/
def isDistance : List Char → Bool
  | [] | ['Z'] | ['z'] => true
  | '+' :: cs | '-' :: cs => behindMinutes? cs = some []
  | _ => false

/-- Whether characters are a time, behind what separates it from a date. -/
def isTimeOfDay : List Char → Bool
  | [] => true
  | c :: cs => (c = 'T' || c = 't' || c = ' ') && (behindTime? cs).any isDistance

/-- Whether characters are a date, a time, or both. -/
def isMoment (cs : List Char) : Bool :=
  match behindDate? cs with
  | some rest => isTimeOfDay rest
  | none => behindTime? cs = some []

end Retrace.Moment
