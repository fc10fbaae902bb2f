/-!
# Decimal text

Numbers with a fixed number of decimal places. The value is rounded to the nearest one that has
so many places; of two that are equally near, the one with the even last digit is taken.
-/

namespace Retrace.Text

/-- A quotient rounded to the nearest number, halves to the even one. -/
def roundQuotient (num den : Nat) : Nat :=
  let quotient := num / den
  let twice := 2 * (num % den)
  if twice < den ∨ (twice = den ∧ quotient % 2 = 0) then quotient else quotient + 1

/-- A finite float that is not negative as an exact quotient, from the bits of its binary64
form. -/
def floatQuotient (x : Float) : Nat × Nat :=
  let bits := x.toBits.toNat
  let fraction := bits % (1 <<< 52)
  match (bits >>> 52) % (1 <<< 11) with
  | 0 => (fraction, 1 <<< 1074)
  | e => (((1 <<< 52) + fraction) <<< (e - 1075), 1 <<< (1075 - e))

/-- The decimal digits of a number, filled up with zeros to at least `width` digits. -/
def paddedDigits (width n : Nat) : List Char :=
  let digits := Nat.toDigits 10 n
  List.replicate (width - digits.length) '0' ++ digits

/-- The text of a number that is given in units of its last decimal place. -/
def placesText (places units : Nat) : String :=
  let one := Nat.pow 10 places
  toString (units / one) ++ "." ++ String.ofList (paddedDigits places (units % one))

/-- The text of a finite float that is not negative, with a fixed number of decimal places. -/
def fixedText (places : Nat) (x : Float) : String :=
  let (num, den) := floatQuotient x
  placesText places (roundQuotient (num * Nat.pow 10 places) den)

/-! ## A rounded quotient is a nearest number -/

theorem roundQuotient_near (num den : Nat) (h : 0 < den) :
    2 * (roundQuotient num den * den) ≤ 2 * num + den ∧
      2 * num ≤ 2 * (roundQuotient num den * den) + den := by
  have hm := Nat.div_add_mod num den
  have hl := Nat.mod_lt num h
  rw [Nat.mul_comm] at hm
  simp only [roundQuotient]
  split
  · omega
  · rw [Nat.add_mul]
    omega

theorem roundQuotient_half (num den : Nat) (h : 2 * (num % den) = den) :
    roundQuotient num den % 2 = 0 := by
  simp only [roundQuotient]
  split <;> omega

end Retrace.Text
