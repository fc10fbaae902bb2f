import Retrace.Config.Value
import Retrace.Text.Blank
import Retrace.Text.Number
import Retrace.Text.Quoted

/-!
# Masks

A mask is a set of indices, of cores or channels. In settings it is an integer or a text: a
decimal number, a hexadecimal one after `0x`, or `all`. It is written as a text, since not all
formats have integers of 64 bits.
-/

namespace Retrace

/-- A set of indices, one bit each. Indices beyond 63 are in the mask of all bits only. -/
structure Mask where
  bits : UInt64
  deriving DecidableEq, Repr, Inhabited

/-- Why a value is no mask. -/
inductive MaskError where
  | negative (n : Int)
  /-- The text, without blanks at its ends, denotes no number of 64 bits. -/
  | badText (s : String)
  /-- The value is neither an integer nor a text. -/
  | wrongKind
  deriving DecidableEq, Repr

/-- What is wrong with a value that has the right kind. -/
def MaskError.message? : MaskError → Option String
  | negative n => some ("invalid value: integer `" ++ toString n ++ "`, " ++ expected)
  | badText s => some ("invalid value: string " ++ Text.quoted s ++ ", " ++ expected)
  | wrongKind => none
where
  expected : String := "expected a non-negative integer, a hex string or \"all\""

namespace Mask

/-- The mask of all indices. -/
def all : Mask := ⟨0xffffffffffffffff⟩

/-- Whether an index is in the mask. -/
def contains (m : Mask) (index : Nat) : Bool :=
  if index < 64 then m.bits.toNat.testBit index else m = all

/-- The text of the mask. -/
def text (m : Mask) : String :=
  Text.hex m.bits.toNat

/-- A letter in lower case; other characters stay as they are. -/
def lower (c : Char) : Char :=
  if 'A' ≤ c ∧ c ≤ 'Z' then Char.ofNat (c.toNat + 32) else c

/-- The number that characters denote. -/
def ofChars? (cs : List Char) : Option UInt64 :=
  if cs.map lower = ['a', 'l', 'l'] then some all.bits
  else
    match cs with
    | '0' :: 'x' :: digits | '0' :: 'X' :: digits => Text.unsigned? 16 digits
    | digits => Text.unsigned? 10 digits

/-- The mask that a text denotes; blanks at its ends do not count. -/
def ofText (s : String) : Except MaskError Mask :=
  let s := Text.trim s
  match ofChars? s.toList with
  | some bits => .ok ⟨bits⟩
  | none => .error (.badText s)

/-- The mask that a value denotes. -/
def ofSetting : Setting → Except MaskError Mask
  | .int n => if n < 0 then .error (.negative n) else .ok ⟨n.toNat.toUInt64⟩
  | .text s => ofText s
  | _ => .error .wrongKind

end Mask

end Retrace
