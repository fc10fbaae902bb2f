/-!
# Values of settings

What a file of settings can hold, whatever its format is. Integers are those of 64 bits, signed
or unsigned; all other numbers are `float`, whose value no setting uses, unless they are too great
to be read at all. A `SettingFormat` tells how the formats differ where values are read.
-/

namespace Retrace

/-- A value in a file of settings. -/
inductive Setting where
  | null
  | bool (b : Bool)
  | int (n : Int)
  | float
  /-- A number beyond the limits of its format. It cannot even be passed over. -/
  | beyond
  | text (s : String)
  /-- A date or a time. No setting uses them. -/
  | date
  | list (items : List Setting)
  | table (entries : List (String × Setting))
  deriving Repr, Inhabited

namespace Setting

/-- An integer if it has 64 bits, signed or unsigned, and else a float. -/
def ofInt (n : Int) : Setting :=
  if -0x8000000000000000 ≤ n ∧ n ≤ 0xffffffffffffffff then int n else float

mutual

/-- Whether no number in a value is beyond the limits. -/
def isReadable : Setting → Bool
  | beyond => false
  | list items => areReadable items
  | table entries => haveReadable entries
  | _ => true

/-- Whether all items of a list are readable. -/
def areReadable : List Setting → Bool
  | [] => true
  | s :: rest => s.isReadable && areReadable rest

/-- Whether all entries of a table have readable values. -/
def haveReadable : List (String × Setting) → Bool
  | [] => true
  | (_, s) :: rest => s.isReadable && haveReadable rest

end

/-- A truth value. -/
def bool? : Setting → Option Bool
  | bool b => some b
  | _ => none

/-- An integer from zero to `greatest`. -/
def nat? (greatest : Nat) : Setting → Option Nat
  | int n => if 0 ≤ n ∧ n ≤ greatest then some n.toNat else none
  | _ => none

/-- A text. -/
def text? : Setting → Option String
  | text s => some s
  | _ => none

/-- A value that may be null. -/
def nullable? {α : Type} (read : Setting → Option α) : Setting → Option (Option α)
  | null => some none
  | s => (read s).map some

end Setting

/-- How a format of settings says what is not the same in all of them. -/
structure SettingFormat where
  /-- Whether a list in place of a table may go on behind the fields of the table. -/
  allowsSurplus : Bool
  /-- Whether a value stands for nothing. -/
  isNothing : Setting → Bool

namespace SettingFormat

/-- The format that has a value for nothing, and where lists fit exactly. -/
def strict : SettingFormat where
  allowsSurplus := false
  isNothing
    | .null => true
    | _ => false

end SettingFormat

namespace Setting

/-- The values of named fields: a table with any of them, or a list that starts with the first
ones in order, or a date, which has no such fields. Of equal names in a table the last one
counts. Other entries of a table are passed over, so they must be readable; what is behind the
fields in a list is not even looked at. -/
def fields? (f : SettingFormat) (names : List String) : Setting → Option (List (String × Setting))
  | table entries =>
    if haveReadable (entries.filter fun e => !names.contains e.1) then some entries.reverse
    else none
  | list items =>
    if f.allowsSurplus || items.length ≤ names.length then some (names.zip items) else none
  | date => some []
  | _ => none

/-- The value of a field, or a default if it is missing. -/
def field {α : Type} (fields : List (String × Setting)) (name : String)
    (read : Setting → Option α) (default : α) : Option α :=
  match fields.lookup name with
  | none => some default
  | some s => read s

/-- The value of a field that must not be missing. -/
def field? {α : Type} (fields : List (String × Setting)) (name : String)
    (read : Setting → Option α) : Option α :=
  (fields.lookup name).bind read

end Setting

end Retrace
