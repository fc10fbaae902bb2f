/-!
# Blanks

The Unicode property `White_Space`, and text without blanks at its ends.
-/

namespace Retrace.Text

/-- Whether a character is white space. -/
def isBlank (c : Char) : Bool :=
  (0x9 ≤ c.toNat && c.toNat ≤ 0xd) || (0x2000 ≤ c.toNat && c.toNat ≤ 0x200a) ||
    [0x20, 0x85, 0xa0, 0x1680, 0x2028, 0x2029, 0x202f, 0x205f, 0x3000].contains c.toNat

/-- A list without the blanks at its end. -/
def trimEnd (cs : List Char) : List Char :=
  (cs.reverse.dropWhile isBlank).reverse

/-- Text without the blanks at its ends. -/
def trim (s : String) : String :=
  String.ofList (trimEnd (s.toList.dropWhile isBlank))

end Retrace.Text
