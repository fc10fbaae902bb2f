import Retrace.Text.Hex
import Retrace.Text.Joining
import Retrace.Text.Unprinted

/-!
# Quoted text

Text in double quotes for one line of output. Quotes, backslashes, line ends, tabs and NUL are
written with a backslash; other characters that would not show, or only on the character before
them, by their number.
-/

namespace Retrace.Text.Quoted

/-- How a character is written between quotes. -/
def escape (c : Char) : String :=
  if c = '\x00' then "\\0"
  else if c = '\t' then "\\t"
  else if c = '\r' then "\\r"
  else if c = '\n' then "\\n"
  else if c = '\\' then "\\\\"
  else if c = '"' then "\\\""
  else if isJoining c || isUnprinted c then "\\u\x7b" ++ hexDigits c.toNat ++ "\x7d"
  else c.toString

end Retrace.Text.Quoted

namespace Retrace.Text

/-- Text in double quotes. -/
def quoted (s : String) : String :=
  "\"" ++ String.join (s.toList.map Quoted.escape) ++ "\""

end Retrace.Text
