import SchemaBindings.Text.Digits
import SchemaBindings.Text.Printable

namespace SchemaBindings.Text

/-- One character between double quotes: quotes and backslashes are escaped, characters that show
a glyph stand for themselves, and all others are named or numbered. -/
def quotedChar (c : Char) : String :=
  if c = '"' then "\\\""
  else if c = '\\' then "\\\\"
  else if isPrintable c then String.singleton c
  else match c.toNat with
    | 7 => "\\a"
    | 8 => "\\b"
    | 9 => "\\t"
    | 10 => "\\n"
    | 11 => "\\v"
    | 12 => "\\f"
    | 13 => "\\r"
    | n =>
      if n < 32 ∨ n = 127 then "\\x" ++ hexPadded 2 n
      else if n < 0x10000 then "\\u" ++ hexPadded 4 n
      else "\\U" ++ hexPadded 8 n

/-- A text as a double-quoted literal. -/
def quote (s : String) : String :=
  "\"" ++ String.join (s.toList.map quotedChar) ++ "\""

end SchemaBindings.Text
