/-
  TaintAlias.Text.Quoted — a text between double quotes, as error messages show it.

  Tab, line feed, carriage return, NUL, the quote and the backslash have escapes of two
  characters; a hidden character is shown by its number in braces; all else stands for
  itself.
-/

import TaintAlias.Text.Hidden

namespace TaintAlias.Text

/-- The number of a character in lowercase hexadecimal, without leading zeros. -/
def hexNumber (c : Char) : String := String.ofList (Nat.toDigits 16 c.toNat)

def escapeChar (c : Char) : String :=
  match c with
  | '\x00' => "\\0"
  | '\t' => "\\t"
  | '\n' => "\\n"
  | '\r' => "\\r"
  | '"' => "\\\""
  | '\\' => "\\\\"
  | c => if isHidden c then "\\u\x7b" ++ hexNumber c ++ "\x7d" else c.toString

def quoted (s : String) : String := "\"" ++ String.join (s.toList.map escapeChar) ++ "\""

end TaintAlias.Text
