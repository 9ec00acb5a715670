/-
  TaintAlias.Text.Blank — white space, and texts that hold nothing else.

  The class is the Unicode property White_Space: 25 characters, a fixed set. A text is
  blank when trimming them from both ends leaves nothing.
-/

namespace TaintAlias.Text

def isSpace (c : Char) : Bool :=
  let n := c.toNat
  (0x9 ≤ n && n ≤ 0xD) || n == 0x20 || n == 0x85 || n == 0xA0 || n == 0x1680 ||
  (0x2000 ≤ n && n ≤ 0x200A) || n == 0x2028 || n == 0x2029 || n == 0x202F || n == 0x205F ||
  n == 0x3000

def isBlank (s : String) : Bool := s.toList.all isSpace

example : isBlank "" = true ∧ isBlank " \t\u3000" = true ∧ isBlank " x " = false := by decide

end TaintAlias.Text
