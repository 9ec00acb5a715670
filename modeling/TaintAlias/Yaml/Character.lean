/-
  TaintAlias.Yaml.Character — the classes of characters YAML distinguishes.

  Lines end at a line feed, a carriage return, the two together, a next line character,
  or a Unicode line or paragraph separator. Only space and tab are blanks.
-/

namespace TaintAlias.Yaml

def isBreak (c : Char) : Bool :=
  c == '\n' || c == '\r' || c == '\u0085' || c == '\u2028' || c == '\u2029'

def isBlank (c : Char) : Bool := c == ' ' || c == '\t'

/-- Whether a text may contain the character at all. -/
def isAllowed (c : Char) : Bool :=
  let n := c.toNat
  n == 0x9 || n == 0xA || n == 0xD || (0x20 ≤ n && n ≤ 0x7E) || n == 0x85 ||
  (0xA0 ≤ n && n ≤ 0xD7FF) || (0xE000 ≤ n && n ≤ 0xFFFD) || 0x10000 ≤ n

/-- Whether the character is written as it is; others need an escape. -/
def isPrintable (c : Char) : Bool :=
  let n := c.toNat
  n == 0xA || (0x20 ≤ n && n ≤ 0x7E) || (0xA0 ≤ n && n ≤ 0xD7FF) ||
  (0xE000 ≤ n && n ≤ 0xFFFD && n != 0xFEFF) || 0x10000 ≤ n

/-- The characters of anchors, handles and directive names. -/
def isWord (c : Char) : Bool := c.isAlphanum || c == '_' || c == '-'

/-- Whether nothing, a blank or a break comes next. -/
def endsWord : List Char → Bool
  | [] => true
  | c :: _ => isBlank c || isBreak c

/-- Whether a text ends or breaks its line here. -/
def endsLine : List Char → Bool
  | [] => true
  | c :: _ => isBreak c

/-- The brackets and the comma of the flow style. -/
def isFlowMark (c : Char) : Bool := c == ',' || c == '[' || c == ']' || c == '\x7b' || c == '\x7d'

/-- Characters that begin something other than a plain scalar. -/
def isIndicator (c : Char) : Bool :=
  isFlowMark c || c == '#' || c == '&' || c == '*' || c == '!' || c == '|' || c == '>' || c == '\'' ||
  c == '"' || c == '%' || c == '@' || c == '\x60'

/-- A break as it is kept: the separators stand for themselves, the others for a line feed. -/
def keptBreak (c : Char) : Char := if c == '\u2028' || c == '\u2029' then c else '\n'

end TaintAlias.Yaml
