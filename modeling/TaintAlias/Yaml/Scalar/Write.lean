/-
  TaintAlias.Yaml.Scalar.Write — a text as a scalar in a block collection.

  A text of several lines asks for a literal block, one that would not read back as text
  for single quotes, any other for the plain style. What it holds can forbid that: then
  single quotes take the place of the plain style, and double quotes, which hold every
  text, the place of the rest.
-/

import TaintAlias.Yaml.Character
import TaintAlias.Yaml.Scalar.Kind

namespace TaintAlias.Yaml

/-! ## What a text allows -/

/-- Whether two neighbours are found anywhere. -/
def hasPair (p q : Char → Bool) : List Char → Bool
  | a :: b :: cs => (p a && q b) || hasPair p q (b :: cs)
  | _ => false

def isSpaceChar (c : Char) : Bool := c == ' '

/-- Whether a colon or number sign inside the text would end it; `spaced` is whether white
    space comes before. -/
def hasInnerMark (spaced : Bool) : List Char → Bool
  | [] => false
  | c :: cs =>
    (c == ':' && endsWord cs) || (c == '#' && spaced) || hasInnerMark (isBlank c || isBreak c) cs

/-- Whether the text begins like something that is not a plain scalar. -/
def hasOuterMark : List Char → Bool
  | [] => false
  | c :: cs =>
    isIndicator c || ((c == '?' || c == ':' || c == '-') && endsWord cs) ||
    (c :: cs).take 3 == "---".toList || (c :: cs).take 3 == "...".toList

def needsEscapes (cs : List Char) : Bool := cs.any fun c => !isPrintable c

def endsWith (p : Char → Bool) (cs : List Char) : Bool := cs.getLast?.any p

def startsWith (p : Char → Bool) (cs : List Char) : Bool := cs.head?.any p

def allowsPlain (cs : List Char) : Bool :=
  !(cs.any isBreak || startsWith isSpaceChar cs || endsWith isSpaceChar cs || needsEscapes cs ||
    hasOuterMark cs || hasInnerMark false cs.tail)

def allowsSingle (cs : List Char) : Bool :=
  !(hasPair isBreak isSpaceChar cs || hasPair isSpaceChar isBreak cs || needsEscapes cs)

def allowsBlock (cs : List Char) : Bool :=
  !(cs.isEmpty || endsWith isSpaceChar cs || hasPair isSpaceChar isBreak cs || needsEscapes cs)

/-- The style a text is written in. -/
def styleOf (s : String) : Style :=
  let cs := s.toList
  if cs.contains '\n' then if allowsBlock cs then .literal else .double
  else if allowsPlain cs && kind s == .text s && !hasLeadingZero cs then .plain
  else if allowsSingle cs then .single
  else .double

/-! ## The styles -/

/-- The indentation of the lines of a scalar. -/
def margin : List Char := [' ', ' ']

/-- Lines of a single quoted scalar; `fresh` is whether the line is still empty. -/
def singleLines (fresh : Bool) : List Char → List Char
  | [] => if fresh then margin else []
  | c :: cs =>
    if isBreak c then c :: singleLines true cs
    else (if fresh then margin else []) ++ (if c == '\'' then [c, c] else [c]) ++ singleLines false cs

def upperHex (digits n : Nat) : List Char :=
  let ds := (Nat.toDigits 16 n).map Char.toUpper
  List.replicate (digits - ds.length) '0' ++ ds

def escaped (c : Char) : List Char :=
  match c with
  | '\x00' => ['\\', '0']
  | '\x07' => ['\\', 'a']
  | '\x08' => ['\\', 'b']
  | '\t' => ['\\', 't']
  | '\n' => ['\\', 'n']
  | '\x0b' => ['\\', 'v']
  | '\x0c' => ['\\', 'f']
  | '\r' => ['\\', 'r']
  | '\x1b' => ['\\', 'e']
  | '"' => ['\\', '"']
  | '\\' => ['\\', '\\']
  | '\u0085' => ['\\', 'N']
  | '\u2028' => ['\\', 'L']
  | '\u2029' => ['\\', 'P']
  | c =>
    let n := c.toNat
    if isPrintable c then [c]
    else if n < 0x100 then '\\' :: 'x' :: upperHex 2 n
    else if n < 0x10000 then '\\' :: 'u' :: upperHex 4 n
    else '\\' :: 'U' :: upperHex 8 n

/-- Indented lines of a literal block; a line without text stays empty. -/
def literalLines (fresh : Bool) : List Char → List Char
  | [] => []
  | c :: cs =>
    if isBreak c then c :: literalLines true cs
    else (if fresh then margin else []) ++ c :: literalLines false cs

/-- The header of a literal block: the indentation if the first line does not show it, and
    whether the last break is dropped or all of them kept. -/
def literalHeader (cs : List Char) : List Char :=
  let indentation := if startsWith (fun c => c == ' ' || isBreak c) cs then ['2'] else []
  let chomping :=
    match cs.reverse with
    | [] => ['-']
    | [c] => if isBreak c then ['+'] else ['-']
    | c :: d :: _ => if !isBreak c then ['-'] else if isBreak d then ['+'] else []
  '|' :: (indentation ++ chomping)

/-- A scalar of a given style with the end of its line. -/
def writeAs (style : Style) (cs : List Char) : List Char :=
  match style with
  | .single => '\'' :: (singleLines false cs ++ ['\'', '\n'])
  | .double => '"' :: (cs.flatMap escaped ++ ['"', '\n'])
  | .literal =>
    literalHeader cs ++ '\n' :: (literalLines true cs ++ (if endsWith isBreak cs then [] else ['\n']))
  | .plain | .folded => cs ++ ['\n']

/-- The scalar a text is written as, to the end of its last line. -/
def writeScalar (s : String) : List Char := writeAs (styleOf s) s.toList

example : writeScalar "it's" = "it's\n".toList ∧ writeScalar "a: b" = "'a: b'\n".toList := by
  decide +kernel
example : writeScalar "1e3" = "'1e3'\n".toList ∧ writeScalar "a\tb" = "\"a\\tb\"\n".toList := by
  decide +kernel
example : writeScalar "a\n\nb" = "|-\n  a\n\n  b\n".toList := by decide +kernel

end TaintAlias.Yaml
