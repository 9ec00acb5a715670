/-
  TaintAlias.Yaml.Cursor — a place in a text.

  The structure of a YAML text depends on columns, so a cursor keeps, beside the
  characters still to come, how many octets of UTF-8 were passed, on which line it stands
  and how many characters of that line are behind it.
-/

import TaintAlias.Yaml.Character

namespace TaintAlias.Yaml

structure Cursor where
  rest : List Char
  index : Nat := 0
  line : Nat := 0
  column : Nat := 0
  deriving DecidableEq, Repr

namespace Cursor

/-- The octets of UTF-8 that characters take. -/
def octetCount (cs : List Char) : Nat := cs.foldl (fun n c => n + c.utf8Size) 0

/-- Past `n` characters of a line. -/
def advance (c : Cursor) (n : Nat) : Cursor :=
  { c with
    rest := c.rest.drop n
    index := c.index + octetCount (c.rest.take n)
    column := c.column + n }

/-- Past the characters of a line that satisfy `p`. -/
def dropWhile (c : Cursor) (p : Char → Bool) : Cursor := c.advance (c.rest.takeWhile p).length

def head? (c : Cursor) : Option Char := c.rest.head?

/-- Past a break, if there is one; a carriage return with a line feed is one break. -/
def nextLine (c : Cursor) : Cursor :=
  match c.rest with
  | '\r' :: '\n' :: rest => ⟨rest, c.index + 2, c.line + 1, 0⟩
  | b :: rest => if isBreak b then ⟨rest, c.index + b.utf8Size, c.line + 1, 0⟩ else c
  | [] => c

/-- The break at the cursor, as it is kept. -/
def keptBreak (c : Cursor) : List Char :=
  match c.rest with
  | b :: _ => if isBreak b then [Yaml.keptBreak b] else []
  | [] => []

def atBlank (c : Cursor) : Bool := c.head?.any isBlank

def atBreak (c : Cursor) : Bool := c.head?.any isBreak

def atWordEnd (c : Cursor) : Bool := endsWord c.rest

def atLineEnd (c : Cursor) : Bool := endsLine c.rest

/-- Whether a line of three equal characters `m` starts or ends a document here. -/
def atLineOf (c : Cursor) (m : Char) : Bool :=
  c.column == 0 && c.rest.take 3 == [m, m, m] && endsWord (c.rest.drop 3)

def atDocumentMark (c : Cursor) : Bool := c.atLineOf '-' || c.atLineOf '.'

/-- Past a comment, if there is one. -/
def dropComment (c : Cursor) : Cursor :=
  if c.head? == some '#' then c.dropWhile (fun a => !isBreak a) else c

/-- Past blanks and a comment, and the break after them: nothing else may stand there. -/
def restOfLine? (c : Cursor) : Option Cursor :=
  let c := (c.dropWhile isBlank).dropComment
  if c.atLineEnd then some c.nextLine else none

end Cursor

end TaintAlias.Yaml
