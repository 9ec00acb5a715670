/-
  TaintAlias.Yaml.Scalar.Flow — plain and quoted scalars read from a text.

  Such a scalar may go on over several lines. Blanks around a break do not count, a
  single line feed stands for a space, and of several breaks the first is dropped; a
  separator character is never dropped.
-/

import TaintAlias.Number.Digits
import TaintAlias.Yaml.Cursor

namespace TaintAlias.Yaml

/-! ## Gaps -/

/-- Blanks and breaks between two words. -/
structure Gap where
  /-- The blanks before the first break. -/
  blanks : List Char := []
  /-- Whether the line ends within the gap. -/
  broken : Bool := false
  /-- The break that ends the line; an escaped one is not kept. -/
  first : List Char := []
  /-- The breaks after it. -/
  more : List Char := []

/-- What a gap contributes to the text. -/
def Gap.text (g : Gap) : List Char :=
  if !g.broken then g.blanks
  else if g.first == ['\n'] then if g.more.isEmpty then [' '] else g.more
  else g.first ++ g.more

def Gap.addBreak (g : Gap) (kept : List Char) : Gap :=
  if g.broken then { g with more := g.more ++ kept } else { g with broken := true, first := kept }

/-- Read a gap to its end. On lines after the first a tab may not stand before column
    `floor`. -/
def gapFrom (floor : Nat) : Nat → Cursor → Gap → Option (Gap × Cursor)
  | 0, c, g => some (g, c)
  | fuel + 1, c, g =>
    match c.head? with
    | none => some (g, c)
    | some a =>
      if isBlank a then
        if g.broken && c.column < floor && a == '\t' then none
        else gapFrom floor fuel (c.advance 1) (if g.broken then g else { g with blanks := g.blanks ++ [a] })
      else if isBreak a then
        gapFrom floor fuel c.nextLine (g.addBreak c.keptBreak)
      else some (g, c)

def gap (floor : Nat) (c : Cursor) (g : Gap) : Option (Gap × Cursor) := gapFrom floor c.rest.length c g

/-! ## Quoted scalars -/

/-- The character of a number, unless it is a surrogate or too large. -/
def char? (n : Nat) : Option Char := if n.isValidChar then some (Char.ofNat n) else none

/-- A character by its number in `n` digits, and how many characters that took. -/
def numbered? (cs : List Char) (n : Nat) : Option (Char × Nat) :=
  ((hexValue? cs n).bind char?).map fun c => (c, n + 2)

/-- The character an escape stands for and the length of the escape, given what comes
    after the backslash. -/
def unescape? : List Char → Option (Char × Nat)
  | '0' :: _ => some ('\x00', 2)
  | 'a' :: _ => some ('\x07', 2)
  | 'b' :: _ => some ('\x08', 2)
  | 't' :: _ => some ('\t', 2)
  | '\t' :: _ => some ('\t', 2)
  | 'n' :: _ => some ('\n', 2)
  | 'v' :: _ => some ('\x0b', 2)
  | 'f' :: _ => some ('\x0c', 2)
  | 'r' :: _ => some ('\r', 2)
  | 'e' :: _ => some ('\x1b', 2)
  | ' ' :: _ => some (' ', 2)
  | '"' :: _ => some ('"', 2)
  | '/' :: _ => some ('/', 2)
  | '\\' :: _ => some ('\\', 2)
  | 'N' :: _ => some ('\u0085', 2)
  | '_' :: _ => some ('\u00a0', 2)
  | 'L' :: _ => some ('\u2028', 2)
  | 'P' :: _ => some ('\u2029', 2)
  | 'x' :: cs => numbered? cs 2
  | 'u' :: cs => numbered? cs 4
  | 'U' :: cs => numbered? cs 8
  | _ => none

/-- Read a quoted scalar to its end, after the characters `acc` in reverse. -/
def quotedFrom (double : Bool) : Nat → Cursor → List Char → Option (String × Cursor)
  | 0, _, _ => none
  | fuel + 1, c, acc =>
    if c.atDocumentMark then none
    else
      match c.rest with
      | [] => none
      | a :: cs =>
        if isBlank a || isBreak a then
          match gap 0 c {} with
          | none => none
          | some (g, c) => quotedFrom double fuel c (g.text.reverse ++ acc)
        else if double then
          if a == '"' then some (String.ofList acc.reverse, c.advance 1)
          else if a == '\\' then
            if cs.head?.any isBreak then
              match gap 0 (c.advance 1).nextLine { broken := true } with
              | none => none
              | some (g, c) => quotedFrom double fuel c (g.text.reverse ++ acc)
            else
              match unescape? cs with
              | none => none
              | some (b, n) => quotedFrom double fuel (c.advance n) (b :: acc)
          else quotedFrom double fuel (c.advance 1) (a :: acc)
        else if a == '\'' then
          if cs.head? == some '\'' then quotedFrom double fuel (c.advance 2) ('\'' :: acc)
          else some (String.ofList acc.reverse, c.advance 1)
        else quotedFrom double fuel (c.advance 1) (a :: acc)

/-- The text of the quoted scalar that begins at the cursor. -/
def quoted (double : Bool) (c : Cursor) : Option (String × Cursor) :=
  quotedFrom double (c.rest.length + 1) (c.advance 1) []

/-! ## Plain scalars -/

/-- Whether a plain scalar ends before these characters, wherever it stands. -/
def endsPlain (flow : Bool) : List Char → Bool
  | [] => true
  | a :: cs => (a == ':' && endsWord cs) || (flow && isFlowMark a)

/-- A colon that is no key mark and no part of a word either. -/
def isStrayColon (flow : Bool) : List Char → Bool
  | ':' :: b :: _ => flow && (isFlowMark b || b == '?')
  | _ => false

/-- Read a plain scalar to its end and past the gap after it, after the characters `acc`
    in reverse; `g` is the gap before the cursor. Outside flow collections lines before
    column `floor` do not belong to it. The flag tells whether the last gap has a break. -/
def plainFrom (flow : Bool) (floor : Nat) : Nat → Cursor → List Char → Gap → Option (String × Bool × Cursor)
  | 0, _, _, _ => none
  | fuel + 1, c, acc, g =>
    match c.rest with
    | [] => some (String.ofList acc.reverse, g.broken, c)
    | a :: _ =>
      if isBlank a || isBreak a then
        match gap floor c {} with
        | none => none
        | some (g, c) =>
          if (!flow && c.column < floor) || c.atDocumentMark || c.head? == some '#' then
            some (String.ofList acc.reverse, g.broken, c)
          else plainFrom flow floor fuel c acc g
      else if isStrayColon flow c.rest then none
      else if endsPlain flow c.rest then some (String.ofList acc.reverse, g.broken, c)
      else plainFrom flow floor fuel (c.advance 1) (a :: (g.text.reverse ++ acc)) {}

def plain (flow : Bool) (floor : Nat) (c : Cursor) : Option (String × Bool × Cursor) :=
  plainFrom flow floor (2 * c.rest.length + 1) c [] {}

end TaintAlias.Yaml
