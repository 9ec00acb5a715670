/-
  TaintAlias.Yaml.Scalar.Block — literal and folded scalars read from a text.

  The lines of the scalar are those indented at least as far as its first line of text,
  or as far as the header says. A literal scalar keeps its breaks; a folded one joins
  neighbouring lines that do not begin with a blank. The header also says what becomes of
  the breaks at the end: one is kept, or none, or all.
-/

import TaintAlias.Yaml.Cursor

namespace TaintAlias.Yaml

inductive Chomping where
  | strip
  | clip
  | keep
  deriving DecidableEq, Repr

/-- What stands behind the mark of a block scalar. -/
structure BlockHeader where
  chomping : Chomping := .clip
  /-- The stated indentation. -/
  indentation : Option Nat := none

def chomping? : Char → Option Chomping
  | '+' => some .keep
  | '-' => some .strip
  | _ => none

/-- The chomping mark at the cursor. -/
def readChomping (c : Cursor) : Option Chomping × Cursor :=
  match c.head?.bind chomping? with
  | some m => (some m, c.advance 1)
  | none => (none, c)

/-- The digit at the cursor; zero is none. -/
def readIndentation (c : Cursor) : Option (Option Nat × Cursor) :=
  match c.head? with
  | some a =>
    if a == '0' then none
    else if a.isDigit then some (some (a.toNat - 48), c.advance 1)
    else some (none, c)
  | none => some (none, c)

/-- A header: a chomping mark and a digit in either order. -/
def blockHeader (c : Cursor) : Option (BlockHeader × Cursor) :=
  let (first, c) := readChomping c
  match readIndentation c with
  | none => none
  | some (indentation, c) =>
    match first with
    | some chomping => some (⟨chomping, indentation⟩, c)
    | none =>
      if indentation.isNone then some ({}, c)
      else
        let (second, c) := readChomping c
        some (⟨second.getD .clip, indentation⟩, c)

/-- Lines without text. -/
structure EmptyLines where
  breaks : List Char
  /-- The furthest column any of them, or the spaces before the first text, reaches. -/
  widest : Nat
  stop : Cursor

/-- Read lines without text; `indent` is how many spaces at most belong to each, none if
    all do. -/
def emptyLinesFrom (indent : Option Nat) : Nat → Cursor → List Char → Nat → Option EmptyLines
  | 0, c, breaks, widest => some ⟨breaks, widest, c⟩
  | fuel + 1, c, breaks, widest =>
    let spaces := (c.rest.takeWhile (· == ' ')).length
    let c := c.advance (match indent with
      | none => spaces
      | some n => min spaces (n - c.column))
    let widest := max widest c.column
    if c.head? == some '\t' && indent.all (fun n => decide (c.column < n)) then none
    else if c.atBreak then emptyLinesFrom indent fuel c.nextLine (breaks ++ c.keptBreak) widest
    else some ⟨breaks, widest, c⟩

def emptyLines (indent : Option Nat) (c : Cursor) : Option EmptyLines :=
  emptyLinesFrom indent (c.rest.length + 1) c [] 0

/-- The lines of a block scalar read so far. -/
structure BlockText where
  text : List Char := []
  /-- The break after the last line. -/
  lastBreak : List Char := []
  /-- The breaks of the empty lines after it. -/
  breaks : List Char := []
  /-- The last line begins with a blank. -/
  afterBlank : Bool := false

/-- The break between two lines of text: a folded line feed between lines that do not
    begin with a blank becomes a space, or nothing if empty lines follow. -/
def BlockText.joint (t : BlockText) (folded blank : Bool) : List Char :=
  if folded && t.lastBreak == ['\n'] && !t.afterBlank && !blank then
    if t.breaks.isEmpty then [' '] else t.breaks
  else t.lastBreak ++ t.breaks

/-- Read lines at column `indent`. -/
def blockLines (folded : Bool) (indent : Nat) : Nat → Cursor → BlockText → Option (BlockText × Cursor)
  | 0, c, t => some (t, c)
  | fuel + 1, c, t =>
    if c.column != indent || c.rest.isEmpty then some (t, c)
    else
      let blank := c.atBlank
      let line := c.rest.takeWhile fun a => !isBreak a
      let ending := c.advance line.length
      match emptyLines (some indent) ending.nextLine with
      | none => none
      | some e =>
        blockLines folded indent fuel e.stop
          { text := t.text ++ t.joint folded blank ++ line
            lastBreak := ending.keptBreak
            breaks := e.breaks
            afterBlank := blank }

/-- The text of the block scalar whose mark is at the cursor; `floor` is the least column
    of its lines, and the column from which a stated indentation counts is the one before. -/
def block (folded : Bool) (floor : Nat) (c : Cursor) : Option (String × Cursor) :=
  match blockHeader (c.advance 1) with
  | none => none
  | some (header, c) =>
    match c.restOfLine? with
    | none => none
    | some c =>
      let stated := header.indentation.map (· + (floor - 1))
      match emptyLines stated c with
      | none => none
      | some e =>
        let indent := stated.getD (max (max e.widest floor) 1)
        match blockLines folded indent (c.rest.length + 1) e.stop { breaks := e.breaks } with
        | none => none
        | some (t, c) =>
          let ending :=
            match header.chomping with
            | .strip => []
            | .clip => t.lastBreak
            | .keep => t.lastBreak ++ t.breaks
          some (String.ofList (t.text ++ ending), c)

end TaintAlias.Yaml
