/-
  TaintAlias.Yaml.Tag.Read — tags and directives read from a text.

  A tag is a handle and a suffix: `!!bool` has the handle `!!`, `!name` the handle `!`, a
  tag in angle brackets none. Octets of a suffix may be written in hexadecimal after a
  percent sign, in groups of a leading octet and as many further ones as it calls for.
-/

import TaintAlias.Number.Digits
import TaintAlias.Yaml.Cursor
import TaintAlias.Yaml.Token

namespace TaintAlias.Yaml

/-- Characters of a tag; brackets and commas only where nothing else can be meant. -/
def isTagChar (bracketed : Bool) (c : Char) : Bool :=
  isWord c || ";/?:@&=+$.%!~*'()".toList.contains c || (bracketed && ",[]".toList.contains c)

/-- The octet written by a percent sign and two digits. -/
def octet? : List Char → Option Nat
  | '%' :: cs => hexValue? cs 2
  | _ => none

/-- `n` further octets of a group. -/
def moreOctets : Nat → Cursor → Option (List UInt8 × Cursor)
  | 0, c => some ([], c)
  | n + 1, c =>
    match octet? c.rest with
    | none => none
    | some o =>
      if o / 64 = 2 then (moreOctets n (c.advance 3)).map fun (os, c) => (o.toUInt8 :: os, c) else none

/-- How many octets follow a leading one. -/
def followers? (o : Nat) : Option Nat :=
  if o < 0x80 then some 0
  else if o / 32 = 6 then some 1
  else if o / 16 = 14 then some 2
  else if o / 8 = 30 then some 3
  else none

/-- A group of octets. -/
def octetGroup (c : Cursor) : Option (List UInt8 × Cursor) :=
  match octet? c.rest with
  | none => none
  | some o =>
    match followers? o with
    | none => none
    | some n => (moreOctets n (c.advance 3)).map fun (os, c) => (o.toUInt8 :: os, c)

/-- The longest run of tag characters, after `acc` in reverse. -/
def tagTextFrom (bracketed : Bool) : Nat → Cursor → List UInt8 → Option (List UInt8 × Cursor)
  | 0, c, acc => some (acc.reverse, c)
  | fuel + 1, c, acc =>
    match c.head? with
    | some '%' =>
      match octetGroup c with
      | none => none
      | some (os, c) => tagTextFrom bracketed fuel c (os.reverse ++ acc)
    | some a =>
      if isTagChar bracketed a then tagTextFrom bracketed fuel (c.advance 1) (a.toUInt8 :: acc)
      else some (acc.reverse, c)
    | none => some (acc.reverse, c)

def tagText (bracketed : Bool) (c : Cursor) : Option (List UInt8 × Cursor) :=
  tagTextFrom bracketed c.rest.length c []

/-- An exclamation mark, word characters, and perhaps another exclamation mark. -/
def tagHandle (c : Cursor) : List Char × Cursor :=
  let word := (c.rest.drop 1).takeWhile isWord
  let c := c.advance (1 + word.length)
  if c.head? == some '!' then ('!' :: (word ++ ['!']), c.advance 1) else ('!' :: word, c)

/-- A handle that stands for something else. -/
def isNamedHandle (handle : List Char) : Bool := 2 ≤ handle.length && handle.getLast? == some '!'

def tag (flow : Bool) (c : Cursor) : Option (Token × Cursor) :=
  let read : Option (Token × Cursor) :=
    if c.rest.drop 1 |>.head? |>.any (· == '<') then
      match tagText true (c.advance 2) with
      | none => none
      | some (text, c) =>
        if text.isEmpty || c.head? != some '>' then none
        else some (.tag "" (.ofOctets text), c.advance 1)
    else
      let (handle, c) := tagHandle c
      match tagText false c with
      | none => none
      | some (text, c) =>
        if isNamedHandle handle then
          if text.isEmpty then none else some (.tag (String.ofList handle) (.ofOctets text), c)
        else
          let suffix := Tag.ofOctets ((handle.drop 1).map Char.toUInt8 ++ text)
          some (if suffix.octets.isEmpty then .tag "" ⟨[Tag.mark]⟩ else .tag "!" suffix, c)
  match read with
  | none => none
  | some (t, c) => if (flow && c.head? == some ',') || c.atWordEnd then some (t, c) else none

/-! ## Directives -/

/-- A number of at most nine digits. -/
def versionNumber (c : Cursor) : Option (Nat × Cursor) :=
  let ds := c.rest.takeWhile Char.isDigit
  if ds.isEmpty || 9 < ds.length then none
  else (number? 10 ds).map fun n => (n, c.advance ds.length)

def versionDirective (c : Cursor) : Option (Token × Cursor) :=
  match versionNumber c with
  | none => none
  | some (major, c) =>
    if c.head? != some '.' then none
    else (versionNumber (c.advance 1)).map fun (minor, c) => (.version major minor, c)

def handleDirective (c : Cursor) : Option (Token × Cursor) :=
  if c.head? != some '!' then none
  else
    let (name, c) := tagHandle c
    if name != ['!'] && !isNamedHandle name then none
    else if !c.atBlank then none
    else
      match tagText true (c.dropWhile isBlank) with
      | none => none
      | some (text, c) =>
        if text.isEmpty || !c.atWordEnd then none
        else some (.handle (String.ofList name) (.ofOctets text), c)

/-- The directive whose percent sign is at the cursor, and its line. -/
def directive (c : Cursor) : Option (Token × Cursor) :=
  let c := c.advance 1
  let name := c.rest.takeWhile isWord
  let c := c.advance name.length
  if !c.atWordEnd then none
  else
    let c := c.dropWhile isBlank
    let read :=
      if name == "YAML".toList then versionDirective c
      else if name == "TAG".toList then handleDirective c
      else none
    match read with
    | none => none
    | some (t, c) => c.restOfLine?.map fun c => (t, c)

end TaintAlias.Yaml
