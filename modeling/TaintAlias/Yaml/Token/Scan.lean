/-
  TaintAlias.Yaml.Token.Scan — a text cut into tokens.

  Whether a scalar or a collection is a key shows only at the colon behind it. Until then
  its first token is a candidate, at most one on every level of nesting, and no token from
  there on is handed out. A candidate lapses at the end of its line and after 1024 octets;
  one that stands where only a key can be must not lapse.

  `tokens` hands out the tokens in order. It ends with the end of the stream, or with a
  fault as soon as the next token cannot be read. A text is checked for characters that
  may not stand in it before it is read, one stretch of 16384 octets after another.
-/

import TaintAlias.Yaml.Scalar.Block
import TaintAlias.Yaml.Scalar.Flow
import TaintAlias.Yaml.Tag.Read

namespace TaintAlias.Yaml

/-- A place where a key may have begun. -/
structure Candidate where
  /-- The octets before it. -/
  index : Nat
  line : Nat
  column : Nat
  /-- The number of tokens before it. -/
  number : Nat
  /-- Only a key can stand here. -/
  required : Bool
  deriving DecidableEq, Repr

def Candidate.hasLapsed (k : Candidate) (c : Cursor) : Bool := k.line < c.line || k.index + 1024 < c.index

structure Scanner where
  cursor : Cursor
  /-- The column from which content belongs to the innermost block collection, less its
      own; zero outside of any. -/
  floor : Nat := 0
  /-- The floors of the block collections around. -/
  outer : List Nat := []
  candidate : Option Candidate := none
  /-- The candidates of the levels around the flow collection; empty outside of any. -/
  levels : List (Option Candidate) := []
  keyAllowed : Bool := true
  /-- The number of tokens handed out. -/
  passed : Nat := 0
  /-- The tokens read and not handed out. -/
  pending : List Token := []
  /-- What follows the text cannot be read. -/
  isCut : Bool := false

namespace Scanner

def inFlow (s : Scanner) : Bool := !s.levels.isEmpty

def push (s : Scanner) (t : Token) : Scanner := { s with pending := s.pending ++ [t] }

/-- Insert a token as the one of a given number. -/
def insertAt (s : Scanner) (number : Nat) (t : Token) : Scanner :=
  let n := number - s.passed
  { s with pending := s.pending.take n ++ t :: s.pending.drop n }

/-! ## Indentation -/

/-- Close blocks until the floor is at most `least`. -/
def closeFrom (least floor : Nat) : List Nat → Nat × List Nat × List Token
  | [] => (floor, [], [])
  | o :: outer =>
    if floor ≤ least then (floor, o :: outer, [])
    else
      let (floor, outer, ends) := closeFrom least o outer
      (floor, outer, .blockEnd :: ends)

/-- End the block collections indented further than a floor; in flow collections
    indentation means nothing. -/
def close (s : Scanner) (least : Nat) : Scanner :=
  if s.inFlow then s
  else
    let (floor, outer, ends) := closeFrom least s.floor s.outer
    { s with floor, outer, pending := s.pending ++ ends }

/-- Begin a block collection at a column, unless one there is open. -/
def openAt (s : Scanner) (column number : Nat) (t : Token) : Scanner :=
  if s.inFlow || column < s.floor then s
  else { s.insertAt number t with floor := column + 1, outer := s.floor :: s.outer }

def openHere (s : Scanner) (t : Token) : Scanner :=
  s.openAt s.cursor.column (s.passed + s.pending.length) t

/-! ## Candidates -/

def dropCandidate (s : Scanner) : Option Scanner :=
  if s.candidate.any (·.required) then none else some { s with candidate := none }

/-- Make the next token a candidate where a key is allowed. -/
def saveCandidate (s : Scanner) : Option Scanner :=
  if !s.keyAllowed then some s
  else
    s.dropCandidate.map fun s =>
      { s with candidate := some {
          index := s.cursor.index
          line := s.cursor.line
          column := s.cursor.column
          number := s.passed + s.pending.length
          required := !s.inFlow && s.floor == s.cursor.column + 1 } }

def lapse (c : Cursor) (k : Option Candidate) : Option Candidate :=
  if k.any (·.hasLapsed c) then none else k

/-- Forget lapsed candidates. -/
def dropLapsed (s : Scanner) : Option Scanner :=
  if (s.candidate :: s.levels).any (·.any fun k => k.hasLapsed s.cursor && k.required) then none
  else some { s with candidate := lapse s.cursor s.candidate, levels := s.levels.map (lapse s.cursor) }

/-! ## One token -/

/-- Past comments, breaks and blanks, and one byte order mark at the start of each line,
    which takes a column. Outside flow collections a new line allows keys. -/
def toContentFrom (flow : Bool) : Nat → Cursor → Bool → Cursor × Bool
  | 0, c, allowed => (c, allowed)
  | fuel + 1, c, allowed =>
    let c := if c.column == 0 && c.head? == some '\ufeff' then c.advance 1 else c
    let c := (c.dropWhile fun a => a == ' ' || ((flow || !allowed) && a == '\t')).dropComment
    if c.atBreak then toContentFrom flow fuel c.nextLine (allowed || !flow) else (c, allowed)

def toContent (s : Scanner) : Scanner :=
  let (cursor, keyAllowed) := toContentFrom s.inFlow (s.cursor.rest.length + 1) s.cursor s.keyAllowed
  { s with cursor, keyAllowed }

/-- Read the mark of a token of `n` characters. -/
def mark (s : Scanner) (t : Token) (n : Nat) (keyAllowed : Bool) : Scanner :=
  { s.push t with cursor := s.cursor.advance n, keyAllowed }

def streamEnd (s : Scanner) : Option Scanner :=
  let c := s.cursor
  let s := { s with cursor := if c.column = 0 then c else { c with column := 0, line := c.line + 1 } }
  (s.close 0).dropCandidate.map fun s => { s.push .streamEnd with keyAllowed := false }

def directive (s : Scanner) : Option Scanner :=
  match (s.close 0).dropCandidate, Yaml.directive s.cursor with
  | some s, some (t, cursor) => some { s.push t with cursor, keyAllowed := false }
  | _, _ => none

def documentMark (s : Scanner) (t : Token) : Option Scanner :=
  (s.close 0).dropCandidate.map fun s => s.mark t 3 false

def flowStart (s : Scanner) (t : Token) : Option Scanner :=
  s.saveCandidate.map fun s =>
    { s.mark t 1 true with candidate := none, levels := s.candidate :: s.levels }

def flowEnd (s : Scanner) (t : Token) : Option Scanner :=
  s.dropCandidate.map fun s =>
    match s.levels with
    | [] => s.mark t 1 false
    | k :: levels => { s.mark t 1 false with candidate := k, levels }

def flowEntry (s : Scanner) : Option Scanner := s.dropCandidate.map fun s => s.mark .flowEntry 1 true

def blockEntry (s : Scanner) : Option Scanner :=
  if s.inFlow || s.keyAllowed then
    (s.openHere .blockSequence).dropCandidate.map fun s => s.mark .blockEntry 1 true
  else none

def key (s : Scanner) : Option Scanner :=
  if s.inFlow || s.keyAllowed then
    (s.openHere .blockMapping).dropCandidate.map fun s => s.mark .key 1 (!s.inFlow)
  else none

def value (s : Scanner) : Option Scanner :=
  match s.candidate with
  | some k =>
    let s := (s.insertAt k.number .key).openAt k.column k.number .blockMapping
    some { s.mark .value 1 false with candidate := none }
  | none =>
    if s.inFlow || s.keyAllowed then some ((s.openHere .blockMapping).mark .value 1 (!s.inFlow)) else none

/-- A token that may be the first of a key. -/
def content (s : Scanner) (read : Option (Token × Cursor)) : Option Scanner :=
  match s.saveCandidate, read with
  | some s, some (t, cursor) => some { s.push t with cursor, keyAllowed := false }
  | _, _ => none

/-- The name behind the mark of an anchor or alias. -/
def name (c : Cursor) (t : String → Token) : Option (Token × Cursor) :=
  let word := (c.rest.drop 1).takeWhile isWord
  let c := c.advance (1 + word.length)
  if word.isEmpty || !(c.atWordEnd || c.head?.any ("?:,]\x7d%@\x60".toList.contains ·)) then none
  else some (t (String.ofList word), c)

def quoted (s : Scanner) (double : Bool) : Option Scanner :=
  s.content ((Yaml.quoted double s.cursor).map fun (text, c) =>
    (.scalar text (if double then .double else .single), c))

def block (s : Scanner) (folded : Bool) : Option Scanner :=
  match s.dropCandidate, Yaml.block folded s.floor s.cursor with
  | some s, some (text, cursor) =>
    some { s.push (.scalar text (if folded then .folded else .literal)) with cursor, keyAllowed := true }
  | _, _ => none

def plain (s : Scanner) : Option Scanner :=
  match s.saveCandidate, Yaml.plain s.inFlow s.floor s.cursor with
  | some s, some (text, broken, cursor) =>
    some { s.push (.scalar text .plain) with cursor, keyAllowed := broken }
  | _, _ => none

/-- Whether a plain scalar may begin with these characters. -/
def beginsPlain (flow : Bool) : List Char → Bool
  | [] => false
  | '-' :: cs => !cs.head?.any isBlank
  | '?' :: cs => !flow && !endsWord cs
  | ':' :: cs => !flow && !endsWord cs
  | a :: _ => !(isBlank a || isBreak a || isIndicator a)

/-- Read the token at the cursor, which stands on content. -/
def next (s : Scanner) : Option Scanner :=
  let c := s.cursor
  match c.rest with
  | [] => s.streamEnd
  | a :: cs =>
    if c.column == 0 && a == '%' then s.directive
    else if c.atLineOf '-' then s.documentMark .documentStart
    else if c.atLineOf '.' then s.documentMark .documentEnd
    else if a == '[' then s.flowStart .flowSequence
    else if a == '\x7b' then s.flowStart .flowMapping
    else if a == ']' then s.flowEnd .flowSequenceEnd
    else if a == '\x7d' then s.flowEnd .flowMappingEnd
    else if a == ',' then s.flowEntry
    else if a == '-' && endsWord cs then s.blockEntry
    else if a == '?' && (s.inFlow || endsWord cs) then s.key
    else if a == ':' && (s.inFlow || endsWord cs) then s.value
    else if a == '*' then s.content (name c .alias)
    else if a == '&' then s.content (name c .anchor)
    else if a == '!' then s.content (tag s.inFlow c)
    else if a == '|' && !s.inFlow then s.block false
    else if a == '>' && !s.inFlow then s.block true
    else if a == '\'' then s.quoted false
    else if a == '"' then s.quoted true
    else if beginsPlain s.inFlow c.rest then s.plain
    else none

/-- Whether at most `n` characters are left before a cut. -/
def nearsCut (s : Scanner) (n : Nat) : Bool := s.isCut && (s.cursor.rest.drop n).isEmpty

/-- Read one more token, with the block collections that end before it. The choice of a
    token takes four characters. -/
def step (s : Scanner) : Option Scanner :=
  match s.toContent.dropLapsed with
  | none => none
  | some s =>
    if s.nearsCut 3 then none
    else
      match (s.close (s.cursor.column + 1)).next with
      | none => none
      | some s => if s.nearsCut 0 then none else s.dropLapsed

/-- The pending tokens before the first candidate. -/
def ready (s : Scanner) : Nat :=
  (s.candidate :: s.levels).foldl (fun n k => match k with
    | some k => min n (k.number - s.passed)
    | none => n) s.pending.length

end Scanner

def tokensFrom : Nat → Scanner → List Token
  | 0, _ => [.fault]
  | fuel + 1, s =>
    match s.step with
    | none => [.fault]
    | some s =>
      let n := s.ready
      if s.pending.getLast? == some .streamEnd then s.pending
      else
        s.pending.take n ++
          tokensFrom fuel { s with pending := s.pending.drop n, passed := s.passed + n }

/-- The characters that fit into `room` octets, and the others. -/
def splitOctets (room : Nat) : List Char → List Char × List Char
  | [] => ([], [])
  | c :: cs =>
    if c.utf8Size ≤ room then
      let (fitting, rest) := splitOctets (room - c.utf8Size) cs
      (c :: fitting, rest)
    else ([], c :: cs)

/-- The text before the first stretch with a character that may not stand in a text. -/
def readableFrom : Nat → List Char → List Char
  | 0, _ => []
  | fuel + 1, cs =>
    let (stretch, rest) := splitOctets 16384 cs
    if stretch.all isAllowed then stretch ++ readableFrom fuel rest else []

/-- The tokens of a text. -/
def tokens (text : List Char) : List Token :=
  if text.all isAllowed then tokensFrom (text.length + 2) { cursor := { rest := text } }
  else
    let text := readableFrom text.length text
    tokensFrom (text.length + 2) { cursor := { rest := text }, isCut := true }

example : tokens "a: - b".toList = [.blockMapping, .key, .scalar "a" .plain, .value, .fault] := by
  decide +kernel
example : tokens "[a, 'b']".toList =
    [.flowSequence, .scalar "a" .plain, .flowEntry, .scalar "b" .single, .flowSequenceEnd, .streamEnd] := by
  decide +kernel
example : tokens "a: b\x07".toList = [.fault] := by decide +kernel
example : tokens "\ufeff--- a".toList = [.scalar "--- a" .plain, .streamEnd] := by decide +kernel

end TaintAlias.Yaml
