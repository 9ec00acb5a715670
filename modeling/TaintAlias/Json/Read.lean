/-
  TaintAlias.Json.Read — JSON values read from a text.

  Each reader starts where its part begins and gives what it read and the characters
  behind it. The fields of an object are kept in the order of their names, and of those
  with one name the last.
-/

import TaintAlias.Json.Numeral
import TaintAlias.Number.Digits

namespace TaintAlias.Json

def isSpace (c : Char) : Bool := c == ' ' || c == '\t' || c == '\n' || c == '\r'

def dropSpace (cs : List Char) : List Char := cs.dropWhile isSpace

/-! ## Texts -/

def isHighHalf (n : Nat) : Bool := 0xD800 ≤ n && n < 0xDC00

def isLowHalf (n : Nat) : Bool := 0xDC00 ≤ n && n < 0xE000

/-- A character by its number in four digits, or by the numbers of its two halves. -/
def numbered? (cs : List Char) : Option (Char × List Char) :=
  match hexValue? cs 4, cs.drop 4 with
  | some high, '\\' :: 'u' :: rest =>
    match hexValue? rest 4 with
    | some low =>
      if isHighHalf high && isLowHalf low then
        some (Char.ofNat (0x10000 + (high - 0xD800) * 1024 + (low - 0xDC00)), rest.drop 4)
      else if isHighHalf high || isLowHalf high then none
      else some (Char.ofNat high, '\\' :: 'u' :: rest)
    | none => none
  | some n, rest => if isHighHalf n || isLowHalf n then none else some (Char.ofNat n, rest)
  | none, _ => none

/-- What an escape stands for, given what comes after the backslash. -/
def unescape? : List Char → Option (Char × List Char)
  | 'u' :: rest => numbered? rest
  | 'n' :: rest => some ('\n', rest)
  | 't' :: rest => some ('\t', rest)
  | 'r' :: rest => some ('\r', rest)
  | 'b' :: rest => some ('\x08', rest)
  | 'f' :: rest => some ('\x0c', rest)
  | c :: rest => if c == '"' || c == '\\' || c == '/' then some (c, rest) else none
  | [] => none

/-- The text up to the closing quote, after the characters `acc` in reverse. -/
def textFrom? : Nat → List Char → List Char → Option (String × List Char)
  | 0, _, _ => none
  | _, _, [] => none
  | fuel + 1, acc, c :: rest =>
    if c == '"' then some (String.ofList acc.reverse, rest)
    else if c == '\\' then
      match unescape? rest with
      | some (c, rest) => textFrom? fuel (c :: acc) rest
      | none => none
    else if c.toNat < 0x20 then none
    else textFrom? fuel (c :: acc) rest

/-- The text whose opening quote was passed. -/
def text? (cs : List Char) : Option (String × List Char) := textFrom? (cs.length + 1) [] cs

/-! ## Numbers -/

def digitsOf (cs : List Char) : List Nat := (cs.takeWhile Char.isDigit).filterMap digit?

def afterDigits (cs : List Char) : List Char := cs.dropWhile Char.isDigit

/-- The digits after a point, if there is one; then at least one follows. -/
def part? : List Char → Option (List Nat × List Char)
  | '.' :: rest => if (digitsOf rest).isEmpty then none else some (digitsOf rest, afterDigits rest)
  | rest => some ([], rest)

/-- The exponent, if there is one. -/
def exponent? (cs : List Char) : Option (Option Int × List Char) :=
  match cs with
  | [] => some (none, [])
  | c :: rest =>
    if c == 'e' || c == 'E' then
      let (neg, rest) := match rest with
        | '-' :: rest => (true, rest)
        | '+' :: rest => (false, rest)
        | rest => (false, rest)
      match number? 10 (rest.takeWhile Char.isDigit) with
      | some n => some (some (if neg then -n else n), afterDigits rest)
      | none => none
    else some (none, cs)

/-- A numeral: no zero stands before another digit. -/
def numeral? (cs : List Char) : Option (Numeral × List Char) :=
  let (neg, cs) := match cs with
    | '-' :: cs => (true, cs)
    | cs => (false, cs)
  match digitsOf cs with
  | [] => none
  | 0 :: _ :: _ => none
  | whole =>
    match part? (afterDigits cs) with
    | none => none
    | some (part, cs) => (exponent? cs).map fun (exp, cs) => (⟨neg, whole, part, exp⟩, cs)

/-! ## Values -/

/-- Put a field in its place by name, unless one of its name is there. -/
def addField (f : String × Json) : List (String × Json) → List (String × Json)
  | [] => [f]
  | g :: rest =>
    if f.1 = g.1 then g :: rest
    else if f.1 < g.1 then f :: g :: rest
    else g :: addField f rest

/-- The last field of every name, by name. -/
def byName (fields : List (String × Json)) : List (String × Json) := fields.foldr addField []

mutual

def valueFrom? : Nat → List Char → Option (Json × List Char)
  | 0, _ => none
  | fuel + 1, cs =>
    match cs with
    | 'n' :: 'u' :: 'l' :: 'l' :: rest => some (.null, rest)
    | 't' :: 'r' :: 'u' :: 'e' :: rest => some (.bool true, rest)
    | 'f' :: 'a' :: 'l' :: 's' :: 'e' :: rest => some (.bool false, rest)
    | '"' :: rest => (text? rest).map fun (s, rest) => (.text s, rest)
    | '[' :: rest =>
      match dropSpace rest with
      | ']' :: rest => some (.array [], rest)
      | rest => (itemsFrom? fuel rest).map fun (items, rest) => (.array items, rest)
    | '\x7b' :: rest =>
      match dropSpace rest with
      | '\x7d' :: rest => some (.object [], rest)
      | rest => (fieldsFrom? fuel rest).map fun (fields, rest) => (.object (byName fields), rest)
    | cs =>
      match numeral? cs with
      | some (n, rest) => n.value?.map fun v => (v, rest)
      | none => none

/-- The items of an array, to its end. -/
def itemsFrom? : Nat → List Char → Option (List Json × List Char)
  | 0, _ => none
  | fuel + 1, cs =>
    match valueFrom? fuel cs with
    | none => none
    | some (v, rest) =>
      match dropSpace rest with
      | ',' :: rest => (itemsFrom? fuel (dropSpace rest)).map fun (items, rest) => (v :: items, rest)
      | ']' :: rest => some ([v], rest)
      | _ => none

/-- The fields of an object, to its end. -/
def fieldsFrom? : Nat → List Char → Option (List (String × Json) × List Char)
  | 0, _ => none
  | fuel + 1, cs =>
    match cs with
    | '"' :: rest =>
      match text? rest with
      | none => none
      | some (name, rest) =>
        match dropSpace rest with
        | ':' :: rest =>
          match valueFrom? fuel (dropSpace rest) with
          | none => none
          | some (v, rest) =>
            match dropSpace rest with
            | ',' :: rest =>
              (fieldsFrom? fuel (dropSpace rest)).map fun (fields, rest) => ((name, v) :: fields, rest)
            | '\x7d' :: rest => some ([(name, v)], rest)
            | _ => none
        | _ => none
    | _ => none

end

/-- The value a text describes; only blanks may stand around it. -/
def ofText? (s : String) : Option Json :=
  let cs := dropSpace s.toList
  match valueFrom? (2 * cs.length + 1) cs with
  | some (v, rest) => if (dropSpace rest).isEmpty then some v else none
  | none => none

example : (ofText? " [1, -0, 2.50, \"a\\u00e9\"] ").map compact = some "[1,-0.0,2.5,\"aé\"]" := by
  decide +kernel
example : (ofText? "\x7b\"b\": 1, \"a\": [], \"b\": null\x7d").map compact =
    some "\x7b\"a\":[],\"b\":null\x7d" := by decide +kernel
example : (ofText? "[1,]").isNone ∧ (ofText? "01").isNone ∧ (ofText? "1.").isNone := by decide +kernel

end TaintAlias.Json
