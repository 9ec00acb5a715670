/-
  TaintAlias.Yaml.Scalar.Kind — what a plain scalar stands for.

  Tried in this order: nothing or one of the words for null, a truth value, an integer of
  64 bits, an integer of 128 bits, a finite decimal or a named special number, and text
  otherwise. Integers may have a sign and, directly after it, a mark for the base; digits
  after a leading zero are text.
-/

import TaintAlias.Decode.Error
import TaintAlias.Number.Digits

namespace TaintAlias.Yaml

/-- The style a scalar is written in. -/
inductive Style where
  | plain
  | single
  | double
  | literal
  | folded
  deriving DecidableEq, Repr

def isNull (s : String) : Bool := s == "null" || s == "Null" || s == "NULL" || s == "~"

def truth? (s : String) : Option Bool :=
  if s == "true" || s == "True" || s == "TRUE" then some true
  else if s == "false" || s == "False" || s == "FALSE" then some false
  else none

/-! ## Integers -/

/-- One sign, if there is one. -/
def unsigned : List Char → List Char
  | '+' :: cs => cs
  | '-' :: cs => cs
  | cs => cs

/-- Several digits, of which the first is a zero. -/
def hasLeadingZero (cs : List Char) : Bool :=
  match unsigned cs with
  | '0' :: c :: cs => (c :: cs).all Char.isDigit
  | _ => false

/-- Digits after a mark for their base, or decimal ones. -/
def magnitude? : List Char → Option Nat
  | '0' :: 'x' :: cs => number? 16 cs
  | '0' :: 'o' :: cs => number? 8 cs
  | '0' :: 'b' :: cs => number? 2 cs
  | cs => number? 10 cs

/-- A number without a minus sign. -/
def natural? (cs : List Char) : Option Nat :=
  if hasLeadingZero cs then none
  else
    match cs with
    | '+' :: cs => magnitude? cs
    | cs => magnitude? cs

def integer? (cs : List Char) : Option Int :=
  match cs with
  | '-' :: rest => if hasLeadingZero cs then none else (magnitude? rest).map fun n => -(n : Int)
  | _ => (natural? cs).map fun n => (n : Int)

/-! ## Decimals -/

/-- The exponent at the end of a decimal; zero if there is none. -/
def exponent? : List Char → Option Int
  | [] => some 0
  | c :: cs =>
    if c == 'e' || c == 'E' then
      match cs with
      | '-' :: ds => (number? 10 ds).map fun n => -(n : Int)
      | '+' :: ds => (number? 10 ds).map fun n => (n : Int)
      | ds => (number? 10 ds).map fun n => (n : Int)
    else none

/-- A decimal without a sign: digits with at most one point, and an exponent. -/
def decimal? (neg : Bool) (cs : List Char) : Option Binary64 :=
  let whole := cs.takeWhile Char.isDigit
  let (part, rest) : List Char × List Char :=
    match cs.dropWhile Char.isDigit with
    | '.' :: rest => (rest.takeWhile Char.isDigit, rest.dropWhile Char.isDigit)
    | rest => ([], rest)
  match number? 10 (whole ++ part), exponent? rest with
  | some n, some e =>
    match Binary64.ofDecimal neg n (e - part.length) with
    | .finite neg m e => some (.finite neg m e)
    | _ => none
  | _, _ => none

def isInfinity (cs : List Char) : Bool :=
  cs == ".inf".toList || cs == ".Inf".toList || cs == ".INF".toList

def isNan (cs : List Char) : Bool :=
  cs == ".nan".toList || cs == ".NaN".toList || cs == ".NAN".toList

def float? (cs : List Char) : Option Binary64 :=
  if isNan cs then some .nan
  else
    match cs with
    | '+' :: rest => if isInfinity rest then some (.infinite false) else decimal? false rest
    | '-' :: rest => if isInfinity rest then some (.infinite true) else decimal? true rest
    | _ => if isInfinity cs then some (.infinite false) else decimal? false cs

/-! ## Kinds -/

/-- The integer among the kinds of found values, if it has at most 128 bits. -/
def integerKind? (cs : List Char) : Option Decode.Found :=
  match integer? cs with
  | none => none
  | some n =>
    if -(twoTo 63 : Int) ≤ n ∧ n < twoTo 64 then some (.integer n)
    else if -(twoTo 127 : Int) ≤ n ∧ n < twoTo 128 then some (.wide n)
    else none

/-- What a plain scalar without a tag stands for. -/
def kind (s : String) : Decode.Found :=
  if s.isEmpty || isNull s then .unit
  else
    match truth? s with
    | some b => .bool b
    | none =>
      match integerKind? s.toList with
      | some found => found
      | none =>
        if hasLeadingZero s.toList then .text s
        else
          match float? s.toList with
          | some x => .float x
          | none => .text s

example : kind "~" = .unit ∧ kind "TRUE" = .bool true ∧ kind "tRUE" = .text "tRUE" := by decide
example : kind "+0x1F" = .integer 31 ∧ kind "-0" = .integer 0 ∧ kind "007" = .text "007" := by decide
example : kind "18446744073709551616" = .wide 18446744073709551616 := by decide +kernel
example : kind "1.50" = .float (.ofDecimal false 15 (-1)) ∧ kind "1e400" = .text "1e400" := by
  decide +kernel

end TaintAlias.Yaml
