/-
  TaintAlias.Decode.Error — why a value is not what a type asks for.

  The causes are the same for every data format; a format differs in the word for its
  empty value and in how it writes floating point numbers (`Dialect`).
-/

import TaintAlias.Number.Shortest
import TaintAlias.Text.Quoted

namespace TaintAlias.Decode

/-- What was found where something else was expected. -/
inductive Found where
  | unit
  | bool (b : Bool)
  | integer (n : Int)
  /-- An integer too long for 64 bits. -/
  | wide (n : Int)
  | float (x : Binary64)
  | text (s : String)
  | sequence
  | mapping
  /-- A variant named without the value it carries. -/
  | bareVariant
  deriving DecidableEq, Repr

inductive Error where
  | wrongType (found : Found) (expected : String)
  | wrongValue (found : Found) (expected : String)
  | wrongLength (length : Nat) (expected : String)
  | unknownField (name : String) (known : List String)
  | unknownVariant (name : String) (known : List String)
  | missingField (name : String)
  | duplicateField (name : String)
  deriving DecidableEq, Repr

/-- How a format writes what was found. -/
structure Dialect where
  unit : String
  float : Binary64 → String

def Found.describe (d : Dialect) : Found → String
  | .unit => d.unit
  | .bool b => "boolean `" ++ (if b then "true" else "false") ++ "`"
  | .integer n => "integer `" ++ toString n ++ "`"
  | .wide n => "integer `" ++ toString n ++ (if n < 0 then "` as i128" else "` as u128")
  | .float x => "floating point `" ++ d.float x ++ "`"
  | .text s => "string " ++ Text.quoted s
  | .sequence => "sequence"
  | .mapping => "map"
  | .bareVariant => "unit variant"

def ticked (s : String) : String := "`" ++ s ++ "`"

/-- The names to choose from. -/
def oneOf (kind : String) : List String → String
  | [] => "there are no " ++ kind
  | [a] => "expected " ++ ticked a
  | [a, b] => "expected " ++ ticked a ++ " or " ++ ticked b
  | names => "expected one of " ++ String.intercalate ", " (names.map ticked)

def Error.message (d : Dialect) : Error → String
  | .wrongType found expected => "invalid type: " ++ found.describe d ++ ", expected " ++ expected
  | .wrongValue found expected => "invalid value: " ++ found.describe d ++ ", expected " ++ expected
  | .wrongLength n expected => "invalid length " ++ toString n ++ ", expected " ++ expected
  | .unknownField name known => "unknown field " ++ ticked name ++ ", " ++ oneOf "fields" known
  | .unknownVariant name known => "unknown variant " ++ ticked name ++ ", " ++ oneOf "variants" known
  | .missingField name => "missing field " ++ ticked name
  | .duplicateField name => "duplicate field " ++ ticked name

end TaintAlias.Decode
