/-
  TaintAlias.Yaml.Error — why a YAML text gives no value.

  Either the text is not one well-formed document, or a value in it is not what was
  asked for; then the way to that value from the root leads the message.
-/

import TaintAlias.Decode.Error

namespace TaintAlias.Yaml

/-- One step from a collection to a value in it. -/
inductive Crumb where
  | key (name : String)
  /-- A key that is not written as a scalar. -/
  | otherKey
  | item (index : Nat)
  deriving DecidableEq, Repr

/-- The text of a way, outermost step first. -/
def wayText (way : List Crumb) : String :=
  way.foldl (fun text c =>
    let dot := if text.isEmpty then "" else "."
    match c with
    | .key name => text ++ dot ++ name
    | .otherKey => text ++ dot ++ "?"
    | .item i => text ++ "[" ++ toString i ++ "]") ""

/-- How YAML errors name the empty value and write numbers. -/
def dialect : Decode.Dialect := ⟨"unit value", Binary64.plainText⟩

inductive Error where
  /-- Not a text of exactly one document. -/
  | malformed
  | data (way : List Crumb) (cause : Decode.Error)
  deriving DecidableEq, Repr

def Error.message : Error → String
  | .malformed => "not one well-formed document"
  | .data way cause =>
    (if way.isEmpty then "" else wayText way ++ ": ") ++ cause.message dialect

end TaintAlias.Yaml
