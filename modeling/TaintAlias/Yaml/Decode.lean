/-
  TaintAlias.Yaml.Decode — values read from nodes.

  Text is any scalar, whatever its style and tag. Numbers and truth values are plain
  scalars; a literal block counts if its tag says so. An alias is read as what it stands
  for. A node that does not fit is described by its tag if it has one of the common tags,
  or else by what its text stands for.
-/

import TaintAlias.Choice
import TaintAlias.Yaml.Error
import TaintAlias.Yaml.Node

namespace TaintAlias.Yaml

/-- What a scalar is, or how its text contradicts its tag. -/
def scalarKind (tag : Option Tag) (text : String) (style : Style) : Except Decode.Error Decode.Found :=
  let contradiction (expected : String) : Except Decode.Error Decode.Found :=
    .error (.wrongValue (.text text) expected)
  match tag with
  | none => .ok (if style = .plain then kind text else .text text)
  | some tag =>
    if tag = .bool then
      match truth? text with
      | some b => .ok (.bool b)
      | none => contradiction "a boolean"
    else if tag = .int then
      match integerKind? text.toList with
      | some found => .ok found
      | none => contradiction "an integer"
    else if tag = .float then
      match float? text.toList with
      | some x => .ok (.float x)
      | none => contradiction "a float"
    else if tag = .null then
      if isNull text then .ok .unit else contradiction "null"
    else if tag.isOwn && style = .plain then .ok (kind text)
    else .ok (.text text)

/-- A node and the way to it. -/
structure Spot where
  way : List Crumb
  node : Node
  /-- An alias stands there, and the node is what it stands for. -/
  aliased : Bool

namespace Spot

variable {α : Type}

/-- The spot of a node below a root. The way to what an alias stands for is the way to
    the alias. -/
def of (root : Node) (way : List Crumb) (n : Node) : Spot :=
  match n with
  | .alias number => ⟨way, root.target number, true⟩
  | _ => ⟨way, n, false⟩

/-- The error for a node that is not what was expected. -/
def mismatch (s : Spot) (expected : String) : Except Error α :=
  match s.node with
  | .scalar p text style =>
    match scalarKind p.tag text style with
    | .ok found => .error (.data s.way (.wrongType found expected))
    | .error e => .error (.data s.way e)
  | .sequence .. => .error (.data s.way (.wrongType .sequence expected))
  | .mapping .. => .error (.data s.way (.wrongType .mapping expected))
  | .alias _ | .fault => .error .malformed

/-- The text of a scalar that may be read as the value of a tag. -/
def bareText? (s : Spot) (tag : Tag) : Option String :=
  match s.node with
  | .scalar _ text .plain => some text
  | .scalar p text .literal => if p.tag = some tag then some text else none
  | _ => none

def text (s : Spot) (expected : String) : Except Error String :=
  match s.node with
  | .scalar _ text _ => .ok text
  | _ => s.mismatch expected

def bool (s : Spot) : Except Error Bool :=
  match (s.bareText? .bool).bind truth? with
  | some b => .ok b
  | none => s.mismatch "a boolean"

/-- A number of 64 bits; `kind` is what it counts with. -/
def word (kind : String) (s : Spot) : Except Error UInt64 :=
  match (s.bareText? .int).bind fun text => natural? text.toList with
  | some n => if n < UInt64.size then .ok n.toUInt64 else s.mismatch kind
  | none => s.mismatch kind

/-- Nothing, or what `read` reads. -/
def option (read : Spot → Except Error α) (s : Spot) : Except Error (Option α) :=
  match s.node with
  | .scalar p text .plain =>
    if p.tag = some .null then
      if isNull text then .ok none else .error (.data [] (.wrongValue (.text text) "null"))
    else if p.tag = none && (text.isEmpty || isNull text) then .ok none
    else (read s).map some
  | _ => (read s).map some

/-- Whether nothing is written here. -/
def isEmpty (s : Spot) : Bool :=
  match s.node with
  | .scalar _ text .plain => text.isEmpty
  | _ => false

def itemsFrom (root : Node) (read : Spot → Except Error α) (way : List Crumb) :
    Nat → List Node → Except Error (List α)
  | _, [] => .ok []
  | i, n :: rest =>
    match read (of root (way ++ [.item i]) n) with
    | .error e => .error e
    | .ok a => (itemsFrom root read way (i + 1) rest).map (a :: ·)

def list (root : Node) (read : Spot → Except Error α) (s : Spot) : Except Error (List α) :=
  match s.node with
  | .sequence _ items => itemsFrom root read s.way 0 items
  | _ => if s.isEmpty then .ok [] else s.mismatch "a sequence"

/-- The variant the node's tag names. -/
def variantTag? (s : Spot) : Option String :=
  match s.node with
  | .scalar p .. | .sequence p _ | .mapping p _ => p.tag.bind Tag.variant?
  | _ => none

/-- Nothing or null, as a plain scalar. -/
def unit (s : Spot) : Except Error Unit :=
  match s.node with
  | .scalar _ text style =>
    if style = .plain && (text.isEmpty || isNull text) then .ok ()
    else .error (.data s.way (.wrongValue (.text text) "null"))
  | _ => s.mismatch "unit"

/-- A variant by its name, as text or as the tag of nothing. The way to an unknown tag is
    given only where an alias leads to it. -/
def choice [Choice α] (s : Spot) : Except Error α :=
  match s.variantTag?, s.node with
  | some name, _ =>
    match Choice.ofName? name with
    | none => .error (.data (if s.aliased then s.way else []) (.unknownVariant name (Choice.names α)))
    | some a => s.unit.map fun _ => a
  | none, .scalar _ text _ =>
    match Choice.ofName? text with
    | none => .error (.data s.way (.unknownVariant text (Choice.names α)))
    | some a => .ok a
  | none, .sequence .. => .error (.data s.way (.wrongType .sequence "a YAML tag starting with '!'"))
  | none, .mapping .. => .error (.data s.way (.wrongType .mapping "a YAML tag starting with '!'"))
  | none, _ => .error .malformed

end Spot

/-! ## Entries -/

/-- The name of a field. -/
def fieldName (root key : Node) : Except Error String :=
  (Spot.of root [] key).text "field identifier"

/-- The step from a mapping to the value of a key. -/
def crumb : Node → Crumb
  | .scalar _ text _ => .key text
  | _ => .otherKey

/-- The entries of a root as names and the spots of their values. -/
def fields (root : Node) (entries : List (Node × Node)) : List (Except Error String × Spot) :=
  entries.map fun (k, v) => (fieldName root k, Spot.of root [crumb k] v)

end TaintAlias.Yaml
