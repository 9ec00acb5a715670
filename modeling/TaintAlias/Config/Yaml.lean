/-
  TaintAlias.Config.Yaml — configurations as YAML.

  Written, a configuration has one line per field in a fixed order, and one item per
  ignored fragment. Read, it is a mapping from field names; a text with nothing in it is
  the empty mapping. What was read is also validated, but only when the whole text is
  one document.
-/

import TaintAlias.Config.Basic
import TaintAlias.Decode.Record
import TaintAlias.Yaml.Decode
import TaintAlias.Yaml.Document
import TaintAlias.Yaml.Scalar.Write

namespace TaintAlias.Config

/-! ## Writing -/

def writeLine (key value : String) : List Char := (key ++ ": " ++ value ++ "\n").toList

def writeIgnored : List String → List Char
  | [] => "ignored_methods: []\n".toList
  | items => "ignored_methods:\n".toList ++ items.flatMap fun s => '-' :: ' ' :: Yaml.writeScalar s

def boolText (b : Bool) : String := if b then "true" else "false"

def toYaml (c : Config) : String :=
  String.ofList
    (writeLine "strategy" c.strategy.name ++
      writeLine "return_sites" c.returnSites.name ++
      writeLine "disable_aliasing" (boolText c.disabled) ++
      writeLine "query_cache" (boolText c.caching) ++
      writeLine "query_cache_capacity" (match c.capacity with
        | none => "null"
        | some n => toString n.toNat) ++
      writeIgnored c.ignored ++
      writeLine "access_path_length" (toString c.pathLength.toNat))

/-! ## Reading -/

open Yaml (Spot)

def yamlSlot {α : Type} (name : String) (read : Spot → Except Yaml.Error α) (put : α → Config → Config) :
    Decode.Slot Yaml.Error Spot Config where
  name
  read s := (read s).map put

/-- How a configuration is read from a document with a given root. -/
def yamlRecord (root : Yaml.Node) : Decode.Record Yaml.Error Spot Config where
  name := "AliasConfig"
  slots := [
    yamlSlot "strategy" Spot.choice fun a c => { c with strategy := a },
    { yamlSlot "return_sites" Spot.choice fun a c => { c with returnSites := a } with required := true },
    yamlSlot "disable_aliasing" Spot.bool fun a c => { c with disabled := a },
    yamlSlot "query_cache" Spot.bool fun a c => { c with caching := a },
    yamlSlot "query_cache_capacity" (Spot.option (Spot.word "usize")) fun a c => { c with capacity := a },
    yamlSlot "ignored_methods" (Spot.list root fun s => s.text "a string")
      fun a c => { c with ignored := a },
    yamlSlot "access_path_length" (Spot.word "usize") fun a c => { c with pathLength := a }]
  strict := true
  initial := { returnSites := .fieldWriteOnly }
  fail := .data []

/-- The configuration a root describes, not validated. -/
def ofNode (root : Yaml.Node) : Except Yaml.Error Config :=
  match root with
  | .mapping _ entries => (yamlRecord root).read (Yaml.fields root entries)
  | _ =>
    let spot := Spot.of root [] root
    if spot.isEmpty then (yamlRecord root).read []
    else spot.mismatch ("struct " ++ (yamlRecord root).name)

def ofDocument (d : Yaml.Document) : Except Yaml.Error Config :=
  match ofNode d.root with
  | .error e => .error e
  | .ok c => if d.isWhole then .ok c else .error .malformed

def ofYaml (text : String) : Except ConfigError Config :=
  match ofDocument (.ofText text) with
  | .error e => .error (.yaml e)
  | .ok c => c.validate.map fun _ => c

/-- The configuration in a file with the given contents; none if it cannot be read. -/
def ofFile (contents : Option ByteArray) : Except ConfigError Config :=
  match contents.bind String.fromUTF8? with
  | none => .error .unreadable
  | some text => ofYaml text

end TaintAlias.Config
