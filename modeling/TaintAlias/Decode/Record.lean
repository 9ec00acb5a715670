/-
  TaintAlias.Decode.Record — records read field by field.

  A `Slot` says how one field is read from a value `V` into the record `ρ`. Entries are
  taken in the order they are written and the first error wins: an unreadable key, a name
  that is not a field (unless the record skips those), a field given twice, a value that
  does not read. Only then does a missing field count.
-/

import TaintAlias.Decode.Error

namespace TaintAlias.Decode

/-- A field of a record. -/
structure Slot (ε V ρ : Type) where
  name : String
  /-- Leaving it out is an error. -/
  required : Bool := false
  read : V → Except ε (ρ → ρ)

/-- A record that is read from entries in any order. -/
structure Record (ε V ρ : Type) where
  name : String
  slots : List (Slot ε V ρ)
  /-- Names that are not fields are errors. -/
  strict : Bool := false
  /-- What the fields left out have. -/
  initial : ρ
  fail : Error → ε

namespace Record

variable {ε V ρ : Type}

def fieldNames (r : Record ε V ρ) : List String := r.slots.map (·.name)

def slot? (r : Record ε V ρ) (name : String) : Option (Slot ε V ρ) :=
  r.slots.find? fun s => s.name == name

/-- The first field that must be given and was not. -/
def missing? (r : Record ε V ρ) (given : List String) : Option String :=
  (r.slots.find? fun s => s.required && !given.contains s.name).map (·.name)

/-- Read the remaining entries, after those of the fields `given`. -/
def readFrom (r : Record ε V ρ) : List (Except ε String × V) → List String → ρ → Except ε ρ
  | [], given, a =>
    match r.missing? given with
    | some name => .error (r.fail (.missingField name))
    | none => .ok a
  | (.error e, _) :: _, _, _ => .error e
  | (.ok name, v) :: rest, given, a =>
    match r.slot? name with
    | none =>
      if r.strict then .error (r.fail (.unknownField name r.fieldNames))
      else r.readFrom rest given a
    | some s =>
      if given.contains name then .error (r.fail (.duplicateField name))
      else
        match s.read v with
        | .error e => .error e
        | .ok put => r.readFrom rest (name :: given) (put a)

def read (r : Record ε V ρ) (entries : List (Except ε String × V)) : Except ε ρ :=
  r.readFrom entries [] r.initial

end Record

end TaintAlias.Decode
