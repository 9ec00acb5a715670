/-
  TaintAlias.Json.Codec — values to and from JSON.

  Words are integers of their range and nothing else. A choice is its name, or an object
  of one field whose key is the name and whose value is what the variant carries; a
  variant that carries nothing may be given null there. A record is an object, or an
  array of its fields in order.
-/

import TaintAlias.Choice
import TaintAlias.Decode.Record
import TaintAlias.Json.Value

namespace TaintAlias

namespace Json

/-- Types with a JSON form. -/
class Codec (α : Type) where
  encode : α → Json
  decode : Json → Except Decode.Error α

export Codec (encode decode)

def found : Json → Decode.Found
  | .null => .unit
  | .bool b => .bool b
  | .integer n => .integer n
  | .float x => .float x
  | .text s => .text s
  | .array _ => .sequence
  | .object _ => .mapping

def wrongType {α : Type} (j : Json) (expected : String) : Except Decode.Error α :=
  .error (.wrongType j.found expected)

/-! ## Atoms -/

/-- A number below `bound`; `kind` names the range. -/
def natural (bound : Nat) (kind : String) (j : Json) : Except Decode.Error Nat :=
  match j with
  | .integer n =>
    if 0 ≤ n ∧ n < bound then .ok n.toNat else .error (.wrongValue j.found kind)
  | _ => j.wrongType kind

instance : Codec UInt32 where
  encode n := .integer n.toNat
  decode j := (natural UInt32.size "u32" j).map Nat.toUInt32

def encodeWord (n : UInt64) : Json := .integer n.toNat

/-- A 64-bit word; `kind` is what it counts with. -/
def decodeWord (kind : String) (j : Json) : Except Decode.Error UInt64 :=
  (natural UInt64.size kind j).map Nat.toUInt64

instance : Codec Bool where
  encode b := .bool b
  decode
    | .bool b => .ok b
    | j => j.wrongType "a boolean"

instance : Codec String where
  encode s := .text s
  decode
    | .text s => .ok s
    | j => j.wrongType "a string"

def encodeOption {α : Type} (f : α → Json) : Option α → Json
  | none => .null
  | some a => f a

def decodeOption {α : Type} (f : Json → Except Decode.Error α) : Json → Except Decode.Error (Option α)
  | .null => .ok none
  | j => (f j).map some

def decodeItems {α : Type} (f : Json → Except Decode.Error α) :
    List Json → Except Decode.Error (List α)
  | [] => .ok []
  | j :: rest =>
    match f j with
    | .error e => .error e
    | .ok a => (decodeItems f rest).map (a :: ·)

def decodeList {α : Type} (f : Json → Except Decode.Error α) :
    Json → Except Decode.Error (List α)
  | .array items => decodeItems f items
  | j => j.wrongType "a sequence"

/-! ## Choices -/

/-- The name of a variant and what it is given. -/
def variant : Json → Except Decode.Error (String × Option Json)
  | .text s => .ok (s, none)
  | .object [(k, v)] => .ok (k, some v)
  | .object _ => .error (.wrongValue .mapping "map with a single key")
  | j => j.wrongType "string or map"

/-- A variant that carries nothing. -/
def bare {α : Type} (a : α) : Option Json → Except Decode.Error α
  | none | some .null => .ok a
  | some j => j.wrongType "unit"

/-- A variant that carries one value. -/
def carrying {α β : Type} [Codec β] (f : β → α) : Option Json → Except Decode.Error α
  | none => .error (.wrongType .bareVariant "newtype variant")
  | some j => (decode j).map f

def decodeChoice {α : Type} [Choice α] (j : Json) : Except Decode.Error α :=
  match j.variant with
  | .error e => .error e
  | .ok (name, payload) =>
    match Choice.ofName? name with
    | none => .error (.unknownVariant name (Choice.names α))
    | some a => bare a payload

def encodeChoice {α : Type} [Choice α] (a : α) : Json := .text (Choice.name a)

/-! ## Records -/

/-- How a record of type `ρ` is read from JSON. -/
abbrev Record (ρ : Type) := Decode.Record Decode.Error Json ρ

abbrev Slot (ρ : Type) := Decode.Slot Decode.Error Json ρ

/-- A field read by `f`. -/
def slot {α ρ : Type} (name : String) (f : Json → Except Decode.Error α) (put : α → ρ → ρ) : Slot ρ where
  name
  read j := (f j).map put

def requiredSlot {α ρ : Type} (name : String) (f : Json → Except Decode.Error α) (put : α → ρ → ρ) : Slot ρ :=
  { slot name f put with required := true }

/-- The number of fields before the first that must be given. -/
def firstRequired? {ρ : Type} : List (Slot ρ) → Option Nat
  | [] => none
  | s :: rest => if s.required then some 0 else (firstRequired? rest).map (· + 1)

/-- Read the remaining items into the remaining fields, `index` of them being read. -/
def readItems {ρ : Type} (r : Record ρ) (index : Nat) :
    List (Slot ρ) → List Json → ρ → Except Decode.Error ρ
  | slots, [], a =>
    match firstRequired? slots with
    | none => .ok a
    | some n => .error (.wrongLength (index + n)
        ("struct " ++ r.name ++ " with " ++ toString r.slots.length ++ " elements"))
  | [], items, _ => .error (.wrongLength (index + items.length) "fewer elements in array")
  | s :: slots, j :: items, a =>
    match s.read j with
    | .error e => .error e
    | .ok put => readItems r (index + 1) slots items (put a)

def decodeRecord {ρ : Type} (r : Record ρ) : Json → Except Decode.Error ρ
  | .object fields => r.read (fields.map fun (k, v) => (.ok k, v))
  | .array items => readItems r 0 r.slots items r.initial
  | j => j.wrongType ("struct " ++ r.name)

end Json

end TaintAlias
