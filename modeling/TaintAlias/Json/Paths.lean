/-
  TaintAlias.Json.Paths — handles, roots, segments and choices in JSON.

  A handle is its number. A root carries a handle under the name of its kind; of the
  segments only a field does.
-/

import TaintAlias.Config.Preset
import TaintAlias.Json.Codec
import TaintAlias.Oracle

namespace TaintAlias

open Json (Codec encode decode)

instance : Codec Method := ⟨fun m => encode m.id, fun j => (decode j).map Method.mk⟩
instance : Codec Stmt := ⟨fun s => encode s.id, fun j => (decode j).map Stmt.mk⟩
instance : Codec Variable := ⟨fun v => encode v.id, fun j => (decode j).map Variable.mk⟩
instance : Codec Field := ⟨fun f => encode f.id, fun j => (decode j).map Field.mk⟩

instance : Codec Sparsification := ⟨Json.encodeChoice, Json.decodeChoice⟩
instance : Codec ReturnSites := ⟨Json.encodeChoice, Json.decodeChoice⟩
instance : Codec StaticFields := ⟨Json.encodeChoice, Json.decodeChoice⟩
instance : Codec Preset := ⟨Json.encodeChoice, Json.decodeChoice⟩

/-- The names of the variants of a segment. -/
def Segment.variants : List String := ["Field", "ArrayElement", "Wildcard"]

def Segment.toJson : Segment → Json
  | .field f => .object [("Field", encode f)]
  | .element => .text "ArrayElement"
  | .wildcard => .text "Wildcard"

def Segment.ofJson (j : Json) : Except Decode.Error Segment :=
  match j.variant with
  | .error e => .error e
  | .ok ("Field", v) => Json.carrying Segment.field v
  | .ok ("ArrayElement", v) => Json.bare .element v
  | .ok ("Wildcard", v) => Json.bare .wildcard v
  | .ok (name, _) => .error (.unknownVariant name variants)

instance : Codec Segment := ⟨Segment.toJson, Segment.ofJson⟩

/-- The names of the variants of a root. -/
def Root.variants : List String := ["Local", "Static", "Allocation"]

def Root.toJson : Root → Json
  | .var v => .object [("Local", encode v)]
  | .static f => .object [("Static", encode f)]
  | .allocation s => .object [("Allocation", encode s)]

def Root.ofJson (j : Json) : Except Decode.Error Root :=
  match j.variant with
  | .error e => .error e
  | .ok ("Local", v) => Json.carrying Root.var v
  | .ok ("Static", v) => Json.carrying Root.static v
  | .ok ("Allocation", v) => Json.carrying Root.allocation v
  | .ok (name, _) => .error (.unknownVariant name variants)

instance : Codec Root := ⟨Root.toJson, Root.ofJson⟩

end TaintAlias
