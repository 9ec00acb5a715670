/-
  TaintAlias.Path.Translate — from what the pointer analysis reports to what the taint
  engine propagates.

  Named fields are kept up to the first wildcard; a wildcard ends the chain and cuts it
  off, which covers whatever the wildcard and everything behind it stand for. A root
  that is no local, and an array element in front of the first wildcard, have no
  counterpart (`Untranslatable`). The field limit is applied last, so it never decides
  whether a path translates.
-/

import TaintAlias.Path.Engine
import TaintAlias.Path.Oracle

namespace TaintAlias

/-- Why a path has no counterpart in the engine. -/
inductive Untranslatable where
  | root (r : Root)
  /-- A segment, with its index among all segments. -/
  | segment (s : Segment) (position : Nat)
  deriving DecidableEq, Repr

/-- The structured text of a root in error messages. -/
def Root.detail : Root → String
  | .var v => "Local(Variable(" ++ idText v.id ++ "))"
  | .static f => "Static(FieldId(" ++ idText f.id ++ "))"
  | .allocation s => "Allocation(StmtId(" ++ idText s.id ++ "))"

/-- The structured text of a segment in error messages. -/
def Segment.detail : Segment → String
  | .field f => "Field(FieldId(" ++ idText f.id ++ "))"
  | .element => "ArrayElement"
  | .wildcard => "Wildcard"

def Untranslatable.message : Untranslatable → String
  | .root r => "Oracle base " ++ r.detail ++ " has no engine counterpart"
  | .segment s i =>
    "Oracle field " ++ s.detail ++ " at position " ++ toString i ++ " has no engine counterpart"

/-- The fields in front of the first wildcard, and whether there is one. `i` is the
    index of the first segment given. -/
def namedFields (i : Nat) : List Segment → Except Untranslatable (List Field × Bool)
  | [] => .ok ([], false)
  | .wildcard :: _ => .ok ([], true)
  | .element :: _ => .error (.segment .element i)
  | .field f :: rest =>
    match namedFields (i + 1) rest with
    | .ok (fs, cut) => .ok (f :: fs, cut)
    | .error e => .error e

/-- The engine's path for `p`, with at most `k` fields. -/
def OraclePath.toEngine (k : Nat) (p : OraclePath) : Except Untranslatable EnginePath :=
  match p.root with
  | .var v =>
    match namedFields 0 p.segments with
    | .ok (fs, cut) => .ok (EnginePath.limit k ⟨some v, fs, cut⟩)
    | .error e => .error e
  | r => .error (.root r)

end TaintAlias
