/-
  TaintAlias.Path.Oracle — the access paths a pointer analysis reports.

  A path starts at a local, a static field or an allocation site and goes on through
  named fields, array elements and wildcards. A wildcard stands for any sequence of
  fields, the empty one included, so one path can stand for many chains of steps
  (`Expands`). `append` re-attaches named fields at the end.
-/

import TaintAlias.Program

namespace TaintAlias

inductive Root where
  | var (v : Variable)
  | static (f : Field)
  | allocation (s : Stmt)
  deriving DecidableEq, Repr

inductive Segment where
  | field (f : Field)
  | element
  /-- Any sequence of fields. -/
  | wildcard
  deriving DecidableEq, Repr

structure OraclePath where
  root : Root
  segments : List Segment
  deriving DecidableEq, Repr

def Root.text : Root → String
  | .var v => v.text
  | .static f => "static:" ++ f.text
  | .allocation s => "alloc@" ++ s.text

def Segment.text : Segment → String
  | .field f => "." ++ f.text
  | .element => "[]"
  | .wildcard => ".*"

namespace OraclePath

def ofLocal (v : Variable) : OraclePath := ⟨.var v, []⟩

def ofFields (v : Variable) (fields : List Field) : OraclePath := ⟨.var v, fields.map .field⟩

/-- The local at the root, if the root is one. -/
def base? (p : OraclePath) : Option Variable :=
  match p.root with
  | .var v => some v
  | _ => none

/-- Whether the path may stand for more than one chain. -/
def isSummary (p : OraclePath) : Bool := p.segments.contains .wildcard

def append (p : OraclePath) (suffix : List Field) : OraclePath :=
  { p with segments := p.segments ++ suffix.map .field }

def text (p : OraclePath) : String :=
  p.root.text ++ String.join (p.segments.map Segment.text)

end OraclePath

/-! ## What a path stands for -/

/-- One step of a concrete chain. -/
inductive Step where
  | field (f : Field)
  | element
  deriving DecidableEq, Repr

/-- The concrete chains a list of segments stands for. -/
inductive Expands : List Segment → List Step → Prop
  | nil : Expands [] []
  | field (f : Field) {r : List Segment} {c : List Step} :
      Expands r c → Expands (.field f :: r) (.field f :: c)
  | element {r : List Segment} {c : List Step} :
      Expands r c → Expands (.element :: r) (.element :: c)
  | wildcard (fs : List Field) {r : List Segment} {c : List Step} :
      Expands r c → Expands (.wildcard :: r) (fs.map .field ++ c)

end TaintAlias
