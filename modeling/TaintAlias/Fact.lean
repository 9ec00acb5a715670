/-
  TaintAlias.Fact — what the taint engine propagates.

  A fact is the zero fact, a fresh taint at a source, or derived from another fact at a
  statement. Only the path and the source identify it (`Same`); where it was derived,
  and from what, is provenance. Every fact keeps the source of the one it is derived
  from (`source_derived`), so all facts of a chain share one source.
-/

import TaintAlias.Path.Engine

namespace TaintAlias

/-- Where a taint is introduced, and its category. -/
structure Source where
  stmt : Stmt
  label : String
  deriving DecidableEq, Repr

inductive Fact where
  | zero
  | tainted (source : Source) (path : EnginePath)
  /-- `path` tainted at `stmt` because `parent` is. -/
  | derived (parent : Fact) (path : EnginePath) (stmt : Stmt)
  deriving Repr

namespace Fact

def path : Fact → EnginePath
  | zero => .empty
  | tainted _ p => p
  | derived _ p _ => p

def source : Fact → Option Source
  | zero => none
  | tainted s _ => some s
  | derived parent _ _ => parent.source

/-- The statement the fact was introduced or derived at. -/
def stmt : Fact → Option Stmt
  | zero => none
  | tainted s _ => some s.stmt
  | derived _ _ s => some s

def parent? : Fact → Option Fact
  | derived parent _ _ => some parent
  | _ => none

/-- The facts it is derived from, nearest first. -/
def ancestors : Fact → List Fact
  | derived parent _ _ => parent :: parent.ancestors
  | _ => []

/-- What identifies a fact. -/
def key (f : Fact) : EnginePath × Option Source := (f.path, f.source)

/-- Equal but for provenance. -/
def Same (f g : Fact) : Prop := f.key = g.key

instance (f g : Fact) : Decidable (Same f g) := inferInstanceAs (Decidable (_ = _))

@[simp] theorem source_derived (f : Fact) (p : EnginePath) (s : Stmt) :
    (derived f p s).source = f.source := rfl

theorem Same.refl (f : Fact) : Same f f := rfl
theorem Same.symm {f g : Fact} (h : Same f g) : Same g f := Eq.symm h
theorem Same.trans {f g h : Fact} (hfg : Same f g) (hgh : Same g h) : Same f h := Eq.trans hfg hgh

theorem Same.path {f g : Fact} (h : Same f g) : f.path = g.path := congrArg Prod.fst h
theorem Same.source {f g : Fact} (h : Same f g) : f.source = g.source := congrArg Prod.snd h

/-- No source, and neither base nor fields. -/
def isZero (f : Fact) : Bool := f.source.isNone && f.path.isEmpty

def text (f : Fact) : String :=
  if f.isZero then "<zero>"
  else
    f.path.text ++
    (match f.source with
      | some s => " <- " ++ s.label ++ "@" ++ s.stmt.text
      | none => "")

end Fact

end TaintAlias
