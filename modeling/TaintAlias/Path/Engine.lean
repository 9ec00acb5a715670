/-
  TaintAlias.Path.Engine — the access paths a taint engine propagates.

  A path is an optional local base, a chain of fields, and a cut-off mark. Without the
  mark it stands for exactly its chain; with it, for every chain that extends it
  (`Covers`). `limit k` keeps at most `k` fields and marks what it shortens, so it never
  takes away from what a path stands for.
-/

import TaintAlias.Program

namespace TaintAlias

structure EnginePath where
  /-- None for facts that are not rooted in a local. -/
  base : Option Variable
  fields : List Field
  cutOff : Bool
  deriving DecidableEq, Repr

namespace EnginePath

/-- The path of the zero fact. -/
def empty : EnginePath := ⟨none, [], false⟩

def ofLocal (v : Variable) : EnginePath := ⟨some v, [], false⟩

def ofFields (v : Variable) (fields : List Field) : EnginePath := ⟨some v, fields, false⟩

/-- A chain of static fields, without a local base. -/
def ofStatic (fields : List Field) : EnginePath := ⟨none, fields, false⟩

def lastField (p : EnginePath) : Option Field := p.fields.getLast?

/-- Neither base nor fields; the cut-off mark does not count. -/
def isEmpty (p : EnginePath) : Bool := p.base.isNone && p.fields.isEmpty

/-- At most `k` fields; a path that loses fields is cut off. -/
def limit (k : Nat) (p : EnginePath) : EnginePath :=
  if k < p.fields.length then { p with fields := p.fields.take k, cutOff := true } else p

def text (p : EnginePath) : String :=
  (match p.base with
    | some v => v.text
    | none => "<static>") ++
  String.join (p.fields.map ("." ++ ·.text)) ++
  (if p.cutOff then "*" else "")

/-! ## What a path stands for -/

/-- The chains of fields `p` stands for. -/
def Covers (p : EnginePath) (chain : List Field) : Prop :=
  if p.cutOff then p.fields <+: chain else chain = p.fields

theorem covers_fields (p : EnginePath) : p.Covers p.fields := by
  unfold Covers; split
  · exact List.prefix_refl _
  · rfl

theorem length_limit_le (k : Nat) (p : EnginePath) : (p.limit k).fields.length ≤ k := by
  unfold limit; split
  · simp only [List.length_take]; omega
  · omega

end EnginePath

end TaintAlias
