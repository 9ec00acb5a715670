/-
  TaintAlias.Strategy — the two switches of the alias stage.

  How the oracle thins out the control-flow graph it walks, and whether call statements
  trigger queries at all. The first changes only what a query costs.
-/

import TaintAlias.Choice

namespace TaintAlias

/-- How the oracle prunes the control-flow graph. -/
inductive Sparsification where
  /-- The full graph. -/
  | none
  /-- Statements relevant to the queried type. -/
  | typeBased
  /-- Statements that can create or kill aliases of the queried value. -/
  | aliasAware
  deriving DecidableEq, Repr, Inhabited

namespace Sparsification

def name : Sparsification → String
  | none => "none"
  | typeBased => "type_based"
  | aliasAware => "alias_aware"

instance : Choice Sparsification := ⟨[none, typeBased, aliasAware], name⟩

/-- Whether the oracle builds sparse graphs, and a log of building them. -/
def isSparse (s : Sparsification) : Bool := s ≠ none

end Sparsification

/-- Which statements are alias sites. -/
inductive ReturnSites where
  | fieldWriteOnly
  | fieldWriteAndReturn
  deriving DecidableEq, Repr

namespace ReturnSites

def name : ReturnSites → String
  | fieldWriteOnly => "field_write_only"
  | fieldWriteAndReturn => "field_write_and_return"

instance : Choice ReturnSites := ⟨[fieldWriteOnly, fieldWriteAndReturn], name⟩

/-- Whether call statements are queried. -/
def handled (r : ReturnSites) : Bool := r = fieldWriteAndReturn

end ReturnSites

end TaintAlias
