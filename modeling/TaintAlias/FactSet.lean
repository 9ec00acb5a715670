/-
  TaintAlias.FactSet — a set of facts, up to provenance.

  Inserting a fact that is the same as a member keeps the member, so the provenance of
  a fact is that of its first insertion (`insert_of_contains`).
-/

import TaintAlias.Fact

namespace TaintAlias

structure FactSet where
  /-- Members in order of insertion. -/
  facts : List Fact
  deriving Repr

namespace FactSet

def empty : FactSet := ⟨[]⟩

def contains (s : FactSet) (f : Fact) : Bool := s.facts.any fun g => decide (g.Same f)

def insert (s : FactSet) (f : Fact) : FactSet :=
  if s.contains f then s else ⟨s.facts ++ [f]⟩

def size (s : FactSet) : Nat := s.facts.length

instance : Membership Fact FactSet := ⟨fun s f => f ∈ s.facts⟩

theorem insert_of_contains {s : FactSet} {f : Fact} (h : s.contains f = true) : s.insert f = s := by
  simp [insert, h]

end FactSet

end TaintAlias
