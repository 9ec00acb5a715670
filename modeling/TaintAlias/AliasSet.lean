/-
  TaintAlias.AliasSet — the set of paths an oracle answers a query with.

  A list without repetitions, whose order carries no meaning. `without v` drops the paths
  rooted at the queried variable, which every oracle reports as an alias of itself.
-/

import TaintAlias.Path.Oracle

namespace TaintAlias

structure AliasSet where
  paths : List OraclePath
  nodup : paths.Nodup

namespace AliasSet

def empty : AliasSet := ⟨[], List.nodup_nil⟩

def insert (s : AliasSet) (p : OraclePath) : AliasSet :=
  if h : p ∈ s.paths then s
  else ⟨p :: s.paths, List.nodup_cons.mpr ⟨h, s.nodup⟩⟩

def ofList (ps : List OraclePath) : AliasSet := ps.foldr (fun p s => s.insert p) empty

def size (s : AliasSet) : Nat := s.paths.length

instance : Membership OraclePath AliasSet := ⟨fun s p => p ∈ s.paths⟩

/-- The paths that are not rooted at `v`. -/
def without (v : Variable) (s : AliasSet) : AliasSet :=
  ⟨s.paths.filter (·.base? ≠ some v), s.nodup.sublist List.filter_sublist⟩

theorem mem_insert {s : AliasSet} {p q : OraclePath} : q ∈ s.insert p ↔ q = p ∨ q ∈ s := by
  show q ∈ (s.insert p).paths ↔ q = p ∨ q ∈ s.paths
  unfold insert; split
  · rename_i h; exact ⟨Or.inr, fun e => e.elim (fun e => e ▸ h) id⟩
  · simp

theorem mem_ofList {ps : List OraclePath} {q : OraclePath} : q ∈ ofList ps ↔ q ∈ ps := by
  induction ps with
  | nil => exact Iff.rfl
  | cons p ps ih => simp only [ofList, List.foldr_cons] at ih ⊢; rw [mem_insert, ih, List.mem_cons]

end AliasSet

end TaintAlias
