/-
  TaintAlias.Proofs.Manager.Vocabulary — the locals and fields that answers are made of.

  Suppose every answer of the oracle is rooted at locals of a set `V`, as far as it is
  rooted at locals, and names fields of a set `F` only (`Oracle.Within`). Then nothing
  else comes out of a cache either: a session that holds such answers keeps holding such
  answers, and answers with them, whatever it is asked (`within_reply`). A manager that
  met only such oracles answers within `V` and `F` (`getAliases_within`).
-/

import TaintAlias.Proofs.Manager.Run

namespace TaintAlias

variable {V : Finset Variable} {F : Finset Field}

/-- Rooted at a local of `V`, if at a local, and naming fields of `F` only. -/
structure OraclePath.Within (V : Finset Variable) (F : Finset Field) (p : OraclePath) : Prop where
  root : ∀ v, p.root = .var v → v ∈ V
  fields : ∀ f, Segment.field f ∈ p.segments → f ∈ F

def AliasSet.Within (V : Finset Variable) (F : Finset Field) (s : AliasSet) : Prop :=
  ∀ p ∈ s, p.Within V F

theorem AliasSet.within_empty : AliasSet.empty.Within V F := by
  intro p hp
  cases hp

/-- Whatever the oracle answers. -/
def Oracle.Within (V : Finset Variable) (F : Finset Field) (oracle : Oracle) : Prop :=
  ∀ ask a, oracle.solve ask = .ok a → a.aliases.Within V F

namespace Session

/-- Whatever is cached. -/
def Within (V : Finset Variable) (F : Finset Field) (s : Session) : Prop :=
  ∀ cache, s.cache = some cache → ∀ entry ∈ cache.entries, entry.2.Within V F

variable {s : Session} {c : Call}

theorem within_start (strategy : Sparsification) (config : Config) : Within V F (start strategy config) := by
  intro cache hc entry he
  simp only [start] at hc
  split at hc
  · cases hc
    cases he
  · cases hc

/-- A call answers from the cache or the oracle, and caches what the oracle answers. -/
theorem within_reply (hs : s.Within V F) (ho : c.oracle.Within V F) :
    (s.reply c).session.Within V F ∧
      ∀ aliases, (s.reply c).result = .ok aliases → aliases.Within V F := by
  have h := s.replied c
  generalize s.reply c = r at h ⊢
  cases h with
  | disabled hd =>
    refine ⟨hs, fun aliases ha => ?_⟩
    cases ha
    exact AliasSet.within_empty
  | noQuery hd hq => exact ⟨hs, fun aliases ha => by cases ha⟩
  | failed hd hq hl he => exact ⟨hs, fun aliases ha => by cases ha⟩
  | hit hd hq hl =>
    obtain ⟨cache, cache', hc, hget, rfl⟩ := lookup_eq_some hl
    have hmem := QueryCache.mem_of_get hget
    constructor
    · intro kept hkept entry he
      cases hkept
      exact hs cache hc entry (hmem.2 entry he)
    · intro aliases ha
      cases ha
      exact hs cache hc _ hmem.1
  | @solved q a hd hq hl ha =>
    constructor
    · intro kept hkept entry he
      obtain ⟨cache, hc, rfl⟩ := Option.map_eq_some_iff.mp hkept
      rcases QueryCache.mem_of_insert he with rfl | hold
      · exact ho _ a ha
      · exact hs cache hc entry hold
    · intro aliases haliases
      cases haliases
      exact ho _ a ha

end Session

namespace Manager

/-- Whatever the live session caches. -/
def Within (V : Finset Variable) (F : Finset Field) (m : Manager) : Prop :=
  ∀ s, m.session = some s → s.Within V F

theorem within_of_create {program : Program} {config : Config} {notices : List Notice} {m : Manager}
    (hcreate : create program config = .ok (m, notices)) : m.Within V F := by
  obtain rfl := eq_of_create hcreate
  intro s hs
  cases hs

variable {m : Manager}

theorem within_after (hm : m.Within V F) {evs : List Ev}
    (h : ∀ e ∈ evs, ∀ oracle, e.oracle? = some oracle → oracle.Within V F) : Within V F (m.after evs) :=
  live_after (fun strategy => Session.within_start strategy m.config)
    (fun e he _ c ho hs => (Session.within_reply hs (h e he c.oracle ho)).1) hm

theorem getAliases_within (hm : m.Within V F) {oracle : Oracle} (ho : oracle.Within V F)
    {strategy : Sparsification} {stmt : Stmt} {method : Method} {v : Variable} {aliases : AliasSet}
    (h : (m.getAliases oracle strategy stmt method v).result = .ok aliases) : aliases.Within V F :=
  (Session.within_reply (c := ⟨m.program, oracle, stmt, method, v⟩)
    (live_sessionFor (fun strategy => Session.within_start strategy m.config) hm strategy) ho).2 aliases h

end Manager

end TaintAlias
