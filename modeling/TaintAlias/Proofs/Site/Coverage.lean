/-
  TaintAlias.Proofs.Site.Coverage — which locations an alias site taints.

  A fact says that every chain its path covers is tainted at its base. If another local
  `a` followed by some chain is an alias of that base, the same chains are tainted at
  `a` behind the alias. `CoversAliases` says that a set of facts holds all of these.

  Proved, for a call that queries and is answered (`taint_covers_alias_iff`):
  - a fact that is not cut off loses nothing: `CoversAliases` holds of the set the call
    leaves, for exact and summarised aliases, within and beyond the field limit;
  - a cut-off fact loses, behind an alias without wildcard that stays within the field
    limit, every location but the one its fields lead to: the mark is not carried over.
    Such a location is tainted only if an old fact or another alias covers it.

  So the law itself fails (`a_cut_off_fact_loses_its_subfields`): `v1.f2*` with the
  alias `v3` of `v1` gives `v3.f2`, which does not cover `v3.f2.f9`.
-/

import TaintAlias.Proofs.Site.Effect

namespace TaintAlias

namespace FactSet

/-- A fact of this source covers `chain` at `v`. -/
def Taints (s : FactSet) (source : Option Source) (v : Variable) (chain : List Step) : Prop :=
  ∃ f ∈ s, f.source = source ∧ f.path.base = some v ∧ f.path.CoversSteps chain

/-- Provenance does not matter to what is tainted. -/
theorem taints_iff_contains {s : FactSet} {source : Option Source} {v : Variable} {chain : List Step} :
    s.Taints source v chain ↔ ∃ f, s.contains f = true ∧
      f.source = source ∧ f.path.base = some v ∧ f.path.CoversSteps chain := by
  constructor
  · rintro ⟨f, hf, h⟩
    exact ⟨f, contains_iff.mpr ⟨f, hf, Fact.Same.refl f⟩, h⟩
  · rintro ⟨f, hf, hsource, hbase, hcov⟩
    obtain ⟨g, hg, hsame⟩ := contains_iff.mp hf
    have hpath : g.path = f.path := hsame.path
    have hsrc : g.source = f.source := hsame.source
    exact ⟨g, hg, hsrc.trans hsource, hpath ▸ hbase, hpath ▸ hcov⟩

end FactSet

namespace Site

variable {s : Site} {m : Manager} {oracle : Oracle} {context fact : Fact} {stmt : Stmt} {base : Variable}

/-- Whatever the fact and an alias of its base stand for together is tainted in `final`:
    behind every chain the alias expands to, every chain the fact covers. -/
def CoversAliases (s : Site) (base : Variable) (fact : Fact) (aliases : AliasSet) (final : FactSet) : Prop :=
  ∀ p ∈ aliases, ∀ a, p.root = .var a → a ≠ base → (∃ e, p.toEngine s.pathLength.toNat = .ok e) →
    ∀ way, Expands p.segments way → ∀ chain, fact.path.CoversSteps chain →
      final.Taints fact.source a (way ++ chain)

/-- A call taints what was tainted before and what the derived facts cover. -/
theorem taints_visit {aliases : AliasSet} {order : List OraclePath} (ho : order.Perm aliases.paths)
    {set : FactSet} {a : Variable} {chain : List Step} (ha : a ≠ base) :
    (s.visit stmt base fact order set).Taints fact.source a chain ↔ set.Taints fact.source a chain ∨
      ∃ q ∈ aliases, q.root = .var a ∧
        ∃ e, (q.append fact.path.fields).toEngine s.pathLength.toNat = .ok e ∧ e.CoversSteps chain := by
  rw [FactSet.taints_iff_contains, FactSet.taints_iff_contains]
  constructor
  · rintro ⟨f, hf, hsource, hbase, hcov⟩
    rcases (contains_visit ho set f).mp hf with hf | ⟨q, hq, -, e, he, hsame⟩
    · exact Or.inl ⟨f, hf, hsource, hbase, hcov⟩
    · have hpath : e = f.path := hsame.path
      have hroot : q.base? = some a := by
        rw [← OraclePath.append_base? q fact.path.fields, ← OraclePath.base_of_toEngine he, hpath, hbase]
      exact Or.inr ⟨q, hq, OraclePath.base?_eq_some.mp hroot, e, he, hpath ▸ hcov⟩
  · rintro (⟨f, hf, h⟩ | ⟨q, hq, hroot, e, he, hcov⟩)
    · exact ⟨f, (contains_visit ho set f).mpr (Or.inl hf), h⟩
    · have hbase : q.base? = some a := OraclePath.base?_eq_some.mpr hroot
      have hne : q.base? ≠ some base := by
        rw [hbase]; exact fun h => ha (Option.some.inj h)
      refine ⟨.derived fact e stmt, (contains_visit ho set _).mpr
        (Or.inr ⟨q, hq, hne, e, he, Fact.Same.refl _⟩), rfl, ?_, hcov⟩
      exact (OraclePath.base_of_toEngine he).trans hbase

/-- Where the fact derived for `p` falls short, only old facts and other aliases help. -/
theorem taints_visit_alias {aliases : AliasSet} {order : List OraclePath} (ho : order.Perm aliases.paths)
    {set : FactSet} {p : OraclePath} {a : Variable} {e : EnginePath} {way chain : List Step} (hp : p ∈ aliases)
    (hroot : p.root = .var a) (ha : a ≠ base) (he : p.toEngine s.pathLength.toNat = .ok e)
    (hway : Expands p.segments way) (hchain : fact.path.CoversSteps chain) :
    (s.visit stmt base fact order set).Taints fact.source a (way ++ chain) ↔
      p.isSummary = true ∨ s.pathLength.toNat < p.segments.length + fact.path.fields.length ∨
      chain = fact.path.fields.map .field ∨ set.Taints fact.source a (way ++ chain) ∨
      ∃ q ∈ aliases, q ≠ p ∧ q.root = .var a ∧
        ∃ e, (q.append fact.path.fields).toEngine s.pathLength.toNat = .ok e ∧ e.CoversSteps (way ++ chain) := by
  obtain ⟨e', he', hcov⟩ := OraclePath.toEngine_append_covers fact.path.fields he hway
    (EnginePath.prefix_of_coversSteps hchain)
  rw [taints_visit ho ha]
  constructor
  · rintro (hset | ⟨q, hq, hqroot, e₁, he₁, hcov₁⟩)
    · exact Or.inr (Or.inr (Or.inr (Or.inl hset)))
    · by_cases hqp : q = p
      · subst hqp
        obtain rfl : e' = e₁ := Except.ok.inj (he'.symm.trans he₁)
        rcases hcov.mp hcov₁ with h | h | h
        · exact Or.inl h
        · exact Or.inr (Or.inl h)
        · exact Or.inr (Or.inr (Or.inl h))
      · exact Or.inr (Or.inr (Or.inr (Or.inr ⟨q, hq, hqp, hqroot, e₁, he₁, hcov₁⟩)))
  · rintro (h | h | h | h | ⟨q, hq, -, h⟩)
    · exact Or.inr ⟨p, hp, hroot, e', he', hcov.mpr (Or.inl h)⟩
    · exact Or.inr ⟨p, hp, hroot, e', he', hcov.mpr (Or.inr (Or.inl h))⟩
    · exact Or.inr ⟨p, hp, hroot, e', he', hcov.mpr (Or.inr (Or.inr h))⟩
    · exact Or.inl h
    · exact Or.inr ⟨q, hq, h⟩

/-- A call that queries and is answered succeeds. It taints everything behind the
    aliases of a fact that is not cut off. Behind an alias of a cut-off fact, a location
    is tainted exactly if the alias has a wildcard, or the field limit shortens the
    result, or the location ends with the fact's fields, or an old fact or another alias
    covers it. -/
theorem taint_covers_alias_iff {aliases : AliasSet} (target : Option Variable) (set : FactSet) (method : Method)
    (h : (s.classify m.program context stmt fact).base? = some base)
    (hans : (m.getAliases oracle s.strategy stmt (m.program.methodOf stmt) base).result = .ok aliases) :
    let o := s.taint m oracle context stmt target set method fact
    o.result = .ok () ∧
    (fact.path.cutOff = false → s.CoversAliases base fact aliases o.set) ∧
    ∀ p ∈ aliases, ∀ a, p.root = .var a → a ≠ base → (∃ e, p.toEngine s.pathLength.toNat = .ok e) →
      ∀ way, Expands p.segments way → ∀ chain, fact.path.CoversSteps chain →
        (o.set.Taints fact.source a (way ++ chain) ↔
          p.isSummary = true ∨ s.pathLength.toNat < p.segments.length + fact.path.fields.length ∨
          chain = fact.path.fields.map .field ∨ set.Taints fact.source a (way ++ chain) ∨
          ∃ q ∈ aliases, q ≠ p ∧ q.root = .var a ∧
            ∃ e, (q.append fact.path.fields).toEngine s.pathLength.toNat = .ok e ∧
              e.CoversSteps (way ++ chain)) := by
  intro o
  obtain ⟨hresult, hset⟩ := taint_of_answer target set method h hans
  have hloc : o.set = s.visit stmt base fact aliases.paths set := hset
  refine ⟨hresult, ?_, ?_⟩
  · rintro hcut p hp a hroot ha ⟨e, he⟩ way hway chain hchain
    rw [hloc, taints_visit_alias (List.Perm.refl _) hp hroot ha he hway hchain]
    exact Or.inr (Or.inr (Or.inl (EnginePath.eq_of_coversSteps hcut hchain)))
  · rintro p hp a hroot ha ⟨e, he⟩ way hway chain hchain
    rw [hloc]
    exact taints_visit_alias (List.Perm.refl _) hp hroot ha he hway hchain

/-- Behind a wildcard even a cut-off fact loses nothing. -/
theorem taint_covers_alias_iff_wildcard :
    let o := oneWriteSite.taint oneWriteManager (answering mixedAliases) .zero ⟨1⟩ none .empty ⟨1⟩ cutOffFact
    Expands [.field ⟨5⟩, .wildcard] [.field ⟨5⟩] ∧ cutOffFact.path.CoversSteps [.field ⟨2⟩, .field ⟨9⟩] ∧
      o.set.Taints cutOffFact.source ⟨3⟩ [.field ⟨5⟩, .field ⟨2⟩, .field ⟨9⟩] := by
  have hway : Expands [.field ⟨5⟩, .wildcard] [.field ⟨5⟩] := .field ⟨5⟩ (.wildcard [] .nil)
  have hchain : cutOffFact.path.CoversSteps [.field ⟨2⟩, .field ⟨9⟩] := ⟨[.field ⟨9⟩], rfl⟩
  have hp : (⟨.var ⟨3⟩, [.field ⟨5⟩, .wildcard]⟩ : OraclePath) ∈ mixedAliases :=
    AliasSet.mem_ofList.mpr (by decide)
  have hbase : (oneWriteSite.classify oneWriteManager.program .zero ⟨1⟩ cutOffFact).base? = some ⟨1⟩ := by
    decide
  have hans : (oneWriteManager.getAliases (answering mixedAliases) oneWriteSite.strategy ⟨1⟩
      (oneWriteManager.program.methodOf ⟨1⟩) ⟨1⟩).result = .ok mixedAliases := rfl
  obtain ⟨-, -, hcov⟩ := taint_covers_alias_iff none .empty ⟨1⟩ hbase hans
  exact ⟨hway, hchain, (hcov _ hp ⟨3⟩ rfl (by decide) ⟨_, rfl⟩ _ hway _ hchain).mpr (Or.inl rfl)⟩

/-! ## What a cut-off fact loses -/

/-- The base and one other local. -/
def plainAliases : AliasSet := .ofList [⟨.var ⟨3⟩, []⟩, ⟨.var ⟨1⟩, []⟩]

/-- `v1.f2*` covers `v1.f2.f9` and `v3` is an alias of `v1`, but `v3.f2.f9` is not
    tainted. -/
theorem a_cut_off_fact_loses_its_subfields :
    let o := oneWriteSite.taint oneWriteManager (answering plainAliases) .zero ⟨1⟩ none .empty ⟨1⟩ cutOffFact
    o.result = .ok () ∧ ¬ oneWriteSite.CoversAliases ⟨1⟩ cutOffFact plainAliases o.set := by
  refine ⟨rfl, fun h => ?_⟩
  have hp : OraclePath.ofLocal ⟨3⟩ ∈ plainAliases := AliasSet.mem_ofList.mpr (by decide)
  obtain ⟨f, hf, -, -, hcov⟩ := h _ hp ⟨3⟩ rfl (by decide) ⟨_, rfl⟩ [] .nil
    [.field ⟨2⟩, .field ⟨9⟩] ⟨[.field ⟨9⟩], rfl⟩
  -- the call derives the one fact `v3.f2`
  obtain rfl := List.mem_singleton.mp hf
  exact absurd ((EnginePath.coversSteps_exact _ _ _).mp hcov) (by decide)

end Site

end TaintAlias
