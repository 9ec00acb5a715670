/-
  TaintAlias.Proofs.Site.Provenance — where a fact comes from decides nothing.

  Two runs of one call are compared. The fact, the fact the caller's context starts from
  and the facts of the set may be replaced by others that are the same up to provenance;
  the target and the method, which the caller only names, may be anything.

  Both runs classify the fact alike (`classify_congr`), so either neither asks for a
  session or both send the same query through the same session, and derive facts with
  the same paths and sources (`contains_visit_congr`). Result, question, manager and,
  up to provenance, the set are the same (`provenance_irrelevant`). Recorded contexts
  compare facts up to provenance everywhere, so there it decides nothing either.
-/

import TaintAlias.Proofs.CallContexts
import TaintAlias.Proofs.Site.Effect

namespace TaintAlias

/-- The same facts up to provenance. -/
def FactSet.Alike (s t : FactSet) : Prop := ∀ f, s.contains f = t.contains f

/-- What is derived from the same fact is the same. -/
theorem Fact.Same.derived {f g : Fact} (h : f.Same g) (path : EnginePath) (stmt stmt' : Stmt) :
    Same (.derived f path stmt) (.derived g path stmt') :=
  Prod.ext rfl h.source

namespace Site

variable {s : Site} {m : Manager} {oracle : Oracle} {context context' fact fact' : Fact} {stmt : Stmt}
  {base : Variable} {set set' : FactSet}

theorem classify_congr (s : Site) (program : Program) (stmt : Stmt) (hcontext : context.Same context')
    (hfact : fact.Same fact') :
    s.classify program context stmt fact = s.classify program context' stmt fact' := by
  have hown : context.Same fact ↔ context'.Same fact' :=
    ⟨fun h => hcontext.symm.trans (h.trans hfact), fun h => hcontext.trans (h.trans hfact.symm)⟩
  simp only [classify, hfact.path, hown]

/-- Walking the same aliases adds the same facts to the same set. -/
theorem contains_visit_congr (hfact : fact.Same fact') (hset : set.Alike set') (aliases : AliasSet) :
    (s.visit stmt base fact aliases.paths set).Alike (s.visit stmt base fact' aliases.paths set') := by
  intro f
  have hderived : ∀ e, Fact.Same (.derived fact e stmt) f ↔ Fact.Same (.derived fact' e stmt) f :=
    fun e => ⟨(hfact.symm.derived e stmt stmt).trans, (hfact.derived e stmt stmt).trans⟩
  rw [Bool.eq_iff_iff, contains_visit (List.Perm.refl _), contains_visit (List.Perm.refl _), hset f,
    hfact.path]
  simp only [hderived]

/-- A call that queries meets the same answer in both runs. -/
theorem taint_congr_of_base (target target' : Option Variable) (method method' : Method)
    (hfact : fact.Same fact') (hset : set.Alike set')
    (h : (s.classify m.program context stmt fact).base? = some base)
    (h' : (s.classify m.program context' stmt fact').base? = some base) :
    let o := s.taint m oracle context stmt target set method fact
    let o' := s.taint m oracle context' stmt target' set' method' fact'
    o.result = o'.result ∧ o.asked = o'.asked ∧ o.manager = o'.manager ∧ o.set.Alike o'.set := by
  intro o o'
  have hpasses : Passes o _ _ := taint_passes _ target set method h
  have hpasses' : Passes o' _ _ := taint_passes _ target' set' method' h'
  refine ⟨hpasses.result.trans hpasses'.result.symm, hpasses.asked.trans hpasses'.asked.symm,
    hpasses.manager.trans hpasses'.manager.symm, ?_⟩
  cases hr : (m.getAliases oracle s.strategy stmt (m.program.methodOf stmt) base).result with
  | error e =>
    have hsame : o.set = set := taint_set_of_error target set method h hr
    have hsame' : o'.set = set' := taint_set_of_error target' set' method' h' hr
    rw [hsame, hsame']
    exact hset
  | ok aliases =>
    have hvisit : o.set = _ := (taint_of_answer target set method h hr).2
    have hvisit' : o'.set = _ := (taint_of_answer target' set' method' h' hr).2
    rw [hvisit, hvisit']
    exact contains_visit_congr hfact hset aliases

/-- Two runs of a call on facts that are the same up to provenance, with any targets and
    methods named, return the same, ask the same, leave the same manager, and leave the
    same set up to provenance. Recorded contexts answer the same to the same operations
    on facts that are the same. -/
theorem provenance_irrelevant (s : Site) (m : Manager) (oracle : Oracle) (stmt : Stmt) :
    (∀ {context context' fact fact' : Fact} {set set' : FactSet} (target target' : Option Variable)
        (method method' : Method), context.Same context' → fact.Same fact' → set.Alike set' →
      let o := s.taint m oracle context stmt target set method fact
      let o' := s.taint m oracle context' stmt target' set' method' fact'
      o.result = o'.result ∧ o.asked = o'.asked ∧ o.manager = o'.manager ∧ o.set.Alike o'.set) ∧
    ∀ (c : CallContexts) {evs evs' : List CallContexts.Ev}, List.Forall₂ CallContexts.Ev.Same evs evs' →
      List.Forall₂ CallContexts.Out.Same (c.outs evs) (c.outs evs') := by
  constructor
  · intro context context' fact fact' set set' target target' method method' hcontext hfact hset
    have hkind := classify_congr s m.program stmt hcontext hfact
    cases hb : (s.classify m.program context stmt fact).base? with
    | some base => exact taint_congr_of_base target target' method method' hfact hset hb (hkind ▸ hb)
    | none =>
      obtain ⟨hresult, hset₁, hmanager, hasks, -⟩ :=
        @taint_of_none s m oracle context fact stmt target set method hb
      obtain ⟨hresult', hset₂, hmanager', hasks', -⟩ :=
        @taint_of_none s m oracle context' fact' stmt target' set' method' (hkind ▸ hb)
      refine ⟨hresult.trans hresult'.symm, congrArg List.head? (hasks.trans hasks'.symm),
        hmanager.trans hmanager'.symm, ?_⟩
      rw [hset₁, hset₂]
      exact hset
  · intro c evs evs' hevs
    exact CallContexts.outs_congr (CallContexts.sameRows_refl c.entries) hevs

/-- `v1.f2*` again, derived from itself at another statement. -/
def rederivedFact : Fact := .derived cutOffFact cutOffFact.path ⟨6⟩

/-- The aliases of `v1` taint `v3` and `v4` with either fact, and either may stand in the
    records. -/
theorem provenance_irrelevant_rederived :
    let run (context fact : Fact) (set : FactSet) (target : Option Variable) (method : Method) :=
      oneWriteSite.taint oneWriteManager (answering mixedAliases) context ⟨1⟩ target set method fact
    let o := run .zero cutOffFact ⟨[cutOffFact]⟩ none ⟨1⟩
    let o' := run (.derived .zero .empty ⟨8⟩) rederivedFact ⟨[rederivedFact]⟩ (some ⟨5⟩) ⟨4⟩
    let outs (fact : Fact) := CallContexts.empty.outs [.record ⟨⟨3⟩, cutOffFact⟩ ⟨⟨9⟩, fact⟩, .callers ⟨⟨3⟩, fact⟩]
    o.set.facts.map (·.path) =
      [cutOffFact.path, ⟨some ⟨3⟩, [⟨5⟩], true⟩, ⟨some ⟨4⟩, [⟨2⟩], false⟩] ∧
    (o.result = o'.result ∧ o.asked = o'.asked ∧ o.manager = o'.manager ∧ o.set.Alike o'.set) ∧
    List.Forall₂ CallContexts.Out.Same (outs cutOffFact) (outs rederivedFact) := by
  intro run o o' outs
  obtain ⟨htaint, houts⟩ := provenance_irrelevant oneWriteSite oneWriteManager (answering mixedAliases) ⟨1⟩
  have hsame : cutOffFact.Same rederivedFact := rfl
  refine ⟨by decide, htaint none (some ⟨5⟩) ⟨1⟩ ⟨4⟩ rfl hsame fun _ => rfl, houts .empty ?_⟩
  exact .cons ⟨⟨rfl, rfl⟩, ⟨rfl, hsame⟩⟩ (.cons ⟨rfl, hsame⟩ .nil)

end Site

end TaintAlias
