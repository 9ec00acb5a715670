/-
  TaintAlias.Proofs.Site.Dialogue — what a call at an alias site asks of the manager.

  A call is a dialogue, which has one way to the manager: it has the session of a strategy
  answer a query. All its queries are part of what it comes to, also where the answer
  changes nothing.

  `Queries` lists, in words of the program and the fact alone, what it takes for a fact
  to be queried at a statement: no ignored fragment occurs in the signature of the method
  (`ignores_iff`), the fact has a base, and the statement is no call or is a return site
  that is handled, for a fact with a field that is not the one the caller's context
  starts from. A call comes to name a base exactly then (`queries_of_base?`,
  `base?_of_queries`).

  `queries_iff` says that exactly then the sessions are asked at all, for one query, and
  that any other call succeeds and leaves the set and the manager alone.
-/

import TaintAlias.Proofs.Manager.Run

namespace TaintAlias

namespace Site

variable {s : Site} {m : Manager} {oracle : Oracle} {program : Program} {context fact : Fact} {stmt : Stmt}
  {base : Variable}

/-! ## When a fact is queried -/

theorem occursIn_iff {needle hay : List Char} : occursIn needle hay = true ↔ needle <:+: hay := by
  induction hay with
  | nil => simp [occursIn]
  | cons c rest ih =>
    rw [occursIn, Bool.or_eq_true, List.isPrefixOf_iff_prefix, ih, List.infix_cons_iff]

theorem ignores_iff {signature : String} :
    s.ignores signature = true ↔ ∃ fragment ∈ s.ignored, fragment.toList <:+: signature.toList := by
  simp only [ignores, List.any_eq_true, occursIn_iff]

/-- What it takes for a fact to be queried at a statement. -/
structure Queries (s : Site) (program : Program) (context : Fact) (stmt : Stmt) (fact : Fact) : Prop where
  unignored : ∀ fragment ∈ s.ignored,
    ¬ fragment.toList <:+: (program.signature (program.methodOf stmt)).toList
  rooted : ∃ base, fact.path.base = some base
  site : program.isCall stmt = false ∨
    program.isCall stmt = true ∧ s.returnSites.handled = true ∧ fact.path.fields ≠ [] ∧
      (context.path ≠ fact.path ∨ context.source ≠ fact.source)

theorem not_ignores_iff {signature : String} :
    ¬ s.ignores signature = true ↔ ∀ fragment ∈ s.ignored, ¬ fragment.toList <:+: signature.toList := by
  rw [ignores_iff]
  exact ⟨fun h fragment hf hin => h ⟨fragment, hf, hin⟩, fun h ⟨fragment, hf, hin⟩ => h fragment hf hin⟩

theorem not_same_iff {f g : Fact} : ¬ f.Same g ↔ f.path ≠ g.path ∨ f.source ≠ g.source := by
  rw [← not_and_or]
  exact not_congr Prod.ext_iff

theorem queries_of_base? (h : (s.classify program context stmt fact).base? = some base) :
    s.Queries program context stmt fact ∧ fact.path.base = some base := by
  obtain ⟨hignored, hbase, hsite⟩ := classify_of_base? h
  refine ⟨⟨not_ignores_iff.mp hignored, ⟨base, hbase⟩, ?_⟩, hbase⟩
  rcases hsite with ⟨hcall, -⟩ | ⟨hcall, hhandled, hcontext, front, last, hfields, -⟩
  · exact Or.inl hcall
  · refine Or.inr ⟨hcall, hhandled, ?_, not_same_iff.mp hcontext⟩
    rw [← hfields]
    exact List.concat_ne_nil last front

theorem base?_of_queries (h : s.Queries program context stmt fact) (hb : fact.path.base = some base) :
    (s.classify program context stmt fact).base? = some base := by
  have hignored := not_ignores_iff.mpr h.unignored
  unfold classify
  simp only [if_neg hignored, hb]
  rcases h.site with hcall | ⟨hcall, hhandled, hfields, hcontext⟩
  · simp only [hcall, Bool.false_eq_true, if_false]
    rfl
  · have hlast := List.getLast?_eq_some_getLast hfields
    simp only [hcall, hhandled, if_true, hlast, if_neg (not_same_iff.mpr hcontext)]
    rfl

theorem base?_classify_eq_none (h : ¬ s.Queries program context stmt fact) :
    (s.classify program context stmt fact).base? = none := by
  rw [Option.eq_none_iff_forall_not_mem]
  intro base hbase
  exact h (queries_of_base? hbase).1

/-! ## What is asked -/

/-- What a queried fact costs: one query, for its base, at the session of the site's
    strategy. That session is the live one afterwards, and its reply decides the result. -/
theorem taint_of_queries (oracle : Oracle) (target : Option Variable) (set : FactSet) (method : Method)
    (h : s.Queries m.program context stmt fact) :
    let o := s.taint m oracle context stmt target set method fact
    ∃ base, fact.path.base = some base ∧ o.queries = [⟨s.strategy, stmt, m.program.methodOf stmt, base⟩] ∧
      let r := (m.sessionFor s.strategy).1.reply ⟨m.program, oracle, stmt, m.program.methodOf stmt, base⟩
      o.manager = m.keep r.session ∧ o.asks = r.asked.toList ∧ o.result = r.result.map fun _ => () := by
  intro o
  obtain ⟨base, hb⟩ := h.rooted
  have hpasses : Passes o _ _ := taint_passes _ target set method (base?_of_queries h hb)
  exact ⟨base, hb, hpasses.queries, hpasses.manager, hpasses.asks, hpasses.result⟩

/-- Where another session is live, or none, a call shows whether it asked for one: the
    session of its strategy is live afterwards exactly if the fact is queried. -/
theorem active?_iff_queries (target : Option Variable) (set : FactSet) (method : Method)
    (h : m.active? ≠ some s.strategy) :
    (s.taint m oracle context stmt target set method fact).manager.active? = some s.strategy ↔
      s.Queries m.program context stmt fact := by
  by_cases hq : s.Queries m.program context stmt fact
  · obtain ⟨base, -, -, hmanager, -⟩ := taint_of_queries oracle target set method hq
    have hkept := (Session.reply_kept (m.sessionFor s.strategy).1
      ⟨m.program, oracle, stmt, m.program.methodOf stmt, base⟩).strategy
    rw [hmanager]
    exact iff_of_true (congrArg some (hkept.trans (m.sessionFor_strategy s.strategy))) hq
  · rw [taint_manager_of_none target set method (base?_classify_eq_none hq)]
    exact iff_of_false h hq

/-- A call is its dialogue with the manager. It queries a session exactly if the fact is
    queried at the statement, and if the session of its strategy is not live, it makes it
    so exactly then. It makes one query, for the fact's base, to the session of its
    strategy, whose reply decides what the call returns. Any other call succeeds and leaves
    everything as it was. -/
theorem queries_iff (s : Site) (m : Manager) (oracle : Oracle) (context : Fact) (stmt : Stmt)
    (target : Option Variable) (set : FactSet) (method : Method) (fact : Fact) :
    let o := s.taint m oracle context stmt target set method fact
    o = (s.dialogue m.program context stmt target set method fact).play oracle m ∧
    (o.queries ≠ [] ↔ s.Queries m.program context stmt fact) ∧
    (m.active? ≠ some s.strategy →
      (o.manager.active? = some s.strategy ↔ s.Queries m.program context stmt fact)) ∧
    (s.Queries m.program context stmt fact → ∃ base, fact.path.base = some base ∧
      o.queries = [⟨s.strategy, stmt, m.program.methodOf stmt, base⟩] ∧
      let r := (m.sessionFor s.strategy).1.reply ⟨m.program, oracle, stmt, m.program.methodOf stmt, base⟩
      o.manager = m.keep r.session ∧ o.asks = r.asked.toList ∧ o.result = r.result.map fun _ => ()) ∧
    (¬ s.Queries m.program context stmt fact →
      o.result = .ok () ∧ o.set = set ∧ o.manager = m ∧ o.asks = [] ∧ o.queries = []) := by
  intro o
  have hnone : ¬ s.Queries m.program context stmt fact →
      o.result = .ok () ∧ o.set = set ∧ o.manager = m ∧ o.asks = [] ∧ o.queries = [] := fun hq =>
    taint_of_none target set method (base?_classify_eq_none hq)
  refine ⟨rfl, ⟨?_, ?_⟩, active?_iff_queries target set method, taint_of_queries oracle target set method, hnone⟩
  · intro hasked
    by_contra hq
    exact hasked (hnone hq).2.2.2.2
  · intro hq
    obtain ⟨base, -, hqueries, -⟩ := taint_of_queries oracle target set method hq
    rw [show o.queries = _ from hqueries]
    exact List.cons_ne_nil _ _

/-- The write of `oneWrite` is a call here. -/
def oneCall : Program := { oneWrite with isCall := fun stmt => stmt = ⟨1⟩ }

def handlingSite : Site := { oneWriteSite with returnSites := .fieldWriteAndReturn }

/-- At a return site `v1` is queried once; nothing is asked if the context starts from
    the same fact, derived elsewhere. -/
theorem queries_iff_return_site :
    let m : Manager := ⟨oneCall, Preset.baseline.config, none⟩
    let asked (context : Fact) :=
      (handlingSite.taint m (answering mixedAliases) context ⟨1⟩ none .empty ⟨1⟩ cutOffFact).queries
    asked .zero = [⟨.none, ⟨1⟩, ⟨1⟩, ⟨1⟩⟩] ∧ asked (.derived cutOffFact cutOffFact.path ⟨6⟩) = [] := by
  intro m asked
  have holds (context : Fact) :=
    queries_iff handlingSite m (answering mixedAliases) context ⟨1⟩ none .empty ⟨1⟩ cutOffFact
  constructor
  · obtain ⟨-, -, -, hyes, -⟩ := holds .zero
    obtain ⟨base, hb, hasked, -⟩ := hyes ⟨not_ignores_iff.mp (by decide), ⟨_, rfl⟩, Or.inr (by decide)⟩
    cases hb
    exact hasked
  · obtain ⟨-, -, -, -, hno⟩ := holds (.derived cutOffFact cutOffFact.path ⟨6⟩)
    refine (hno ?_).2.2.2.2
    intro h
    rcases h.site with hcall | ⟨-, -, -, hne⟩
    · exact absurd hcall (by decide)
    · exact absurd hne (by decide)

end Site

end TaintAlias
