/-
  TaintAlias.Proofs.Site.ReturnSite — a handled return site does what a field write does.

  At a return site the fact's last field is split off, the aliases of the base are
  extended by the other fields, and the last one is appended again. At a field write
  they are extended by all fields at once.

  Two programs that differ only in whether a statement is a call (`Program.DifferAt`)
  show what comes of this. Of a manager the program is only read for the method and the
  successors of a statement, so its sessions answer alike in both
  (`getAliases_program`). A fact with a base and a field, other than the one the
  caller's context starts from, is then treated the same at the call as at the write:
  same dialogue, same question to the oracle, same result, session, facts and notices
  (`return_site_agrees`). Whatever the answer, each alias is extended by the fact's
  fields in their order.
-/

import TaintAlias.Proofs.Site.Dialogue

namespace TaintAlias

/-- One program read in two ways: at `stmt` a call in one, none in the other. -/
structure Program.DifferAt (stmt : Stmt) (called written : Program) : Prop where
  methodOf : written.methodOf = called.methodOf
  successors : written.successors = called.successors
  signature : written.signature = called.signature
  elsewhere : ∀ t, t ≠ stmt → written.isCall t = called.isCall t
  call : called.isCall stmt = true
  write : written.isCall stmt = false

/-- The same sessions over another program. -/
def Manager.withProgram (m : Manager) (program : Program) : Manager := { m with program }

variable {s : Site} {m : Manager} {oracle : Oracle} {context fact : Fact} {stmt : Stmt} {base : Variable}
  {called written : Program}

theorem Manager.getAliases_program (h : written.successors = called.successors) (strategy : Sparsification)
    (stmt : Stmt) (method : Method) (v : Variable) :
    (m.withProgram written).getAliases oracle strategy stmt method v =
      let r := (m.withProgram called).getAliases oracle strategy stmt method v
      { r with manager := r.manager.withProgram written } := by
  have hbuild : Query.build? written stmt method v = Query.build? called stmt method v := by
    unfold Query.build?
    rw [h]
  simp only [getAliases, Session.getAliases, withProgram, hbuild]
  rfl

/-- A dialogue takes the same course with the same sessions over either program. -/
theorem Dialogue.play_program (h : written.successors = called.successors) (d : Dialogue) (m : Manager) :
    d.play oracle (m.withProgram written) =
      let o := d.play oracle (m.withProgram called)
      { o with manager := o.manager.withProgram written } := by
  induction d generalizing m with
  | done result set => rfl
  | report notices next ih => simp only [play, ih]
  | query q next ih =>
    have hkept : ((m.withProgram called).getAliases oracle q.strategy q.stmt q.method q.var).manager.withProgram
        called = ((m.withProgram called).getAliases oracle q.strategy q.stmt q.method q.var).manager := rfl
    have hnext := ih ((m.withProgram called).getAliases oracle q.strategy q.stmt q.method q.var).result
      ((m.withProgram called).getAliases oracle q.strategy q.stmt q.method q.var).manager
    rw [hkept] at hnext
    simp only [play, Manager.getAliases_program h, hnext]

namespace Site

/-- The fact is queried at the call, and at the write. -/
theorem queries_of_differ (hprograms : Program.DifferAt stmt called written)
    (hmode : s.returnSites = .fieldWriteAndReturn)
    (hignored : ∀ fragment ∈ s.ignored,
      ¬ fragment.toList <:+: (called.signature (called.methodOf stmt)).toList)
    (hbase : fact.path.base = some base) (hfields : fact.path.fields ≠ []) (hcontext : ¬ context.Same fact) :
    s.Queries called context stmt fact ∧ s.Queries written context stmt fact := by
  have hhandled : s.returnSites.handled = true := by
    rw [hmode]
    rfl
  constructor
  · exact ⟨hignored, ⟨base, hbase⟩, Or.inr ⟨hprograms.call, hhandled, hfields, not_same_iff.mp hcontext⟩⟩
  · refine ⟨?_, ⟨base, hbase⟩, Or.inl hprograms.write⟩
    rw [hprograms.signature, hprograms.methodOf]
    exact hignored

/-- Where return sites are handled, a call at a call statement says, asks, returns and
    leaves what it would if the statement were a field write. -/
theorem return_site_agrees (m : Manager) (oracle : Oracle) (target : Option Variable) (set : FactSet)
    (method : Method) (hprograms : Program.DifferAt stmt called written)
    (hmode : s.returnSites = .fieldWriteAndReturn)
    (hignored : ∀ fragment ∈ s.ignored,
      ¬ fragment.toList <:+: (called.signature (called.methodOf stmt)).toList)
    (hbase : fact.path.base = some base) (hfields : fact.path.fields ≠ []) (hcontext : ¬ context.Same fact) :
    let o := s.taint (m.withProgram called) oracle context stmt target set method fact
    let o' := s.taint (m.withProgram written) oracle context stmt target set method fact
    s.dialogue called context stmt target set method fact =
      s.dialogue written context stmt target set method fact ∧
    o.asked = o'.asked ∧ o.result = o'.result ∧ o.manager.session = o'.manager.session ∧ o.set = o'.set ∧
    o.notices = o'.notices ∧
    ∀ aliases, ((m.withProgram called).getAliases oracle s.strategy stmt (called.methodOf stmt) base).result =
      .ok aliases → o.set = s.visit stmt base fact aliases.paths set := by
  intro o o'
  obtain ⟨hcalled, hwritten⟩ := queries_of_differ hprograms hmode hignored hbase hfields hcontext
  have hkind := base?_of_queries hcalled hbase
  have hkind' := base?_of_queries hwritten hbase
  have hdialogue : s.dialogue called context stmt target set method fact =
      s.dialogue written context stmt target set method fact := by
    rw [dialogue_of_base target set method hkind, dialogue_of_base target set method hkind', inquire, inquire,
      hprograms.methodOf]
  have ho' : o' = { o with manager := o.manager.withProgram written } :=
    (congrArg (Dialogue.play oracle _) hdialogue.symm).trans (Dialogue.play_program hprograms.successors _ m)
  refine ⟨hdialogue, ?_⟩
  rw [ho']
  refine ⟨rfl, rfl, rfl, rfl, rfl, ?_⟩
  intro aliases ha
  exact (taint_of_answer (m := m.withProgram called) target set method hkind ha).2

/-- `v1.f2.f6` is tainted. -/
def deepFact : Fact := .tainted ⟨⟨0⟩, "in"⟩ ⟨some ⟨1⟩, [⟨2⟩, ⟨6⟩], false⟩

/-- One alias ends in a wildcard and hides both fields, one is extended by them. -/
theorem return_site_agrees_once :
    let run (program : Program) := handlingSite.taint (oneWriteManager.withProgram program)
      (answering mixedAliases) .zero ⟨1⟩ none .empty ⟨1⟩ deepFact
    (run oneCall).set.facts.map (·.path) = [⟨some ⟨3⟩, [⟨5⟩], true⟩, ⟨some ⟨4⟩, [⟨2⟩, ⟨6⟩], false⟩] ∧
      (run oneCall).asked = (run oneWrite).asked ∧ (run oneCall).set = (run oneWrite).set := by
  intro run
  have hprograms : Program.DifferAt ⟨1⟩ oneCall oneWrite :=
    ⟨rfl, rfl, rfl, fun t ht => by simp [oneCall, oneWrite, ht], by decide, rfl⟩
  have hcontext : ¬ Fact.zero.Same deepFact := by decide
  obtain ⟨-, hasked, -, -, hset, -⟩ := return_site_agrees (s := handlingSite) oneWriteManager
    (answering mixedAliases) none .empty ⟨1⟩ hprograms rfl (not_ignores_iff.mp (by decide)) rfl (by decide) hcontext
  exact ⟨by decide, hasked, hset⟩

end Site

end TaintAlias
