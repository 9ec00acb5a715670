/-
  TaintAlias.Proofs.Site.Limit — the alias stage under a smaller field limit.

  Limits come down to their minimum: limiting twice is limiting once, by the smaller
  limit (`limit_limit`), so a path translates under a smaller limit to what it translates
  to under a larger one, limited again (`toEngine_limit`). The cut-off mark is set by a
  wildcard or by either limit, and stands for more than the path without it
  (`coversSteps_limit`).

  Two runs of the alias stage are compared: the same calls, with the same facts, through
  managers and sites that differ in the field limit alone (`limitedTo`). The limit is
  applied to answers only, so both ask the same, get the same and derive facts for the
  same aliases (`exists_gains`). So each fact of one run corresponds to one of the other:
  it is the same or shortened (`Shortens`), and then includes it (`Shortens.includes`).
  A call keeps this (`limited_turn`), and so does a run of calls (`smaller_limit_covers`).
-/

import TaintAlias.Proofs.Manager.Workers

namespace TaintAlias

/-! ## Limits in a row -/

namespace EnginePath

theorem eq_of_parts {e e' : EnginePath} (hbase : e.base = e'.base) (hfields : e.fields = e'.fields)
    (hcut : e.cutOff = e'.cutOff) : e = e' := by
  cases e
  cases e'
  cases hbase
  cases hfields
  cases hcut
  rfl

theorem limit_limit (j k : Nat) (e : EnginePath) : (e.limit k).limit j = e.limit (min j k) := by
  apply eq_of_parts
  · simp only [limit_base]
  · simp only [limit_fields, List.take_take]
  · simp only [limit_cutOff, limit_fields, List.length_take, Bool.or_assoc, ← Bool.decide_or]
    congr 2
    exact propext ⟨fun h => by omega, fun h => by omega⟩

end EnginePath

theorem OraclePath.toEngine_limit {j k : Nat} (h : j ≤ k) (p : OraclePath) :
    p.toEngine j = (p.toEngine k).map (·.limit j) := by
  unfold toEngine
  cases p.root with
  | var v =>
    cases namedFields 0 p.segments with
    | error err => rfl
    | ok r =>
      obtain ⟨fs, cut⟩ := r
      have hlimit := EnginePath.limit_limit j k ⟨some v, fs, cut⟩
      rw [Nat.min_eq_left h] at hlimit
      exact congrArg Except.ok hlimit.symm
  | static f => rfl
  | allocation s => rfl

/-! ## Facts under two limits -/

namespace Fact

/-- Same source, same local, and stands for all that `f` does. -/
def Includes (g f : Fact) : Prop :=
  g.source = f.source ∧ g.path.base = f.path.base ∧ ∀ chain, f.path.CoversSteps chain → g.path.CoversSteps chain

/-- `f` as it is or with at most `j` fields, whatever the provenance. -/
def Shortens (j : Nat) (g f : Fact) : Prop :=
  g.source = f.source ∧ (g.path = f.path ∨ g.path = f.path.limit j)

variable {j : Nat} {f f' g g' : Fact}

theorem Shortens.includes (h : g.Shortens j f) : g.Includes f := by
  obtain ⟨hsource, hpath⟩ := h
  rcases hpath with hpath | hpath
  · exact ⟨hsource, congrArg _ hpath, fun chain hchain => hpath ▸ hchain⟩
  · refine ⟨hsource, ?_, fun chain hchain => ?_⟩
    · rw [hpath, EnginePath.limit_base]
    · rw [hpath]
      exact EnginePath.coversSteps_limit j hchain

theorem Shortens.of_same (h : g.Shortens j f) (hg : g'.Same g) (hf : f'.Same f) : g'.Shortens j f' := by
  unfold Shortens at h ⊢
  rw [hg.path, hg.source, hf.path, hf.source]
  exact h

end Fact

/-- Facts that have a counterpart still have one when counterparts come in. -/
theorem FactSet.matched_insertAll {R : Fact → Fact → Prop} {s t : FactSet} {fs gs : List Fact}
    (hR : ∀ {f g g' : Fact}, R f g → g'.Same g → R f g') (h : ∀ f ∈ s, ∃ g ∈ t, R f g)
    (hnew : ∀ f ∈ fs, ∃ g ∈ gs, R f g) : ∀ f ∈ s.insertAll fs, ∃ g ∈ t.insertAll gs, R f g := by
  intro f hf
  obtain ⟨added, hfacts, -, hadded⟩ := s.insertAll_facts fs
  obtain ⟨kept, hkept, -, -⟩ := t.insertAll_facts gs
  have hf' : f ∈ s.facts ++ added := hfacts ▸ hf
  rcases List.mem_append.mp hf' with hf' | hf'
  · obtain ⟨g, hg, hfg⟩ := h f hf'
    have hin : g ∈ (t.insertAll gs).facts := by
      rw [hkept]
      exact List.mem_append_left _ hg
    exact ⟨g, hin, hfg⟩
  · obtain ⟨g, hg, hfg⟩ := hnew f (hadded f hf').1
    obtain ⟨g', hg', hsame⟩ := contains_iff.mp (contains_insertAll.mpr (Or.inr ⟨g, hg, Fact.Same.refl g⟩))
    exact ⟨g', hg', hR hfg hsame⟩

/-! ## One call under two limits -/

def Manager.limitedTo (m : Manager) (k : UInt64) : Manager :=
  { m with config := { m.config with pathLength := k } }

def Site.limitedTo (s : Site) (k : UInt64) : Site := { s with pathLength := k }

namespace Site

variable {s : Site} {m : Manager} {oracle : Oracle} {context fact : Fact} {stmt : Stmt}

/-- What a call returns, what it leaves of the manager and which aliases it derives facts
    for are the same under any limits of site and manager. -/
theorem exists_gains (s : Site) (m : Manager) (oracle : Oracle) (context : Fact) (stmt : Stmt)
    (target : Option Variable) (method : Method) (fact : Fact) :
    ∃ (result : Except AliasError Unit) (after : Manager) (base : Variable) (order : List OraclePath),
      ∀ (k l : UInt64) (set : FactSet),
        let o := (s.limitedTo k).taint (m.limitedTo l) oracle context stmt target set method fact
        o.result = result ∧ o.manager = after.limitedTo l ∧
          o.set = set.insertAll ((s.limitedTo k).gains stmt base fact order) := by
  cases hbase : (s.classify m.program context stmt fact).base? with
  | none =>
    refine ⟨.ok (), m, ⟨0⟩, [], fun k l set => ?_⟩
    have hkind : ((s.limitedTo k).classify (m.limitedTo l).program context stmt fact).base? = none := hbase
    obtain ⟨hresult, hset, hmanager, -⟩ :=
      @taint_of_none (s.limitedTo k) (m.limitedTo l) oracle context fact stmt target set method hkind
    exact ⟨hresult, hmanager, hset⟩
  | some base =>
    -- neither the kind of a fact nor a session's answer depends on a field limit
    have hkind : ∀ k l : UInt64,
        ((s.limitedTo k).classify (m.limitedTo l).program context stmt fact).base? = some base := fun k l => hbase
    have hresult : ∀ k l : UInt64, ((m.limitedTo l).getAliases oracle (s.limitedTo k).strategy stmt
        ((m.limitedTo l).program.methodOf stmt) base).result =
        (m.getAliases oracle s.strategy stmt (m.program.methodOf stmt) base).result := fun k l => rfl
    cases hr : (m.getAliases oracle s.strategy stmt (m.program.methodOf stmt) base).result with
    | error e =>
      refine ⟨.error e, (m.getAliases oracle s.strategy stmt (m.program.methodOf stmt) base).manager, base, [],
        fun k l set => ?_⟩
      have hpasses := taint_passes oracle target set method (hkind k l)
      have hfails := (hresult k l).trans hr
      exact ⟨hpasses.result.trans (congrArg (Except.map _) hfails), hpasses.manager,
        taint_set_of_error target set method (hkind k l) hfails⟩
    | ok aliases =>
      refine ⟨.ok (), (m.getAliases oracle s.strategy stmt (m.program.methodOf stmt) base).manager, base,
        aliases.paths, fun k l set => ?_⟩
      obtain ⟨hok, hset⟩ := taint_of_answer target set method (hkind k l) ((hresult k l).trans hr)
      exact ⟨hok, (taint_passes _ target set method (hkind k l)).manager, hset.trans (visit_eq _ _)⟩

variable {base : Variable} {order : List OraclePath} {j k : UInt64}

/-- For one alias the smaller limit gives the fact of the larger one, shortened. -/
theorem shortens_of_toEngine (h : j ≤ k) {p : OraclePath} {e e' : EnginePath}
    (hj : p.toEngine j.toNat = .ok e) (hk : p.toEngine k.toNat = .ok e') :
    (Fact.derived fact e stmt).Shortens j.toNat (.derived fact e' stmt) := by
  rw [OraclePath.toEngine_limit (UInt64.le_iff_toNat_le.mp h), hk] at hj
  exact ⟨rfl, Or.inr (Except.ok.inj hj).symm⟩

theorem exists_shorter (h : j ≤ k) {f : Fact} (hf : f ∈ (s.limitedTo k).gains stmt base fact order) :
    ∃ g ∈ (s.limitedTo j).gains stmt base fact order, g.Shortens j.toNat f := by
  obtain ⟨p, hp, hne, e', hk, rfl⟩ := mem_gains.mp hf
  have hj := OraclePath.toEngine_limit (UInt64.le_iff_toNat_le.mp h) (p.append fact.path.fields)
  rw [show (p.append fact.path.fields).toEngine k.toNat = .ok e' from hk] at hj
  exact ⟨_, mem_gains.mpr ⟨p, hp, hne, _, hj, rfl⟩, shortens_of_toEngine h hj hk⟩

theorem exists_longer (h : j ≤ k) {g : Fact} (hg : g ∈ (s.limitedTo j).gains stmt base fact order) :
    ∃ f ∈ (s.limitedTo k).gains stmt base fact order, g.Shortens j.toNat f := by
  obtain ⟨p, hp, hne, e, hj, rfl⟩ := mem_gains.mp hg
  have hlimit := OraclePath.toEngine_limit (UInt64.le_iff_toNat_le.mp h) (p.append fact.path.fields)
  cases hk : (p.append fact.path.fields).toEngine k.toNat with
  | ok e' => exact ⟨_, mem_gains.mpr ⟨p, hp, hne, e', hk, rfl⟩, shortens_of_toEngine h hj hk⟩
  | error cause =>
    rw [hk, show (p.append fact.path.fields).toEngine j.toNat = .ok e from hj] at hlimit
    cases hlimit

end Site

/-! ## Calls in a row under two limits -/

def Turn.limitedTo (t : Turn) (k : UInt64) : Turn :=
  { t with job := { t.job with site := t.job.site.limitedTo k } }

namespace Shared

def limitedTo (w : Shared) (k : UInt64) : Shared := ⟨w.manager.limitedTo k, w.set⟩

/-- What relates two runs of the same calls under the limits `j` and `k`. -/
structure Limited (j k : UInt64) (small large : Shared) : Prop where
  manager : ∃ m : Manager, small.manager = m.limitedTo j ∧ large.manager = m.limitedTo k
  covered : ∀ f ∈ large.set, ∃ g ∈ small.set, g.Shortens j.toNat f
  arises : ∀ g ∈ small.set, ∃ f ∈ large.set, g.Shortens j.toNat f

variable {j k : UInt64} {small large : Shared}

theorem limited_start (w : Shared) (j k : UInt64) : Limited j k (w.limitedTo j) (w.limitedTo k) where
  manager := ⟨w.manager, rfl, rfl⟩
  covered f hf := ⟨f, hf, rfl, Or.inl rfl⟩
  arises g hg := ⟨g, hg, rfl, Or.inl rfl⟩

theorem limited_turn (hjk : j ≤ k) (h : Limited j k small large) (t : Turn) :
    ((t.limitedTo j).job.taint small.manager t.oracle small.set).result =
        ((t.limitedTo k).job.taint large.manager t.oracle large.set).result ∧
      Limited j k (small.turn (t.limitedTo j)) (large.turn (t.limitedTo k)) := by
  obtain ⟨m, hsmall, hlarge⟩ := h.manager
  obtain ⟨result, after, base, order, hcall⟩ := Site.exists_gains t.job.site m t.oracle t.job.context
    t.job.stmt t.job.target t.job.method t.job.fact
  obtain ⟨hresult, hmanager, hset⟩ := hcall j j small.set
  obtain ⟨hresult', hmanager', hset'⟩ := hcall k k large.set
  rw [← hsmall] at hresult hmanager hset
  rw [← hlarge] at hresult' hmanager' hset'
  have hsmallset : (small.turn (t.limitedTo j)).set = _ := hset
  have hlargeset : (large.turn (t.limitedTo k)).set = _ := hset'
  refine ⟨hresult.trans hresult'.symm, ⟨after, hmanager, hmanager'⟩, ?_, ?_⟩
  · rw [hsmallset, hlargeset]
    refine FactSet.matched_insertAll ?_ h.covered fun f hf => Site.exists_shorter hjk hf
    exact fun hfg hsame => hfg.of_same hsame (.refl _)
  · rw [hsmallset, hlargeset]
    refine FactSet.matched_insertAll ?_ h.arises fun g hg => Site.exists_longer hjk hg
    exact fun hgf hsame => hgf.of_same (.refl _) hsame

theorem limited_after (hjk : j ≤ k) (h : Limited j k small large) (turns : List Turn) :
    small.results (turns.map (·.limitedTo j)) = large.results (turns.map (·.limitedTo k)) ∧
      Limited j k (small.after (turns.map (·.limitedTo j))) (large.after (turns.map (·.limitedTo k))) := by
  induction turns generalizing small large with
  | nil => exact ⟨rfl, h⟩
  | cons t turns ih =>
    obtain ⟨hresult, hturn⟩ := limited_turn hjk h t
    obtain ⟨hresults, hafter⟩ := ih hturn
    exact ⟨List.cons_eq_cons.mpr ⟨hresult, hresults⟩, hafter⟩

/-- Under the smaller of two limits a path translates exactly if it does under the larger,
    to the same result limited again. Limiting keeps the local, cuts the fields, sets the
    mark where it cuts, and takes nothing away from what a path stands for; limiting twice
    is limiting by the minimum. So if the alias stage makes the same calls under both
    limits, through any sites and from any manager and set, the calls return the same and
    each fact of one run corresponds to a fact of the other: under the smaller limit it is
    the same or shortened, and includes it. -/
theorem smaller_limit_covers :
    (∀ (p : OraclePath) {j k : Nat}, j ≤ k → p.toEngine j = (p.toEngine k).map (·.limit j)) ∧
    (∀ (j : Nat) (e : EnginePath), (e.limit j).base = e.base ∧ (e.limit j).fields = e.fields.take j ∧
      ((e.limit j).cutOff = true ↔ e.cutOff = true ∨ j < e.fields.length) ∧
      ∀ chain, e.CoversSteps chain → (e.limit j).CoversSteps chain) ∧
    (∀ (j k : Nat) (e : EnginePath), (e.limit k).limit j = e.limit (min j k)) ∧
    ∀ (w : Shared) (turns : List Turn) {j k : UInt64}, j ≤ k →
      let small := (w.limitedTo j).after (turns.map (·.limitedTo j))
      let large := (w.limitedTo k).after (turns.map (·.limitedTo k))
      (w.limitedTo j).results (turns.map (·.limitedTo j)) = (w.limitedTo k).results (turns.map (·.limitedTo k)) ∧
        (∀ f ∈ large.set, ∃ g ∈ small.set, g.Shortens j.toNat f ∧ g.Includes f) ∧
        ∀ g ∈ small.set, ∃ f ∈ large.set, g.Shortens j.toNat f ∧ g.Includes f := by
  refine ⟨fun p j k hjk => OraclePath.toEngine_limit hjk p, fun j e => ?_, EnginePath.limit_limit, ?_⟩
  · refine ⟨EnginePath.limit_base j e, EnginePath.limit_fields j e, ?_, fun chain => EnginePath.coversSteps_limit j⟩
    rw [EnginePath.limit_cutOff, Bool.or_eq_true, decide_eq_true_eq]
  · intro w turns j k hjk small large
    obtain ⟨hresults, hafter⟩ := limited_after hjk (limited_start w j k) turns
    refine ⟨hresults, fun f hf => ?_, fun g hg => ?_⟩
    · obtain ⟨g, hg, hshort⟩ := hafter.covered f hf
      exact ⟨g, hg, hshort, hshort.includes⟩
    · obtain ⟨f, hf, hshort⟩ := hafter.arises g hg
      exact ⟨f, hf, hshort, hshort.includes⟩

/-- `v1.f2.f6` is tainted; its aliases are those of `v1`, one of them with a wildcard. -/
def twoFields : Turn where
  job :=
    { site := Site.oneWriteSite
      context := .zero
      stmt := ⟨1⟩
      target := none
      method := ⟨1⟩
      fact := .tainted ⟨⟨0⟩, "in"⟩ ⟨some ⟨1⟩, [⟨2⟩, ⟨6⟩], false⟩ }
  oracle := Site.answering Site.mixedAliases

theorem smaller_limit_covers_two_fields :
    let w : Shared := ⟨Site.oneWriteManager, .empty⟩
    let small := (w.limitedTo 1).after [twoFields.limitedTo 1]
    let large := (w.limitedTo 5).after [twoFields.limitedTo 5]
    small.set.facts.map (·.path.text) = ["v3.f5*", "v4.f2*"] ∧
      large.set.facts.map (·.path.text) = ["v3.f5*", "v4.f2.f6"] ∧
      ∀ f ∈ large.set, ∃ g ∈ small.set, g.Shortens 1 f ∧ g.Includes f := by
  intro w small large
  obtain ⟨-, -, -, hruns⟩ := smaller_limit_covers
  have hle : (1 : UInt64) ≤ 5 := by decide
  exact ⟨by decide, by decide, (hruns w [twoFields] hle).2.1⟩

end Shared

end TaintAlias
