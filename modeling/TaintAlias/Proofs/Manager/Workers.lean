/-
  TaintAlias.Proofs.Manager.Workers — workers that share a manager and a set of facts.

  Workers taint through sites of their own, under any strategies, but through one manager
  and into one set. Each call (`Job`) has its turn alone, so what they do together is a
  list of turns. The order of the turns decides which calls hit the cache, which sessions
  are replaced and which of several same facts comes in first.

  Under a deterministic oracle none of this shows. A turn does what the solution and its
  job demand (`Job.due`, `Job.taint_eq`), whoever came before it. So a list of turns reports
  the verdict of each job and inserts what the jobs gain (`results_eq`, `set_after`), and
  two lists with the same jobs, in whatever order and however often, agree on both
  (`serialization_irrelevant`).
-/

import TaintAlias.Proofs.Manager.Stateless

namespace TaintAlias

namespace FactSet

theorem insertAll_append (s : FactSet) (fs gs : List Fact) :
    s.insertAll (fs ++ gs) = (s.insertAll fs).insertAll gs :=
  List.foldl_append

theorem insertAll_of_contains {s : FactSet} {fs : List Fact} (h : ∀ f ∈ fs, s.contains f = true) :
    s.insertAll fs = s := by
  induction fs with
  | nil => rfl
  | cons f fs ih =>
    rw [insertAll_cons, insert_of_contains (h f List.mem_cons_self)]
    exact ih fun g hg => h g (List.mem_cons_of_mem _ hg)

end FactSet

/-! ## One job -/

/-- A call for the taints of a fact, but for what it shares with other calls. -/
structure Job where
  site : Site
  context : Fact
  stmt : Stmt
  target : Option Variable
  method : Method
  fact : Fact

namespace Job

def taint (j : Job) (m : Manager) (oracle : Oracle) (set : FactSet) : Outcome :=
  j.site.taint m oracle j.context j.stmt j.target set j.method j.fact

/-- The facts a job derives, or how it fails, from the solution alone. -/
def due (O : Solution) (program : Program) (disabled : Bool) (j : Job) : Except AliasError (List Fact) :=
  match (j.site.classify program j.context j.stmt j.fact).base? with
  | none => .ok []
  | some base =>
    (reference O program disabled j.site.strategy j.stmt (program.methodOf j.stmt) base).map fun aliases =>
      j.site.gains j.stmt base j.fact aliases.paths

/-- What the job returns. -/
def verdict (O : Solution) (program : Program) (disabled : Bool) (j : Job) : Except AliasError Unit :=
  (j.due O program disabled).map fun _ => ()

/-- What it inserts; a job that fails inserts nothing. -/
def gain (O : Solution) (program : Program) (disabled : Bool) (j : Job) : List Fact :=
  (j.due O program disabled).toOption.getD []

variable {O : Solution} {m : Manager} {oracle : Oracle}

theorem due_of_none {program : Program} {j : Job} (disabled : Bool)
    (h : (j.site.classify program j.context j.stmt j.fact).base? = none) : j.due O program disabled = .ok [] := by
  rw [due, h]

/-- A faithful manager answers a job with its due. -/
theorem due_of_base (hm : m.Faithful O) (ho : oracle.Answers O) {j : Job} {base : Variable}
    (h : (j.site.classify m.program j.context j.stmt j.fact).base? = some base) :
    j.due O m.program m.config.disabled =
      (m.getAliases oracle j.site.strategy j.stmt (m.program.methodOf j.stmt) base).result.map fun aliases =>
        j.site.gains j.stmt base j.fact aliases.paths := by
  rw [due, h, Manager.getAliases_of_faithful hm ho]

theorem taint_eq (hm : m.Faithful O) (ho : oracle.Answers O) (j : Job) (set : FactSet) :
    (j.taint m oracle set).result = j.verdict O m.program m.config.disabled ∧
      (j.taint m oracle set).set = set.insertAll (j.gain O m.program m.config.disabled) := by
  rw [verdict, gain]
  cases hbase : (j.site.classify m.program j.context j.stmt j.fact).base? with
  | none =>
    rw [due_of_none _ hbase]
    exact ⟨(Site.taint_of_none j.target set j.method hbase).1, (Site.taint_of_none j.target set j.method hbase).2.1⟩
  | some base =>
    rw [due_of_base hm ho hbase]
    cases ha : (m.getAliases oracle j.site.strategy j.stmt (m.program.methodOf j.stmt) base).result with
    | ok aliases =>
      obtain ⟨hresult, hset⟩ := Site.taint_of_answer j.target set j.method hbase ha
      exact ⟨hresult, hset.trans (Site.visit_eq _ _)⟩
    | error e =>
      have hresult := (Site.taint_passes oracle j.target set j.method hbase).result
      rw [ha] at hresult
      exact ⟨hresult, Site.taint_set_of_error j.target set j.method hbase ha⟩

end Job

/-! ## One turn after another -/

/-- A job, and the oracle it meets. -/
structure Turn where
  job : Job
  oracle : Oracle

def jobs (turns : List Turn) : List Job := turns.map (·.job)

/-- For the manager a turn is one of its operations. -/
def Turn.ev (t : Turn) (set : FactSet) : Manager.Ev :=
  .taint t.oracle t.job.site t.job.context t.job.stmt t.job.target set t.job.method t.job.fact

/-- What the workers share. -/
structure Shared where
  manager : Manager
  set : FactSet

namespace Shared

def turn (w : Shared) (t : Turn) : Shared :=
  let o := t.job.taint w.manager t.oracle w.set
  ⟨o.manager, o.set⟩

def after (w : Shared) (turns : List Turn) : Shared := turns.foldl turn w

/-- What the calls return. -/
def results (w : Shared) : List Turn → List (Except AliasError Unit)
  | [] => []
  | t :: turns => (t.job.taint w.manager t.oracle w.set).result :: results (w.turn t) turns

variable {O : Solution} {w : Shared} {turns : List Turn}

theorem turn_manager (w : Shared) (t : Turn) : (w.turn t).manager = (w.manager.step (t.ev w.set)).2 := rfl

theorem turn_config (w : Shared) (t : Turn) :
    (w.turn t).manager.program = w.manager.program ∧ (w.turn t).manager.config = w.manager.config := by
  rw [turn_manager]
  exact Manager.step_config w.manager (t.ev w.set)

theorem faithful_turn (hw : w.manager.Faithful O) {t : Turn} (ht : t.oracle.Answers O) :
    (w.turn t).manager.Faithful O := by
  have hev : (t.ev w.set).Follows O := ht
  rw [turn_manager]
  exact Manager.faithful_step hw hev

theorem results_eq (hw : w.manager.Faithful O) (ht : ∀ t ∈ turns, t.oracle.Answers O) :
    w.results turns = (jobs turns).map (Job.verdict O w.manager.program w.manager.config.disabled) := by
  induction turns generalizing w with
  | nil => rfl
  | cons t turns ih =>
    obtain ⟨hprogram, hconfig⟩ := w.turn_config t
    have ht' : t.oracle.Answers O := ht t List.mem_cons_self
    have hrest := ih (faithful_turn hw ht') fun u hu => ht u (List.mem_cons_of_mem _ hu)
    rw [hprogram, hconfig] at hrest
    rw [results, (Job.taint_eq hw ht' t.job w.set).1, hrest]
    rfl

theorem set_after (hw : w.manager.Faithful O) (ht : ∀ t ∈ turns, t.oracle.Answers O) :
    (w.after turns).set =
      w.set.insertAll ((jobs turns).flatMap (Job.gain O w.manager.program w.manager.config.disabled)) := by
  induction turns generalizing w with
  | nil => rfl
  | cons t turns ih =>
    obtain ⟨hprogram, hconfig⟩ := w.turn_config t
    have ht' : t.oracle.Answers O := ht t List.mem_cons_self
    have hset : (w.turn t).set = _ := (Job.taint_eq hw ht' t.job w.set).2
    have hrest := ih (faithful_turn hw ht') fun u hu => ht u (List.mem_cons_of_mem _ hu)
    rw [hprogram, hconfig, hset, ← FactSet.insertAll_append] at hrest
    exact hrest

/-- Which facts are there in the end is up to which jobs were done. -/
theorem contains_after (hw : w.manager.Faithful O) (ht : ∀ t ∈ turns, t.oracle.Answers O) {f : Fact} :
    (w.after turns).set.contains f = true ↔ w.set.contains f = true ∨ ∃ j ∈ jobs turns,
      ∃ g ∈ j.gain O w.manager.program w.manager.config.disabled, g.Same f := by
  rw [set_after hw ht, FactSet.contains_insertAll]
  simp only [List.mem_flatMap]
  grind

/-- Jobs that were done before add nothing. -/
theorem set_after_again (hw : w.manager.Faithful O) {more : List Turn}
    (ht : ∀ t ∈ turns ++ more, t.oracle.Answers O) (hmore : jobs more ⊆ jobs turns) :
    (w.after (turns ++ more)).set = (w.after turns).set := by
  have hturns : ∀ t ∈ turns, t.oracle.Answers O := fun t h => ht t (List.mem_append_left _ h)
  have hjobs : jobs (turns ++ more) = jobs turns ++ jobs more := List.map_append
  rw [set_after hw ht, set_after hw hturns, hjobs, List.flatMap_append, FactSet.insertAll_append]
  refine FactSet.insertAll_of_contains fun f hf => ?_
  obtain ⟨j, hj, hf⟩ := List.mem_flatMap.mp hf
  have hdone : f ∈ (jobs turns).flatMap (Job.gain O w.manager.program w.manager.config.disabled) :=
    List.mem_flatMap.mpr ⟨j, hmore hj, hf⟩
  exact FactSet.contains_insertAll.mpr (Or.inr ⟨f, hdone, Fact.Same.refl f⟩)

/-- Under a deterministic oracle, from any state of a manager, every turn returns the
    verdict on its job, whenever it comes, and what the jobs gain is in the set in the
    end. So two lists of turns with the same jobs leave the same facts, up to provenance,
    in whatever order and however often the jobs come. Jobs that were done before leave
    the set as it is. -/
theorem serialization_irrelevant {program : Program} {config : Config} {m : Manager} {notices : List Notice}
    (hcreate : Manager.create program config = .ok (m, notices)) {evs : List Manager.Ev}
    (hevs : ∀ e ∈ evs, e.Follows O) (set : FactSet) {turns turns' : List Turn}
    (ht : ∀ t ∈ turns ++ turns', t.oracle.Answers O) :
    let w : Shared := ⟨m.after evs, set⟩
    let verdict := Job.verdict O program config.disabled
    let gain := Job.gain O program config.disabled
    w.results turns = (jobs turns).map verdict ∧ w.results turns' = (jobs turns').map verdict ∧
      (∀ f, (w.after turns).set.contains f = true ↔
        set.contains f = true ∨ ∃ j ∈ jobs turns, ∃ g ∈ gain j, g.Same f) ∧
      ((∀ j, j ∈ jobs turns ↔ j ∈ jobs turns') →
        ∀ f, (w.after turns).set.contains f = (w.after turns').set.contains f) ∧
      (jobs turns' ⊆ jobs turns → (w.after (turns ++ turns')).set = (w.after turns).set) := by
  intro w verdict gain
  have hw : w.manager.Faithful O := Manager.faithful_of_create hcreate hevs
  have hturns : ∀ t ∈ turns, t.oracle.Answers O := fun t h => ht t (List.mem_append_left _ h)
  have hturns' : ∀ t ∈ turns', t.oracle.Answers O := fun t h => ht t (List.mem_append_right _ h)
  obtain ⟨hprogram, hconfig⟩ : w.manager.program = program ∧ w.manager.config = config :=
    Manager.config_of_create hcreate evs
  have hresults : ∀ {ts}, (∀ t ∈ ts, t.oracle.Answers O) → w.results ts = (jobs ts).map verdict := by
    intro ts hts
    rw [results_eq hw hts, hprogram, hconfig]
  have hcontains : ∀ {ts}, (∀ t ∈ ts, t.oracle.Answers O) → ∀ f, (w.after ts).set.contains f = true ↔
      set.contains f = true ∨ ∃ j ∈ jobs ts, ∃ g ∈ gain j, g.Same f := by
    intro ts hts f
    rw [contains_after hw hts, hprogram, hconfig]
  refine ⟨hresults hturns, hresults hturns', hcontains hturns, fun hsame f => ?_, set_after_again hw ht⟩
  rw [Bool.eq_iff_iff, hcontains hturns, hcontains hturns']
  simp only [hsame]

/-! ## Two strategies and a failure -/

/-- Which variable aliases another is up to the strategy; `v2` is too hard. -/
def crossed : Solution := fun strategy q =>
  if q.var = ⟨2⟩ then .error (.ofQuery q "timeout")
  else .ok (.ofList [.ofLocal q.var, .ofLocal (if strategy = .none then ⟨3⟩ else ⟨4⟩)])

/-- At the one write, `v.f2` is tainted. -/
def writing (strategy : Sparsification) (v : Variable) : Turn where
  job :=
    { site := { Site.oneWriteSite with strategy }
      context := .zero
      stmt := ⟨1⟩
      target := none
      method := ⟨1⟩
      fact := .tainted ⟨⟨0⟩, "in"⟩ ⟨some v, [⟨2⟩], false⟩ }
  oracle := Manager.finding crossed

theorem serialization_irrelevant_two_strategies :
    let turns := [writing .none ⟨1⟩, writing .typeBased ⟨1⟩, writing .none ⟨2⟩]
    let turns' := [writing .none ⟨2⟩, writing .typeBased ⟨1⟩, writing .none ⟨1⟩, writing .typeBased ⟨1⟩]
    let warm : Manager.Ev := .aliases (Manager.finding crossed) .typeBased ⟨1⟩ ⟨1⟩ ⟨1⟩
    let w : Shared := ⟨Manager.after ⟨Site.oneWrite, Manager.oneSlot, none⟩ [warm], .empty⟩
    let failed : Except AliasError Unit := .error (.oracle ⟨"BackwardQuery(v2 @ m1:s1 -> s2)", "timeout"⟩)
    (w.after turns).set.facts.map (·.path.text) = ["v3.f2", "v4.f2"] ∧
      (w.after turns').set.facts.map (·.path.text) = ["v4.f2", "v3.f2"] ∧
      w.results turns = [.ok (), .ok (), failed] ∧ w.results turns' = [failed, .ok (), .ok (), .ok ()] ∧
      (∀ f, (w.after turns).set.contains f = (w.after turns').set.contains f) ∧
      (w.after (turns ++ turns')).set = (w.after turns).set := by
  intro turns turns' warm w failed
  have hcreate : Manager.create Site.oneWrite Manager.oneSlot =
      .ok (⟨Site.oneWrite, Manager.oneSlot, none⟩, [.managerReady .none true false]) := rfl
  have hevs : ∀ e ∈ [warm], e.Follows crossed := by
    simp [warm, Manager.Ev.Follows, Manager.answers_finding]
  have ht : ∀ t ∈ turns ++ turns', t.oracle.Answers crossed := by
    simp [turns, turns', writing, Manager.answers_finding]
  obtain ⟨hresults, hresults', -, hsame, hagain⟩ := serialization_irrelevant hcreate hevs .empty ht
  have hjobs : ∀ j, j ∈ jobs turns ↔ j ∈ jobs turns' := by
    simp only [turns, turns', jobs, List.map_cons, List.map_nil, List.mem_cons, List.not_mem_nil]
    grind
  exact ⟨by decide, by decide, hresults, hresults', hsame hjobs, hagain fun j hj => (hjobs j).mpr hj⟩

end Shared

end TaintAlias
