/-
  TaintAlias.Proofs.Manager.Stateless — caches and history do not show in the answers.

  Suppose the oracle is deterministic: under a strategy a query always has the same
  solution (`Solution`), a set of aliases or a failure. How long a solve takes and how
  much it propagates may differ from call to call. `reference` answers a call from the
  solution alone.

  A cache can only be wrong if an entry is not the solution under the strategy of the
  session that owns it. `Session.Faithful` excludes that. A fresh session is faithful, a
  call keeps it so whether it hits, misses, evicts or fails (`faithful_reply`), and a
  faithful session replies as the reference does (`reply_result`). A manager never hands
  a session to another strategy, so the live session stays faithful (`faithful_after`).

  Hence, for any valid configuration and after any operations, `getAliases` answers as
  the reference does; two managers that agree on whether aliasing is disabled give the
  same answers whatever they cache and whatever they did before (`getAliases_stateless`).
-/

import TaintAlias.Proofs.Manager.Run

namespace TaintAlias

/-- What the oracle finds out about a query under a strategy. -/
abbrev Solution := Sparsification → Query → Except OracleError AliasSet

/-- The oracle finds `O`, for the options every session solves with. -/
def Oracle.Answers (oracle : Oracle) (O : Solution) : Prop :=
  ∀ strategy q, (oracle.solve ⟨strategy, {}, q⟩).map (·.aliases) = O strategy q

/-- The answer to a call, from the solution alone. -/
def reference (O : Solution) (program : Program) (disabled : Bool) (strategy : Sparsification)
    (stmt : Stmt) (method : Method) (v : Variable) : Except AliasError AliasSet :=
  if disabled then .ok .empty
  else
    match program.successors stmt with
    | [] => .error (.noSuccessor stmt method)
    | successor :: _ =>
      match O strategy ⟨method, stmt, successor, v⟩ with
      | .ok aliases => .ok aliases
      | .error e => .error (.oracle e)

variable {O : Solution} {program : Program} {strategy : Sparsification} {stmt : Stmt} {method : Method}
  {v : Variable}

theorem reference_of_none (h : Query.build? program stmt method v = none) :
    reference O program false strategy stmt method v = .error (.noSuccessor stmt method) := by
  unfold Query.build? at h
  unfold reference
  cases hs : program.successors stmt with
  | nil => rfl
  | cons successor rest => rw [hs] at h; cases h

theorem reference_of_some {q : Query} (h : Query.build? program stmt method v = some q) :
    reference O program false strategy stmt method v =
      match O strategy q with
      | .ok aliases => .ok aliases
      | .error e => .error (.oracle e) := by
  unfold Query.build? at h
  unfold reference
  cases hs : program.successors stmt with
  | nil => rw [hs] at h; cases h
  | cons successor rest => rw [hs] at h; cases h; rfl

/-! ## Sessions -/

namespace Session

/-- Whatever is cached is the solution under the session's strategy. -/
structure Faithful (O : Solution) (s : Session) : Prop where
  options : s.options = {}
  cached : ∀ c, s.cache = some c → ∀ entry ∈ c.entries, O s.strategy entry.1 = .ok entry.2

variable {s : Session} {c : Call}

theorem faithful_start (O : Solution) (strategy : Sparsification) (config : Config) :
    Faithful O (start strategy config) where
  options := rfl
  cached := by
    intro cache hc entry he
    simp only [start] at hc
    split at hc
    · cases hc; cases he
    · cases hc

/-- A hit of a faithful session is the solution. -/
theorem Faithful.of_lookup (hs : s.Faithful O) {q : Query} {aliases : AliasSet} {s' : Session}
    (h : s.lookup q = some (aliases, s')) : O s.strategy q = .ok aliases := by
  obtain ⟨cache, cache', hc, hget, -⟩ := lookup_eq_some h
  exact hs.cached cache hc _ (QueryCache.mem_of_get hget).1

/-- So is what the oracle answers. -/
theorem Faithful.of_solve (hs : s.Faithful O) {oracle : Oracle} (ho : oracle.Answers O) {q : Query} :
    O s.strategy q = (oracle.solve (s.ask q)).map (·.aliases) := by
  rw [ask, hs.options]
  exact (ho s.strategy q).symm

/-- A faithful session replies from the solution alone. -/
theorem reply_result (hs : s.Faithful O) (ho : c.oracle.Answers O) :
    (s.reply c).result = reference O c.program s.disabled s.strategy c.stmt c.method c.var := by
  have h := s.replied c
  generalize s.reply c = r at h ⊢
  cases h with
  | disabled hd => rw [hd]; rfl
  | noQuery hd hq => rw [hd, reference_of_none hq]
  | hit hd hq hl => rw [hd, reference_of_some hq, hs.of_lookup hl]
  | failed hd hq hl he => rw [hd, reference_of_some hq, hs.of_solve ho, he]; rfl
  | solved hd hq hl ha => rw [hd, reference_of_some hq, hs.of_solve ho, ha]; rfl

/-- A call caches nothing but the solution. -/
theorem faithful_reply (hs : s.Faithful O) (ho : c.oracle.Answers O) :
    Faithful O (s.reply c).session := by
  have h := s.replied c
  generalize s.reply c = r at h ⊢
  cases h with
  | disabled hd => exact hs
  | noQuery hd hq => exact hs
  | failed hd hq hl he => exact hs
  | hit hd hq hl =>
    obtain ⟨cache, cache', hc, hget, rfl⟩ := lookup_eq_some hl
    refine ⟨hs.options, fun kept hkept entry he => ?_⟩
    cases hkept
    exact hs.cached cache hc entry ((QueryCache.mem_of_get hget).2 entry he)
  | @solved q a hd hq hl ha =>
    refine ⟨hs.options, fun kept hkept entry he => ?_⟩
    obtain ⟨cache, hc, rfl⟩ := Option.map_eq_some_iff.mp hkept
    rcases QueryCache.mem_of_insert he with rfl | hold
    · have hsolved := hs.of_solve (q := q) ho
      rw [ha] at hsolved
      exact hsolved
    · exact hs.cached cache hc entry hold

end Session

/-! ## Managers -/

namespace Manager

/-- The oracle an operation meets finds `O`. -/
def Ev.Follows (O : Solution) : Ev → Prop
  | .aliases oracle .. | .taint oracle .. => oracle.Answers O
  | _ => True

theorem Ev.Follows.answers {e : Ev} (h : e.Follows O) {oracle : Oracle} (ho : e.oracle? = some oracle) :
    oracle.Answers O := by
  cases e with
  | aliases _ strategy stmt method v => cases ho; exact h
  | taint _ site context stmt target set method fact => cases ho; exact h
  | _ => cases ho

/-- The live session is faithful, and disabled if the manager is. -/
def Faithful (O : Solution) (m : Manager) : Prop :=
  ∀ s, m.session = some s → s.Faithful O ∧ s.disabled = m.config.disabled

variable {m : Manager}

/-- So is the session handed out for a strategy, and it is one of that strategy. -/
theorem Faithful.sessionFor (hm : m.Faithful O) (strategy : Sparsification) :
    (m.sessionFor strategy).1.Faithful O ∧ (m.sessionFor strategy).1.disabled = m.config.disabled ∧
      (m.sessionFor strategy).1.strategy = strategy := by
  cases hs : m.session with
  | none =>
    rw [sessionFor_of_none hs]
    exact ⟨Session.faithful_start O strategy m.config, rfl, rfl⟩
  | some s =>
    rw [sessionFor_of_some hs]
    split
    · rename_i heq
      exact ⟨(hm s hs).1, (hm s hs).2, heq⟩
    · exact ⟨Session.faithful_start O strategy m.config, rfl, rfl⟩

theorem faithful_step (hm : m.Faithful O) {e : Ev} (he : e.Follows O) : Faithful O (m.step e).2 := by
  unfold Faithful
  rw [(step_config m e).2]
  refine live_step (fun strategy => ⟨Session.faithful_start O strategy m.config, rfl⟩) ?_ hm
  rintro s c ho ⟨hs, hdisabled⟩
  exact ⟨Session.faithful_reply hs (he.answers ho), (s.reply_kept c).disabled.trans hdisabled⟩

theorem faithful_after (hm : m.Faithful O) {evs : List Ev} (h : ∀ e ∈ evs, e.Follows O) :
    Faithful O (m.after evs) := by
  induction evs generalizing m with
  | nil => exact hm
  | cons e evs ih =>
    exact ih (faithful_step hm (h e List.mem_cons_self)) fun e' he' => h e' (List.mem_cons_of_mem _ he')

/-- So a manager is faithful from `create` on. -/
theorem faithful_of_create {config : Config} {notices : List Notice}
    (hcreate : create program config = .ok (m, notices)) {evs : List Ev} (h : ∀ e ∈ evs, e.Follows O) :
    Faithful O (m.after evs) := by
  obtain rfl := eq_of_create hcreate
  exact faithful_after (fun s hs => by cases hs) h

/-- A manager with a faithful session answers from the solution alone. -/
theorem getAliases_of_faithful (hm : m.Faithful O) {oracle : Oracle} (ho : oracle.Answers O)
    (strategy : Sparsification) (stmt : Stmt) (method : Method) (v : Variable) :
    (m.getAliases oracle strategy stmt method v).result =
      reference O m.program m.config.disabled strategy stmt method v := by
  obtain ⟨hfaith, hdisabled, hstrategy⟩ := hm.sessionFor strategy
  have hreply : ((m.sessionFor strategy).1.reply ⟨m.program, oracle, stmt, method, v⟩).result = _ :=
    Session.reply_result hfaith ho
  rw [hdisabled, hstrategy] at hreply
  exact hreply

/-- After `create` and any operations, under a deterministic oracle. -/
theorem reference_after {config : Config} {notices : List Notice}
    (hcreate : create program config = .ok (m, notices)) {evs : List Ev} (hevs : ∀ e ∈ evs, e.Follows O)
    {oracle : Oracle} (ho : oracle.Answers O) (strategy : Sparsification) (stmt : Stmt) (method : Method)
    (v : Variable) :
    ((m.after evs).getAliases oracle strategy stmt method v).result =
      reference O program config.disabled strategy stmt method v := by
  have hanswer := getAliases_of_faithful (faithful_of_create hcreate hevs) ho strategy stmt method v
  obtain ⟨hprogram, hconfig⟩ := config_of_create hcreate evs
  rw [hprogram, hconfig] at hanswer
  exact hanswer

/-- Under a deterministic oracle every call of a run is answered as the reference
    answers it. Another manager on the same program, disabled or not like this one,
    answers the same, whatever it caches and whatever it was asked before. -/
theorem getAliases_stateless {config : Config} {notices : List Notice}
    (hcreate : create program config = .ok (m, notices)) {evs : List Ev} (hevs : ∀ e ∈ evs, e.Follows O)
    {oracle : Oracle} (ho : oracle.Answers O) (strategy : Sparsification) (stmt : Stmt) (method : Method)
    (v : Variable) :
    let answer := ((m.after evs).getAliases oracle strategy stmt method v).result
    answer = reference O program config.disabled strategy stmt method v ∧
      ∀ config' m' notices', create program config' = .ok (m', notices') →
        config'.disabled = config.disabled →
        ∀ evs' : List Ev, (∀ e ∈ evs', e.Follows O) → ∀ oracle' : Oracle, oracle'.Answers O →
          ((m'.after evs').getAliases oracle' strategy stmt method v).result = answer := by
  intro answer
  have hanswer := reference_after hcreate hevs ho strategy stmt method v
  refine ⟨hanswer, fun config' m' notices' hcreate' hdisabled evs' hevs' oracle' ho' => ?_⟩
  have hanswer' := reference_after hcreate' hevs' ho' strategy stmt method v
  rw [hdisabled] at hanswer'
  exact hanswer'.trans hanswer.symm

/-! ## A run of a cache with one slot -/

/-- An oracle that finds `O` at once. -/
def finding (O : Solution) : Oracle where
  solve ask := (O ask.strategy ask.query).map fun aliases => { aliases }

theorem answers_finding (O : Solution) : (finding O).Answers O := by
  intro strategy q
  simp only [finding]
  cases O strategy q with
  | error e => rfl
  | ok aliases => rfl

/-- Each variable aliases itself alone, but `v2` is too hard. -/
def selfAliases : Solution := fun _ q =>
  if q.var = ⟨2⟩ then .error (.ofQuery q "timeout") else .ok (.ofList [.ofLocal q.var])

def oneSlot : Config := { returnSites := .fieldWriteOnly, caching := true, capacity := some 1 }

/-- A hit, an eviction, a failure, another strategy, a reset and a way back. -/
def busyRun : List Ev :=
  let query (strategy : Sparsification) (v : Variable) : Ev :=
    .aliases (finding selfAliases) strategy ⟨1⟩ ⟨1⟩ v
  [query .none ⟨1⟩, query .none ⟨1⟩, query .none ⟨3⟩, query .none ⟨2⟩, .info .typeBased,
    query .typeBased ⟨1⟩, .reset, query .none ⟨1⟩, query .none ⟨3⟩]

/-- The same configuration without a cache. -/
def noSlot : Config := { returnSites := .fieldWriteOnly }

theorem getAliases_stateless_busy :
    let m : Manager := ⟨Site.oneWrite, oneSlot, none⟩
    let m' : Manager := ⟨Site.oneWrite, noSlot, none⟩
    let answer (m : Manager) := (m.getAliases (finding selfAliases) .none ⟨1⟩ ⟨1⟩ ⟨1⟩).result
    answer (m.after busyRun) = .ok (.ofList [.ofLocal ⟨1⟩]) ∧ answer m' = answer (m.after busyRun) := by
  intro m m' answer
  have hcreate : create Site.oneWrite oneSlot = .ok (m, [.managerReady .none true false]) := rfl
  have hcreate' : create Site.oneWrite noSlot = .ok (m', [.managerReady .none false false]) := rfl
  have hevs : ∀ e ∈ busyRun, e.Follows selfAliases := by
    simp [busyRun, Ev.Follows, answers_finding]
  obtain ⟨hanswer, hother⟩ := getAliases_stateless hcreate hevs (answers_finding selfAliases)
    .none ⟨1⟩ ⟨1⟩ ⟨1⟩
  exact ⟨hanswer, hother noSlot m' _ hcreate' rfl [] nofun _ (answers_finding selfAliases)⟩

end Manager

end TaintAlias
