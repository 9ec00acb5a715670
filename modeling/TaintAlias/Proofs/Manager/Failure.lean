/-
  TaintAlias.Proofs.Manager.Failure — calls that fail.

  A call fails in two ways only: its statement has no successor, and then the oracle is
  not asked; or the oracle was asked and failed (`Session.result_eq_error_iff`). Either
  way the session is as it was, so all a failing call may leave behind is a fresh session
  where there was none of its strategy (`Untouched`). A taint that fails adds no fact.

  A failure is not remembered. What is missing from the session of a strategy stays
  missing until it is answered under that strategy, whatever else is asked, and also if
  the session is replaced or dropped (`lookup_after`). So a query the oracle failed on
  goes to the oracle again.

  `failures_clean` says all of it for any state a manager can be in.
-/

import TaintAlias.Proofs.Manager.Trailing
import TaintAlias.Proofs.Session.History

namespace TaintAlias

theorem Query.build?_eq_none {program : Program} {stmt : Stmt} {method : Method} {v : Variable} :
    Query.build? program stmt method v = none ↔ program.successors stmt = [] := by
  unfold Query.build?
  cases program.successors stmt <;> simp

theorem Query.successors_of_build? {program : Program} {stmt : Stmt} {method : Method} {v : Variable} {q : Query}
    (h : Query.build? program stmt method v = some q) : program.successors stmt ≠ [] := by
  intro hs
  rw [Query.build?_eq_none.mpr hs] at h
  cases h

namespace Session

variable {s : Session} {c : Call} {q : Query}

/-! ## Why a call fails -/

/-- When `e` is the error of a call that put `asked` to the oracle. -/
def Blames (disabled : Bool) (c : Call) (asked : Option Ask) : AliasError → Prop
  | .noSuccessor stmt method =>
    disabled = false ∧ c.program.successors c.stmt = [] ∧ stmt = c.stmt ∧ method = c.method
  | .oracle e => ∃ ask, asked = some ask ∧ c.oracle.solve ask = .error e
  | .config _ => False

theorem result_eq_error_iff (e : AliasError) :
    (s.reply c).result = .error e ↔ Blames s.disabled c (s.reply c).asked e := by
  have h := s.replied c
  generalize s.reply c = r at h ⊢
  cases h with
  | disabled hd => cases e <;> simp [Blames, hd]
  | noQuery hd hq =>
    have hs := Query.build?_eq_none.mp hq
    cases e <;> simp [Blames, hd, hs, eq_comm]
  | hit hd hq hl => cases e <;> simp [Blames, Query.successors_of_build? hq]
  | failed hd hq hl he => cases e <;> simp [Blames, Query.successors_of_build? hq, he]
  | solved hd hq hl ha => cases e <;> simp [Blames, Query.successors_of_build? hq, ha]

/-- Nothing but the query of the call is asked for; without successor there is none. -/
def AsksOnly (strategy : Sparsification) (c : Call) (asked : Option Ask) : Prop :=
  ∀ ask, asked = some ask → c.program.successors c.stmt ≠ [] ∧
    c.query? = some ask.query ∧ ask = ⟨strategy, {}, ask.query⟩

theorem asksOnly_reply (ho : s.options = {}) : AsksOnly s.strategy c (s.reply c).asked := by
  have h := s.replied c
  generalize s.reply c = r at h ⊢
  intro a ha
  have key : ∀ {q}, c.query? = some q → s.ask q = a →
      c.program.successors c.stmt ≠ [] ∧ c.query? = some a.query ∧
        a = ⟨s.strategy, {}, a.query⟩ := by
    rintro q hq rfl
    exact ⟨Query.successors_of_build? hq, hq, by rw [ask, ho]⟩
  cases h with
  | failed hd hq hl he => exact key hq (Option.some.inj ha)
  | solved hd hq hl he => exact key hq (Option.some.inj ha)
  | _ => cases ha

/-- If the oracle failed, it was asked for a query that was missing. -/
theorem lookup_of_oracle_error {e : OracleError} (h : (s.reply c).result = .error (.oracle e)) :
    s.disabled = false ∧
      ∃ q, c.query? = some q ∧ s.lookup q = none := by
  have hr := s.replied c
  generalize s.reply c = r at h hr
  cases hr with
  | failed hd hq hl he => exact ⟨hd, _, hq, hl⟩
  | _ => cases h

/-! ## What is missing stays missing -/

theorem lookup_eq_none :
    s.lookup q = none ↔ ∀ cache, s.cache = some cache → ∀ e ∈ cache.entries, (q != e.1) = true := by
  cases hc : s.cache with
  | none => simp [lookup, hc]
  | some cache =>
    rw [lookup_eq_none_iff hc, QueryCache.find?, List.lookup_eq_none_iff]
    simp

theorem lookup_start (strategy : Sparsification) (config : Config) (q : Query) :
    (start strategy config).lookup q = none := by
  refine lookup_eq_none.mpr fun cache hc e he => ?_
  simp only [start] at hc
  split at hc
  · cases hc
    cases he
  · cases hc

/-- Only an answer to `q` brings `q` into the session. -/
theorem lookup_reply (h : s.lookup q = none)
    (hno : ∀ aliases, Served.answer? ⟨c, s.reply c⟩ ≠ some (q, aliases)) :
    (s.reply c).session.lookup q = none := by
  have hr := s.replied c
  generalize s.reply c = r at hr hno ⊢
  rw [lookup_eq_none] at h ⊢
  cases hr with
  | disabled hd => exact h
  | noQuery hd hq => exact h
  | failed hd hq hl he => exact h
  | hit hd hq hl =>
    obtain ⟨cache, cache', hc, hget, rfl⟩ := lookup_eq_some hl
    intro kept hkept e he
    cases hkept
    exact h cache hc e ((QueryCache.mem_of_get hget).2 e he)
  | @solved q' a hd hq hl ha =>
    intro kept hkept e he
    obtain ⟨cache, hc, rfl⟩ := Option.map_eq_some_iff.mp hkept
    rcases QueryCache.mem_of_insert he with rfl | hold
    · rw [bne_iff_ne]
      rintro rfl
      exact hno a.aliases (by simp [Served.answer?, hq])
    · exact h cache hc e hold

end Session

namespace Manager

variable {program : Program} {config : Config} {m : Manager} {strategy : Sparsification} {q : Query}

/-! ## What a failing call leaves behind -/

/-- `m'` is `m`, but for a fresh session if none of the strategy was live. -/
structure Untouched (m : Manager) (strategy : Sparsification) (m' : Manager) : Prop where
  live : m.active? = some strategy → m' = m
  fresh : m.active? ≠ some strategy → m' = { m with session := some (Session.start strategy m.config) }

theorem untouched_keep (m : Manager) (strategy : Sparsification) :
    Untouched m strategy (m.keep (m.sessionFor strategy).1) := by
  cases hs : m.session with
  | none =>
    have hactive : m.active? = none := by rw [active?, hs]; rfl
    rw [sessionFor_of_none hs]
    exact ⟨fun h => absurd (hactive.symm.trans h) (by simp), fun _ => rfl⟩
  | some s =>
    have hactive : m.active? = some s.strategy := by rw [active?, hs]; rfl
    rw [sessionFor_of_some hs]
    constructor
    · intro h
      rw [if_pos (Option.some.inj (hactive.symm.trans h)), keep, ← hs]
    · intro h
      rw [if_neg fun heq => h (hactive.trans (congrArg some heq))]
      rfl

theorem getAliases_untouched {oracle : Oracle} {stmt : Stmt} {method : Method} {v : Variable} {e : AliasError}
    (h : (m.getAliases oracle strategy stmt method v).result = .error e) :
    Untouched m strategy (m.getAliases oracle strategy stmt method v).manager := by
  have hsession : ((m.sessionFor strategy).1.getAliases m.program oracle stmt method v).session = _ :=
    Session.session_of_error h
  have hmanager : (m.getAliases oracle strategy stmt method v).manager = m.keep (m.sessionFor strategy).1 :=
    congrArg m.keep hsession
  rw [hmanager]
  exact untouched_keep m strategy

/-! ## Which queries are answered -/

def failure? {α : Type} : Except AliasError α → Option AliasError
  | .error e => some e
  | .ok _ => none

theorem eq_error_of_failure? {α : Type} {r : Except AliasError α} {e : AliasError} (h : failure? r = some e) :
    r = .error e := by
  cases r with
  | error e' => cases h; rfl
  | ok a => cases h

theorem map_eq_error_iff {α β : Type} {f : α → β} {r : Except AliasError α} {e : AliasError} :
    r.map f = .error e ↔ r = .error e := by
  cases r <;> simp [Except.map]

theorem failure?_map {α β : Type} (f : α → β) (r : Except AliasError α) : failure? (r.map f) = failure? r := by
  cases r <;> rfl

/-- The error an operation returned. -/
def Out.error? : Out → Option AliasError
  | .aliases result => failure? result
  | .taint result _ => failure? result
  | _ => none

/-- The query an operation makes, with the strategy it makes it under. -/
def Ev.query? (program : Program) (e : Ev) : Option (Sparsification × Query) :=
  (e.request? program).bind fun r => r.call?.bind fun c =>
    (c.query?).map fun q => (r.strategy, q)

/-- The question an operation puts to the oracle. -/
def asked? (m : Manager) : Ev → Option Ask
  | .aliases oracle strategy stmt method v => (m.getAliases oracle strategy stmt method v).asked
  | .taint oracle site context stmt target set method fact =>
    (site.taint m oracle context stmt target set method fact).asked
  | _ => none

/-- The queries answered in the course of some operations. -/
def answered (m : Manager) : List Ev → List (Sparsification × Query)
  | [] => []
  | e :: evs =>
    (if (m.step e).1.error? = none then e.query? m.program else none).toList ++ answered (m.step e).2 evs

/-- What an operation asks and how it fails is up to the session it asks for. -/
theorem served {e : Ev} {c : Session.Call} (h : e.request? m.program = some ⟨strategy, some c⟩) :
    m.asked? e = ((m.sessionFor strategy).1.reply c).asked ∧
      (m.step e).1.error? = failure? ((m.sessionFor strategy).1.reply c).result := by
  cases e with
  | aliases oracle strategy stmt method v => cases h; exact ⟨rfl, rfl⟩
  | taint oracle site context stmt target set method fact =>
    obtain ⟨base, hbase, hr⟩ := Option.map_eq_some_iff.mp h
    cases hr
    have hpasses := Site.taint_passes oracle target set method hbase
    simp only [asked?, step, Out.error?, hpasses.asked, hpasses.result, failure?_map]
    exact ⟨rfl, rfl⟩
  | queryCount strategy text => cases h
  | info strategy => cases h
  | _ => cases h

/-- A query is made by a call on the session of its strategy. -/
theorem request?_of_query? {e : Ev} (h : e.query? program = some (strategy, q)) :
    ∃ c, e.request? program = some ⟨strategy, some c⟩ ∧
      c.query? = some q := by
  obtain ⟨⟨s, call?⟩, hr, h⟩ := Option.bind_eq_some_iff.mp h
  obtain ⟨c, rfl, h⟩ := Option.bind_eq_some_iff.mp h
  obtain ⟨q', hq, heq⟩ := Option.map_eq_some_iff.mp h
  cases heq
  exact ⟨c, hr, hq⟩

/-- Only what makes a call can fail. -/
theorem request?_of_error {e : Ev} {err : AliasError} (h : (m.step e).1.error? = some err) :
    ∃ strategy c, e.request? m.program = some ⟨strategy, some c⟩ := by
  cases e with
  | aliases oracle strategy stmt method v => exact ⟨_, _, rfl⟩
  | taint oracle site context stmt target set method fact =>
    cases hbase : (site.classify m.program context stmt fact).base? with
    | none =>
      have hok : (site.taint m oracle context stmt target set method fact).result = .ok () :=
        (Site.taint_of_none target set method hbase).1
      simp only [step, Out.error?, hok, failure?] at h
      cases h
    | some base => exact ⟨_, _, by simp only [Ev.request?, hbase]; rfl⟩
  | _ => cases h

theorem query?_of_request? {e : Ev} {c : Session.Call} (h : e.request? program = some ⟨strategy, some c⟩)
    (hq : c.query? = some q) : e.query? program = some (strategy, q) := by
  simp [Ev.query?, h, hq]

/-! ## A query that was not answered is asked again -/

theorem sessionFor_keep (s : Session) (strategy : Sparsification) :
    ((m.keep s).sessionFor strategy).1 = if s.strategy = strategy then s else Session.start strategy m.config :=
  sessionFor_of_some rfl strategy

theorem lookup_step {e : Ev} (h : (m.sessionFor strategy).1.lookup q = none)
    (hno : (m.step e).1.error? = none → e.query? m.program ≠ some (strategy, q)) :
    ((m.step e).2.sessionFor strategy).1.lookup q = none := by
  cases hr : e.request? m.program with
  | none =>
    by_cases hreset : e.isReset = true
    · rw [step_reset hreset, sessionFor_of_none rfl]
      exact Session.lookup_start _ _ _
    · rw [step_idle hr (Bool.eq_false_iff.mpr hreset)]
      exact h
  | some r =>
    obtain ⟨strategy', call?⟩ := r
    rw [step_request hr, sessionFor_keep]
    split
    · rename_i hs
      rw [(Session.run_kept _ _).strategy, sessionFor_strategy] at hs
      subst hs
      cases call? with
      | none => exact h
      | some c =>
        refine Session.lookup_reply h fun aliases hans => ?_
        obtain ⟨hq, hok⟩ := Session.Served.answer?_eq_some.mp hans
        refine hno ?_ (query?_of_request? hr hq)
        rw [(served hr).2, show _ = Except.ok aliases from hok]
        rfl
    · exact Session.lookup_start _ _ _

theorem lookup_after (evs : List Ev) (h : (m.sessionFor strategy).1.lookup q = none)
    (hno : (strategy, q) ∉ m.answered evs) : ((m.after evs).sessionFor strategy).1.lookup q = none := by
  induction evs generalizing m with
  | nil => exact h
  | cons e evs ih =>
    rw [answered, List.mem_append, not_or] at hno
    refine ih (lookup_step h fun hok hq => hno.1 ?_) hno.2
    simp [hok, hq]

/-- The sessions handed out are of the manager's configuration. -/
theorem sessionFor_after {notices : List Notice} (hcreate : create program config = .ok (m, notices))
    (evs : List Ev) (strategy : Sparsification) :
    Session.Kept (Session.start strategy (m.after evs).config) ((m.after evs).sessionFor strategy).1 := by
  have hconfig : (m.after evs).config = config := (config_of_create hcreate evs).2
  obtain rfl := eq_of_create hcreate
  rw [sessionFor_of_live hconfig (session_after program config evs), hconfig]
  exact Session.run_kept _ _

/-- A query that is missing goes to the oracle, whichever operation makes it. -/
theorem asked?_of_lookup {e : Ev} (hq : e.query? m.program = some (strategy, q))
    (hkept : Session.Kept (Session.start strategy m.config) (m.sessionFor strategy).1)
    (hdisabled : m.config.disabled = false) (h : (m.sessionFor strategy).1.lookup q = none) :
    m.asked? e = some ⟨strategy, {}, q⟩ := by
  obtain ⟨c, hr, hbuild⟩ := request?_of_query? hq
  have hask : (m.sessionFor strategy).1.ask q = ⟨strategy, {}, q⟩ := by
    rw [Session.ask, hkept.strategy, hkept.options]
    rfl
  rw [(served hr).1, Session.reply_of_query (hkept.disabled.trans hdisabled) hbuild,
    Session.asked_of_lookup_none h, hask]

/-- What the oracle failed on goes to the oracle again, as long as it is not answered. -/
theorem asked?_after_failure {notices : List Notice} (hcreate : create program config = .ok (m, notices))
    (evs : List Ev) {e : Ev} {err : OracleError}
    (h : ((m.after evs).step e).1.error? = some (.oracle err)) :
    ∃ strategy q, e.query? program = some (strategy, q) ∧
      ∀ evs', (strategy, q) ∉ ((m.after evs).step e).2.answered evs' →
        ∀ e', e'.query? program = some (strategy, q) →
          (((m.after evs).step e).2.after evs').asked? e' = some ⟨strategy, {}, q⟩ := by
  have hsame : ∀ evs, (m.after evs).program = program ∧ (m.after evs).config = config :=
    config_of_create hcreate
  obtain ⟨strategy, c, hr⟩ := request?_of_error h
  obtain ⟨hdisabled, q, hq, hl⟩ :=
    Session.lookup_of_oracle_error (eq_error_of_failure? ((served hr).2.symm.trans h))
  have hdisabled := (sessionFor_after hcreate evs strategy).disabled.symm.trans hdisabled
  have hmissing : (((m.after evs).step e).2.sessionFor strategy).1.lookup q = none :=
    lookup_step hl fun hok => absurd (hok.symm.trans h) nofun
  rw [(hsame evs).1] at hr
  refine ⟨strategy, q, query?_of_request? hr hq, fun evs' hno e' he' => ?_⟩
  -- the operation that failed and those behind it are a run of the manager, too
  have hrun : ((m.after evs).step e).2.after evs' = m.after (evs ++ e :: evs') := by
    simp [after]
  have hstill := lookup_after evs' hmissing hno
  rw [hrun] at hstill ⊢
  refine asked?_of_lookup ?_ (sessionFor_after hcreate _ strategy) ?_ hstill
  · rw [(hsame _).1]
    exact he'
  · rw [(hsame _).2, ← (hsame evs).2]
    exact hdisabled

/-! ## Clean failures -/

/-- How a call `c` on the session of a strategy fails, and what it leaves behind then. -/
structure Clean {α : Type} (m : Manager) (strategy : Sparsification) (c : Session.Call)
    (result : Except AliasError α) (asked : Option Ask) (m' : Manager) : Prop where
  asks : Session.AsksOnly strategy c asked
  error : ∀ e, result = .error e ↔ Session.Blames m.config.disabled c asked e
  untouched : ∀ e, result = .error e → Untouched m strategy m'

theorem getAliases_clean (hkept : Session.Kept (Session.start strategy m.config) (m.sessionFor strategy).1)
    (oracle : Oracle) (stmt : Stmt) (method : Method) (v : Variable) :
    let r := m.getAliases oracle strategy stmt method v
    m.Clean strategy ⟨m.program, oracle, stmt, method, v⟩ r.result r.asked r.manager := by
  -- a call on the manager is one on the session of the strategy
  let c : Session.Call := ⟨m.program, oracle, stmt, method, v⟩
  let r := (m.sessionFor strategy).1.reply c
  have hasks : Session.AsksOnly _ c r.asked := Session.asksOnly_reply hkept.options
  have herror : ∀ e, r.result = .error e ↔ Session.Blames _ c r.asked e :=
    Session.result_eq_error_iff
  rw [hkept.strategy] at hasks
  rw [hkept.disabled] at herror
  exact ⟨hasks, herror, fun e => getAliases_untouched⟩

theorem Clean.map {α β : Type} {c : Session.Call} {result : Except AliasError α} {asked : Option Ask}
    {m' : Manager} (h : m.Clean strategy c result asked m') (f : α → β) :
    m.Clean strategy c (result.map f) asked m' where
  asks := h.asks
  error e := map_eq_error_iff.trans (h.error e)
  untouched e he := h.untouched e (map_eq_error_iff.mp he)

variable {oracle : Oracle} {site : Site} {context fact : Fact} {stmt : Stmt} {base : Variable}

theorem taint_clean (target : Option Variable) (set : FactSet) (method : Method)
    (hkept : Session.Kept (Session.start site.strategy m.config) (m.sessionFor site.strategy).1)
    (hbase : (site.classify m.program context stmt fact).base? = some base) :
    let o := site.taint m oracle context stmt target set method fact
    m.Clean site.strategy ⟨m.program, oracle, stmt, m.program.methodOf stmt, base⟩ o.result o.asked o.manager := by
  intro o
  have hpasses : Site.Passes o _ _ := Site.taint_passes _ target set method hbase
  rw [hpasses.result, hpasses.asked, hpasses.manager]
  exact (getAliases_clean hkept oracle stmt (m.program.methodOf stmt) base).map _

/-- A taint that fails has a base to query, and adds nothing. -/
theorem taint_of_error {target : Option Variable} {set : FactSet} {method : Method} {e : AliasError}
    (h : (site.taint m oracle context stmt target set method fact).result = .error e) :
    (site.taint m oracle context stmt target set method fact).set = set ∧
      ∃ base, (site.classify m.program context stmt fact).base? = some base := by
  cases hbase : (site.classify m.program context stmt fact).base? with
  | none =>
    rw [(Site.taint_of_none target set method hbase).1] at h
    cases h
  | some base =>
    have hquery := map_eq_error_iff.mp ((Site.taint_passes _ target set method hbase).result.symm.trans h)
    exact ⟨Site.taint_set_of_error target set method hbase hquery, base, rfl⟩

/-- In any state a manager can be in, a call for aliases fails if its statement has no
    successor, and then nothing is asked, or if the oracle fails on its query, and in no
    other case. A call that fails leaves the live session as it was, or a fresh one if
    there was none of the strategy; a taint that fails adds nothing to its set, either.
    What the oracle failed on goes to the oracle again, as long as it is not answered. -/
theorem failures_clean {notices : List Notice} (hcreate : create program config = .ok (m, notices))
    (evs : List Ev) :
    let m' := m.after evs
    (∀ (oracle : Oracle) (strategy : Sparsification) (stmt : Stmt) (method : Method) (v : Variable),
      let r := m'.getAliases oracle strategy stmt method v
      m'.Clean strategy ⟨m'.program, oracle, stmt, method, v⟩ r.result r.asked r.manager) ∧
    (∀ (oracle : Oracle) (site : Site) (context : Fact) (stmt : Stmt) (target : Option Variable)
        (set : FactSet) (method : Method) (fact : Fact),
      let base? := (site.classify m'.program context stmt fact).base?
      let o := site.taint m' oracle context stmt target set method fact
      (∀ e, o.result = .error e → o.set = set ∧ ∃ base, base? = some base) ∧
        ∀ base, base? = some base →
          m'.Clean site.strategy ⟨m'.program, oracle, stmt, m'.program.methodOf stmt, base⟩ o.result o.asked
            o.manager) ∧
    ∀ (e : Ev) (err : OracleError), (m'.step e).1.error? = some (.oracle err) →
      ∃ strategy q, e.query? program = some (strategy, q) ∧
        ∀ evs', (strategy, q) ∉ (m'.step e).2.answered evs' →
          ∀ e', e'.query? program = some (strategy, q) →
            ((m'.step e).2.after evs').asked? e' = some ⟨strategy, {}, q⟩ :=
  ⟨fun oracle strategy => getAliases_clean (sessionFor_after hcreate evs strategy) oracle,
    fun _ site _ _ target set method _ =>
      ⟨fun _ => taint_of_error, fun _ => taint_clean target set method (sessionFor_after hcreate evs site.strategy)⟩,
    fun _ _ => asked?_after_failure hcreate evs⟩

/-- An analysis that gives up on every query. -/
def givingUp : Oracle where
  solve ask := .error (.ofQuery ask.query "timeout")

/-- `v1` is answered and cached, `v3` fails. The session is as before, and `v3` is asked
    for again behind a hit, another failure and a reset. -/
theorem failures_clean_giving_up :
    let good := (Session.asking ⟨1⟩).oracle
    let query (oracle : Oracle) (v : Variable) : Ev := .aliases oracle .none ⟨1⟩ ⟨1⟩ v
    let m := after ⟨Session.straight, Session.twoSlots, none⟩ [query good ⟨1⟩]
    let e := query givingUp ⟨3⟩
    (m.step e).1.error? = some (.oracle ⟨"BackwardQuery(v3 @ m1:s1 -> s2)", "timeout"⟩) ∧
      (m.step e).2 = m ∧
      ((m.step e).2.after [query good ⟨1⟩, e, .reset]).asked? (query good ⟨3⟩) =
        some ⟨.none, {}, ⟨⟨1⟩, ⟨1⟩, ⟨2⟩, ⟨3⟩⟩⟩ := by
  intro good query m e
  have hcreate : create Session.straight Session.twoSlots =
      .ok (⟨Session.straight, Session.twoSlots, none⟩, [.managerReady .none true false]) := rfl
  obtain ⟨haliases, -, hagain⟩ := failures_clean hcreate [query good ⟨1⟩]
  have herror : (m.step e).1.error? = some (.oracle ⟨"BackwardQuery(v3 @ m1:s1 -> s2)", "timeout"⟩) := by
    decide
  have hclean := haliases givingUp .none ⟨1⟩ ⟨1⟩ ⟨3⟩
  obtain ⟨strategy, q, hq, hasked⟩ := hagain e _ herror
  cases hq
  exact ⟨herror, (hclean.untouched _ (eq_error_of_failure? herror)).live rfl, hasked _ (by decide) _ rfl⟩

end Manager

end TaintAlias
