/-
  TaintAlias.Proofs.Manager.Run — a manager serving one operation after another.

  `Ev` lists what the host engine can do with a manager: ask for aliases, read the
  session of a strategy, taint through any site that shares the manager, look at the
  live session, collect a report, and reset. As for sessions, each operation that may
  query carries the oracle it meets.

  An operation either asks for the session of a strategy and makes at most one call on
  it (`Ev.request?`), or resets, or only observes. Proved:
  - a request makes the session it asks for the live one, after its call (`step_request`);
  - whatever neither requests nor resets leaves the manager as it was (`step_idle`);
  - the program and the configuration never change (`step_config`, `after_config`);
  - what holds of fresh sessions and survives calls holds of the live session, whatever
    operations there were (`live_after`).
-/

import TaintAlias.Proofs.Session.Run
import TaintAlias.Proofs.Site.Effect
import TaintAlias.Report

namespace TaintAlias

namespace Manager

inductive Ev where
  | aliases (oracle : Oracle) (strategy : Sparsification) (stmt : Stmt) (method : Method) (v : Variable)
  /-- Read from the session of `strategy` how often a query was answered. -/
  | queryCount (strategy : Sparsification) (text : String)
  /-- Read the other data of the session of `strategy`. -/
  | info (strategy : Sparsification)
  | taint (oracle : Oracle) (site : Site) (context : Fact) (stmt : Stmt) (target : Option Variable)
      (set : FactSet) (method : Method) (fact : Fact)
  | active
  | counters
  | countersFor (strategy : Sparsification)
  | totalTime
  | report (target : String) (strategy : Sparsification) (logs : Sparsification → List BuildLog)
  | reset

inductive Out where
  | aliases (result : Except AliasError AliasSet)
  | count (n : Nat)
  | info (strategy : Sparsification) (caching : Bool) (counters : Counters)
  | taint (result : Except AliasError Unit) (set : FactSet)
  | active (strategy : Option Sparsification)
  | counters (counters : Option Counters)
  | time (nanos : Nat)
  | report (r : Report)
  | done

def step (m : Manager) : Ev → Out × Manager
  | .aliases oracle strategy stmt method v =>
    let r := m.getAliases oracle strategy stmt method v
    (.aliases r.result, r.manager)
  | .queryCount strategy text =>
    let s := (m.sessionFor strategy).1
    (.count (s.queryCount text), m.keep s)
  | .info strategy =>
    let s := (m.sessionFor strategy).1
    (.info s.strategy s.isCaching s.counters, m.keep s)
  | .taint oracle site context stmt target set method fact =>
    let o := site.taint m oracle context stmt target set method fact
    (.taint o.result o.set, o.manager)
  | .active => (.active m.active?, m)
  | .counters => (.counters m.counters?, m)
  | .countersFor strategy => (.counters (m.countersFor? strategy), m)
  | .totalTime => (.time m.totalTime, m)
  | .report target strategy logs => (.report (.collect target strategy m logs), m)
  | .reset => (.done, m.reset)

/-- The manager after one operation after another. -/
def after (m : Manager) (evs : List Ev) : Manager := evs.foldl (fun m e => (m.step e).2) m

theorem after_concat (m : Manager) (evs : List Ev) (e : Ev) :
    m.after (evs ++ [e]) = ((m.after evs).step e).2 := by
  simp [after]

/-! ## What an operation asks for -/

/-- The session asked for, and the call made on it, if any. -/
structure Request where
  strategy : Sparsification
  call? : Option Session.Call

/-- What an operation asks of the manager's sessions. A taint asks for its site's
    strategy if its fact has a base to query at the statement. -/
def Ev.request? (program : Program) : Ev → Option Request
  | .aliases oracle strategy stmt method v => some ⟨strategy, some ⟨program, oracle, stmt, method, v⟩⟩
  | .queryCount strategy _ | .info strategy => some ⟨strategy, none⟩
  | .taint oracle site context stmt _ _ _ fact =>
    (site.classify program context stmt fact).base?.map fun base =>
      ⟨site.strategy, some ⟨program, oracle, stmt, program.methodOf stmt, base⟩⟩
  | _ => none

def Ev.isReset : Ev → Bool
  | .reset => true
  | _ => false

variable {m : Manager} {e : Ev}

/-- The session asked for becomes the live one. -/
theorem step_request {r : Request} (h : e.request? m.program = some r) :
    (m.step e).2 = m.keep ((m.sessionFor r.strategy).1.run r.call?.toList) := by
  cases e with
  | aliases oracle strategy stmt method v => cases h; rfl
  | queryCount strategy text => cases h; rfl
  | info strategy => cases h; rfl
  | taint oracle site context stmt target set method fact =>
    obtain ⟨base, hbase, rfl⟩ := Option.map_eq_some_iff.mp h
    exact (Site.taint_passes _ target set method hbase).manager
  | _ => cases h

/-- Observing changes nothing. -/
theorem step_idle (h : e.request? m.program = none) (hr : e.isReset = false) : (m.step e).2 = m := by
  cases e with
  | taint oracle site context stmt target set method fact =>
    exact Site.taint_manager_of_none target set method (Option.map_eq_none_iff.mp h)
  | reset => cases hr
  | aliases oracle strategy stmt method v => cases h
  | queryCount strategy text => cases h
  | info strategy => cases h
  | _ => rfl

theorem step_reset (h : e.isReset = true) : (m.step e).2 = m.reset := by
  cases e with
  | reset => rfl
  | _ => cases h

theorem step_config (m : Manager) (e : Ev) :
    (m.step e).2.program = m.program ∧ (m.step e).2.config = m.config := by
  cases hq : e.request? m.program with
  | some r => rw [step_request hq]; exact ⟨rfl, rfl⟩
  | none =>
    by_cases hr : e.isReset = true
    · rw [step_reset hr]; exact ⟨rfl, rfl⟩
    · rw [step_idle hq (Bool.eq_false_iff.mpr hr)]; exact ⟨rfl, rfl⟩

theorem after_config (m : Manager) (evs : List Ev) :
    (m.after evs).program = m.program ∧ (m.after evs).config = m.config := by
  induction evs generalizing m with
  | nil => exact ⟨rfl, rfl⟩
  | cons e evs ih =>
    obtain ⟨hprogram, hconfig⟩ := ih (m.step e).2
    exact ⟨hprogram.trans (step_config m e).1, hconfig.trans (step_config m e).2⟩

/-! ## The session asked for -/

/-- What `create` returns has no session yet. -/
theorem eq_of_create {program : Program} {config : Config} {notices : List Notice}
    (h : create program config = .ok (m, notices)) : m = ⟨program, config, none⟩ := by
  unfold create at h
  split at h
  · cases h
  · cases h; rfl

theorem config_of_create {program : Program} {config : Config} {notices : List Notice}
    (h : create program config = .ok (m, notices)) (evs : List Ev) :
    (m.after evs).program = program ∧ (m.after evs).config = config := by
  obtain rfl := eq_of_create h
  exact after_config ⟨program, config, none⟩ evs

theorem sessionFor_of_none (h : m.session = none) (strategy : Sparsification) :
    (m.sessionFor strategy).1 = Session.start strategy m.config := by
  simp [sessionFor, h]

/-- The live session if it has the strategy, a fresh one otherwise. -/
theorem sessionFor_of_some {s : Session} (h : m.session = some s) (strategy : Sparsification) :
    (m.sessionFor strategy).1 = if s.strategy = strategy then s else Session.start strategy m.config := by
  simp only [sessionFor, h]
  split <;> rfl

theorem sessionFor_strategy (m : Manager) (strategy : Sparsification) :
    (m.sessionFor strategy).1.strategy = strategy := by
  cases hs : m.session with
  | none => rw [sessionFor_of_none hs]; rfl
  | some s =>
    rw [sessionFor_of_some hs]
    split
    · assumption
    · rfl

/-! ## What holds of every live session -/

/-- The oracle an operation meets, if it may query. -/
def Ev.oracle? : Ev → Option Oracle
  | .aliases oracle .. | .taint oracle .. => some oracle
  | _ => none

theorem Ev.oracle?_of_request {program : Program} {r : Request} (hr : e.request? program = some r) :
    ∀ c ∈ r.call?.toList, e.oracle? = some c.oracle := by
  intro c hc
  cases e with
  | aliases oracle strategy stmt method v =>
    cases hr
    obtain rfl := List.mem_singleton.mp hc
    rfl
  | taint oracle site context stmt target set method fact =>
    obtain ⟨base, -, rfl⟩ := Option.map_eq_some_iff.mp hr
    obtain rfl := List.mem_singleton.mp hc
    rfl
  | queryCount strategy text => cases hr; cases hc
  | info strategy => cases hr; cases hc
  | _ => cases hr

variable {P : Session → Prop}

theorem live_sessionFor (hstart : ∀ strategy, P (Session.start strategy m.config))
    (hm : ∀ s, m.session = some s → P s) (strategy : Sparsification) : P (m.sessionFor strategy).1 := by
  cases hs : m.session with
  | none =>
    rw [sessionFor_of_none hs]
    exact hstart strategy
  | some s =>
    rw [sessionFor_of_some hs]
    split
    · exact hm s hs
    · exact hstart strategy

/-- What holds of fresh sessions and survives the call of an operation. -/
theorem live_step (hstart : ∀ strategy, P (Session.start strategy m.config))
    (hreply : ∀ s c, e.oracle? = some c.oracle → P s → P (s.reply c).session)
    (hm : ∀ s, m.session = some s → P s) : ∀ s, (m.step e).2.session = some s → P s := by
  intro s hs
  cases hq : e.request? m.program with
  | some r =>
    rw [step_request hq] at hs
    cases hs
    exact Session.run_induction (live_sessionFor hstart hm r.strategy) fun s c hc =>
      hreply s c (Ev.oracle?_of_request hq c hc)
  | none =>
    by_cases hr : e.isReset = true
    · rw [step_reset hr] at hs
      cases hs
    · rw [step_idle hq (Bool.eq_false_iff.mpr hr)] at hs
      exact hm s hs

/-- And the calls of one operation after another. -/
theorem live_after {evs : List Ev} (hstart : ∀ strategy, P (Session.start strategy m.config))
    (hreply : ∀ e ∈ evs, ∀ s c, e.oracle? = some c.oracle → P s → P (s.reply c).session)
    (hm : ∀ s, m.session = some s → P s) : ∀ s, (m.after evs).session = some s → P s := by
  induction evs generalizing m with
  | nil => exact hm
  | cons e evs ih =>
    have hconfig : (m.step e).2.config = m.config := (step_config m e).2
    exact ih (hconfig ▸ hstart) (fun e' he' => hreply e' (List.mem_cons_of_mem _ he'))
      (live_step hstart (hreply e List.mem_cons_self) hm)

end Manager

end TaintAlias
