/-
  TaintAlias.Proofs.Report — a report agrees with the run it reports on.

  The numbers of the session come from its counters, and these sum up, in 64 bits, what the
  oracle answered to the calls the live session was asked (`propagations_run`). Which calls those
  are is settled by the requests since the last reset, of which the last ones for a single
  strategy count (`liveCalls`); a report on any other strategy has none
  (`countersFor?_after`).

  The numbers of the log are sums over its entries, so their order does not matter
  (`collect_perm`), and the time is rounded once, behind the sum (`totals_total`). Only a
  sparse strategy has a log. Together, for any run of a manager, this is `collect_after`.
-/

import TaintAlias.Proofs.Manager.Trailing
import TaintAlias.Proofs.Session.Accounting

namespace TaintAlias

/-! ## What the live session was asked -/

/-- The propagations of a session are those of the solves made for it, a hit having none. -/
theorem Session.propagations_run (strategy : Sparsification) (config : Config) (calls : List Call) :
    let solved := solves ((start strategy config).serve calls)
    Totals (solved.map (·.forward) ++ solved.map (·.backward))
      ((start strategy config).run calls).counters.propagations := by
  intro solved
  cases hdisabled : config.disabled with
  | false =>
    have h := balanced_run strategy hdisabled calls
    exact h.forward.add h.backward
  | true =>
    have hoff : (start strategy config).disabled = true := hdisabled
    obtain ⟨hrun, hasked⟩ := run_of_disabled hoff calls
    have hsolves : solved = [] := by
      refine List.filterMap_eq_nil_iff.mpr fun x hx => ?_
      rw [Served.solve?, hasked x hx]
      rfl
    rw [hrun, hsolves]
    rfl

namespace Manager

variable {program : Program} {config : Config} {m : Manager}

/-- The calls made on the live session. -/
def liveCalls (program : Program) (evs : List Ev) : List Session.Call :=
  (trailing program evs).filterMap (·.call?)

/-- The live session is a fresh one after those calls. -/
theorem session_of_active {notices : List Notice} (hcreate : create program config = .ok (m, notices))
    {evs : List Ev} {s : Sparsification} (h : (m.after evs).active? = some s) :
    (m.after evs).session = some ((Session.start s config).run (liveCalls program evs)) := by
  obtain rfl := eq_of_create hcreate
  rw [active?, session_after, live, Option.map_map] at h
  rw [session_after, live]
  obtain ⟨t, ht, hstrategy⟩ := Option.map_eq_some_iff.mp h
  obtain rfl : t = s := (Session.run_start_strategy t config _).symm.trans hstrategy
  rw [ht]
  rfl

/-- So are the counters for its strategy; for any other there are none. -/
theorem countersFor?_after {notices : List Notice} (hcreate : create program config = .ok (m, notices))
    (evs : List Ev) (s : Sparsification) :
    (m.after evs).countersFor? s =
      if (m.after evs).active? = some s then
        some ((Session.start s config).run (liveCalls program evs)).counters
      else none := by
  split
  · rename_i hs
    rw [countersFor?, session_of_active hcreate hs]
    simp [Session.run_start_strategy]
  · rename_i hs
    exact countersFor?_of_ne hs

end Manager

/-! ## The log -/

theorem BuildLog.totals_total (entries : List BuildLog) : Totals (entries.map (·.micros)) (total entries) := by
  induction entries with
  | nil => rfl
  | cons e rest ih => exact (totals_singleton e.micros).add ih

namespace Report

variable {strategy : Sparsification}

theorem consulted_sparse (h : strategy.isSparse = true) : consulted strategy = [strategy] := if_pos h

theorem consulted_full (h : strategy.isSparse = false) : consulted strategy = [] := if_neg (by simp [h])

/-- The order of the log does not matter. -/
theorem collect_perm (target : String) (m : Manager) {logs logs' : Sparsification → List BuildLog}
    (h : (logs' strategy).Perm (logs strategy)) :
    collect target strategy m logs' = collect target strategy m logs := by
  have hentries : ((consulted strategy).flatMap logs').Perm ((consulted strategy).flatMap logs) := by
    cases hsparse : strategy.isSparse with
    | true => simpa [consulted_sparse hsparse] using h
    | false => rw [consulted_full hsparse]; exact .nil
  have htime := (BuildLog.totals_total _).perm (BuildLog.totals_total _) (hentries.map (·.micros))
  simp only [collect, htime, hentries.countP_eq]

/-- A report on a strategy after any operations of a manager. It changes nothing. If the
    live session has the strategy, it is a fresh one that was asked `liveCalls`, and the
    report has the propagations of all solves among them, in both directions; otherwise it
    has none. For a
    sparse strategy it counts the entries of the log and rounds their time down as a
    whole, in whatever order they stand; for the full graph it asks for no log. -/
theorem collect_after {program : Program} {config : Config} {m : Manager} {notices : List Notice}
    (hcreate : Manager.create program config = .ok (m, notices)) (evs : List Manager.Ev) (target : String)
    (strategy : Sparsification) (logs : Sparsification → List BuildLog) :
    let m' := m.after evs
    let log := (Session.start strategy config).serve (Manager.liveCalls program evs)
    let entries := logs strategy
    let r := collect target strategy m' logs
    m'.step (.report target strategy logs) = (.report r, m') ∧
    (m'.active? = some strategy →
      m'.session = some ((Session.start strategy config).run (Manager.liveCalls program evs))) ∧
    (m'.active? = some strategy →
      Totals ((Session.solves log).map (·.forward) ++ (Session.solves log).map (·.backward))
        r.propagations) ∧
    (m'.active? ≠ some strategy → r.propagations = 0) ∧
    (strategy.isSparse = true →
      r.found = entries.countP (·.found) ∧ r.built = entries.countP (!·.found) ∧
      r.found + r.built = entries.length ∧
      ∃ micros, Totals (entries.map (·.micros)) micros ∧ r.buildMillis = micros / 1000) ∧
    (∀ logs', (logs' strategy).Perm entries → collect target strategy m' logs' = r) ∧
    (strategy.isSparse = false →
      consulted strategy = [] ∧ r.found = 0 ∧ r.built = 0 ∧ r.buildMillis = 0) := by
  intro m' log entries r
  have hr : r.propagations = ((m'.countersFor? strategy).getD {}).propagations := rfl
  rw [Manager.countersFor?_after hcreate] at hr
  refine ⟨rfl, Manager.session_of_active hcreate, fun hactive => ?_, fun hother => ?_, fun hsparse => ?_,
    fun logs' h => collect_perm target m' h, fun hfull => ?_⟩
  · rw [hr, if_pos hactive]
    exact Session.propagations_run strategy config _
  · rw [hr, if_neg hother]
    rfl
  · have hentries : (consulted strategy).flatMap logs = entries := by simp [consulted_sparse hsparse, entries]
    have hfound : r.found = entries.countP (·.found) := by rw [← hentries]; rfl
    have hbuilt : r.built = entries.countP (!·.found) := by rw [← hentries]; rfl
    have htime : r.buildMillis = BuildLog.total entries / 1000 := by rw [← hentries]; rfl
    refine ⟨hfound, hbuilt, ?_, _, BuildLog.totals_total entries, htime⟩
    rw [hfound, hbuilt, List.length_eq_countP_add_countP (fun e : BuildLog => e.found)]
    simp
  · have hnone : (consulted strategy).flatMap logs = [] := by rw [consulted_full hfull]; rfl
    refine ⟨consulted_full hfull, ?_, ?_, ?_⟩ <;> simp [r, collect, hnone, BuildLog.total]

/-! ## A strategy left and taken up again -/

/-- The first solve is lost with its session; of the three calls after the way back one
    hits. -/
def leftAndResumed : List Manager.Ev :=
  let query (strategy : Sparsification) (v : Variable) : Manager.Ev :=
    .aliases { solve := fun _ => .ok { forward := 3, backward := 4 } } strategy ⟨1⟩ ⟨1⟩ v
  [query .aliasAware ⟨1⟩, query .typeBased ⟨1⟩, query .aliasAware ⟨1⟩, query .aliasAware ⟨1⟩,
    query .aliasAware ⟨3⟩]

/-- Neither entry of the log takes a millisecond, both together do. -/
theorem collect_after_resumed :
    let m' := Manager.after ⟨Session.straight, Session.twoSlots, none⟩ leftAndResumed
    let logs : Sparsification → List BuildLog := fun _ => [⟨600, true⟩, ⟨700, false⟩]
    let r := collect "app" .aliasAware m' logs
    m'.active? = some .aliasAware ∧ r.propagations.toNat = 14 ∧ r.found + r.built = 2 ∧ r.buildMillis = 1 ∧
      collect "app" .aliasAware m' (fun _ => [⟨700, false⟩, ⟨600, true⟩]) = r ∧
      (collect "app" .none m' logs).propagations = 0 ∧ consulted .none = [] := by
  intro m' logs r
  have hcreate : Manager.create Session.straight Session.twoSlots =
      .ok (⟨Session.straight, Session.twoSlots, none⟩, [.managerReady .none true false]) := rfl
  have hactive : m'.active? = some .aliasAware := by decide
  obtain ⟨-, -, htotals, -, hsparse, hperm, -⟩ := collect_after hcreate leftAndResumed "app" .aliasAware logs
  obtain ⟨-, -, hcount, micros, hmicros, htime⟩ := hsparse rfl
  obtain ⟨-, -, -, hother, -, -, hfull⟩ := collect_after hcreate leftAndResumed "app" .none logs
  have hpropagations : r.propagations.toNat = 14 := (htotals hactive).exact (by decide)
  obtain rfl : micros = 1300 := UInt64.toNat_inj.mp (hmicros.exact (by decide))
  refine ⟨hactive, hpropagations, hcount, htime, hperm _ (.swap _ _ _), hother ?_,
    (hfull rfl).1⟩
  rw [hactive]
  decide

end Report

end TaintAlias
