/-
  TaintAlias.Proofs.Session.Counting — how often each query was answered.

  A session counts by text. One more under a text adds one to that text and nothing to
  any other (`lookup_bump`), so after any calls a text was counted as often as a query
  with that text was answered (`queryCount_run`). No two queries share a text, so the
  count under the text of a query is the number of answers to that query alone, and a
  text of no query has none.

  A disabled session answers every call without building a query (`query?`): it counts
  nothing. With that, the counts are exact for every session (`queryCount_exact`): each is
  the number of successful calls for its query, together they are all calls answered, and
  as many of them are not zero as different queries were answered.
-/

import Mathlib.Algebra.BigOperators.Group.Finset.Basic
import TaintAlias.Proofs.Session.Accounting

namespace TaintAlias

namespace Session

open QueryCache

variable {s : Session} {history : List (Query × AliasSet)}

/-! ## One more under a text -/

theorem lookup_bump (text t : String) (counts : List (String × Nat)) :
    ((bump text counts).lookup t).getD 0 = (counts.lookup t).getD 0 + if text = t then 1 else 0 := by
  induction counts with
  | nil =>
    by_cases h : text = t
    · simp [bump, h]
    · simp [bump, List.lookup_cons, h, beq_eq_false_iff_ne.mpr (Ne.symm h)]
  | cons e rest ih =>
    obtain ⟨u, n⟩ := e
    by_cases hu : u = text
    · subst hu
      by_cases ht : u = t
      · simp [bump, ht]
      · simp [bump, List.lookup_cons, ht, beq_eq_false_iff_ne.mpr (Ne.symm ht)]
    · rw [bump, if_neg hu]
      by_cases ht : u = t
      · subst ht
        simp [Ne.symm hu]
      · simp only [List.lookup_cons, beq_eq_false_iff_ne.mpr (Ne.symm ht), ih]

theorem queryCount_count (s : Session) (q : Query) (nanos : Nat) (text : String) :
    (s.count q nanos).queryCount text = s.queryCount text + if q.text = text then 1 else 0 :=
  lookup_bump q.text text s.counts

/-- A call adds one to the text of the query it was answered for. -/
theorem Recorded.queryCount {c : Call} {r : Reply} (h : Recorded s c r) (text : String) :
    r.session.queryCount text =
      s.queryCount text + ((Served.answer? ⟨c, r⟩).toList.map (·.1.text)).count text := by
  cases h with
  | failed hans _ _ hs => simp [hans, hs]
  | hit hl hans _ _ hs =>
    obtain ⟨cache, cache', -, -, rfl⟩ := lookup_eq_some hl
    rw [hans, hs, queryCount_count]
    simp [Session.queryCount, List.count_singleton]
  | solved _ hans _ _ hs =>
    rw [hans, hs, queryCount_count]
    simp [Session.queryCount, learn, List.count_singleton]

/-- A text was counted as often as a query with that text was answered. -/
theorem queryCount_run (strategy : Sparsification) {config : Config} (hdisabled : config.disabled = false)
    (calls : List Call) (text : String) :
    ((start strategy config).run calls).queryCount text =
      ((answers ((start strategy config).serve calls)).map (·.1.text)).count text := by
  induction calls using List.reverseRecOn with
  | nil => rfl
  | append_singleton calls c ih =>
    rw [run_concat, serve_concat, answers_concat, List.map_append, List.count_append, ← ih]
    exact (recorded_run strategy hdisabled calls c).queryCount text

/-! ## Queries and their texts -/

/-- Counting by the text is counting by the query. -/
theorem count_text (history : List (Query × AliasSet)) (q : Query) :
    (history.map (·.1.text)).count q.text = (history.map (·.1)).count q := by
  rw [← List.count_map_of_injective (history.map (·.1)) Query.text Query.text_injective, List.map_map]
  rfl

/-- The query a call builds; a disabled session builds none. -/
def query? (s : Session) (c : Call) : Option Query :=
  if s.disabled then none else c.query?

/-- The answers to a query are the successful calls for it. -/
theorem count_answers (hd : s.disabled = false) (log : List Served) (q : Query) :
    ((answers log).map (·.1)).count q =
      log.countP fun x => x.reply.result.isOk ∧ s.query? x.call = some q := by
  rw [answers, List.count, List.countP_map, List.countP_filterMap]
  refine List.countP_congr fun x _ => ?_
  simp only [query?, hd, Bool.false_eq_true, if_false, Served.answer?]
  cases x.call.query? with
  | none => simp
  | some r =>
    cases x.reply.result with
    | error e => simp [Except.isOk, Except.toBool]
    | ok aliases => simp [Except.isOk, Except.toBool]

/-! ## The law -/

/-- Queries have different texts. So after any calls, to any oracles, the count under the
    text of a query is the number of successful calls for it, and other texts have none;
    the counts of all queries add up to the calls answered, and those that are not zero
    are as many as the different queries answered. -/
theorem queryCount_exact (strategy : Sparsification) (config : Config) (calls : List Call) :
    let s := start strategy config
    let log := s.serve calls
    let t := s.run calls
    (∀ q r : Query, q.text = r.text ↔ q = r) ∧
    (∀ q, t.queryCount q.text =
      log.countP fun x => x.reply.result.isOk ∧ s.query? x.call = some q) ∧
    (∀ text, (∀ q : Query, q.text ≠ text) → t.queryCount text = 0) ∧
    ∃ counted : Finset Query, (∀ q, q ∈ counted ↔ t.queryCount q.text ≠ 0) ∧
      ∑ q ∈ counted, t.queryCount q.text = t.counters.invocations ∧ counted.card = t.counters.distinct := by
  intro s log t
  refine ⟨fun q r => Query.text_injective.eq_iff, ?_⟩
  cases hdisabled : config.disabled with
  | true =>
    have hd : s.disabled = true := hdisabled
    have ht : t = s := (run_of_disabled hd calls).1
    have hnone : ∀ text, t.queryCount text = 0 := fun text => by rw [ht]; rfl
    refine ⟨fun q => ?_, fun text _ => hnone text, ∅, fun q => by simp [hnone], ?_, ?_⟩
    · simp [hnone, query?, hd]
    · rw [ht]; rfl
    · rw [ht]; rfl
  | false =>
    have hbalanced : Balanced (answers log) (solves log) t :=
      balanced_run strategy hdisabled calls
    have hcount : ∀ q : Query, t.queryCount q.text = ((answers log).map (·.1)).count q := fun q =>
      (queryCount_run strategy hdisabled calls q.text).trans (count_text _ q)
    refine ⟨fun q => ?_, fun text hno => ?_, queriesOf (answers log), fun q => ?_, ?_, ?_⟩
    · rw [hcount, count_answers (show s.disabled = false from hdisabled)]
    · rw [queryCount_run strategy hdisabled, List.count_eq_zero]
      intro hmem
      obtain ⟨e, -, he⟩ := List.mem_map.mp hmem
      exact hno e.1 he
    · rw [hcount, mem_queriesOf, Nat.ne_zero_iff_zero_lt, List.count_pos_iff]
    · calc
        ∑ q ∈ queriesOf (answers log), t.queryCount q.text
            = ∑ q ∈ queriesOf (answers log), ((answers log).map (·.1)).count q :=
          Finset.sum_congr rfl fun q _ => hcount q
        _ = ((answers log).map (·.1)).length := List.sum_toFinset_count_eq_length _
        _ = (answers log).length := List.length_map _
        _ = t.counters.invocations := hbalanced.invocations.symm
    · rw [hbalanced.distinct, hbalanced.counted.length_eq]

/-! ## A hit and a failure -/

/-- A call for the aliases of `v` that is too hard for the oracle. -/
def failing (v : Variable) : Call :=
  { asking v with oracle := { solve := fun ask => .error (.ofQuery ask.query "timeout") } }

/-- Of two calls for `v3` the first failed; both for `v1` were answered, the second by the
    cache, and one more on another edge. The text of the variable alone is no query's. -/
theorem queryCount_exact_mixed :
    let calls := [asking ⟨1⟩, failing ⟨3⟩, asking ⟨1⟩, { asking ⟨1⟩ with program := skipping }, asking ⟨3⟩]
    let t := (start .none twoSlots).run calls
    (∀ q : Query, q.text ≠ "v1") ∧ t.queryCount "v1" = 0 ∧
      t.queryCount (Query.text ⟨⟨1⟩, ⟨1⟩, ⟨2⟩, ⟨1⟩⟩) = 2 ∧ t.queryCount (Query.text ⟨⟨1⟩, ⟨1⟩, ⟨3⟩, ⟨1⟩⟩) = 1 ∧
      t.queryCount (Query.text ⟨⟨1⟩, ⟨1⟩, ⟨2⟩, ⟨3⟩⟩) = 1 := by
  intro calls t
  have hno : ∀ q : Query, q.text ≠ "v1" := by
    intro q h
    have hhead := congrArg (fun text : String => text.toList.head?) h
    simp only [Query.toList_text] at hhead
    simp at hhead
  obtain ⟨-, hcount, hzero, -⟩ := queryCount_exact .none twoSlots calls
  exact ⟨hno, hzero "v1" hno, (hcount _).trans (by decide), (hcount _).trans (by decide),
    (hcount _).trans (by decide)⟩

end Session

end TaintAlias
