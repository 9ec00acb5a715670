/-
  TaintAlias.Proofs.Session.History — what a session was asked and what it replied.

  `serve` pairs each call of a run with its reply. Of a log, `answers` lists the queries
  that were answered with their answers, and `solves` what the oracle answered, both in
  order; a call that fails is in neither. `recorded` says for one call which of them it
  adds to, and by how much the session changes.

  The cache of a session knows the answers and nothing else: it is the window on them
  (`cache_run`). Hence the exact criterion for a hit (`asks_iff_forgotten`): a call goes
  to the oracle if its query was never answered, or if at least as many other queries as
  the cache has slots were answered since; otherwise the reply is the last answer to it.
-/

import TaintAlias.Proofs.Session.Run

namespace TaintAlias

namespace Session

open QueryCache

/-- A call and the reply to it. -/
structure Served where
  call : Call
  reply : Reply

/-- The replies to one call after another. -/
def serve (s : Session) : List Call → List Served
  | [] => []
  | c :: calls => ⟨c, s.reply c⟩ :: serve (s.reply c).session calls

theorem serve_append (s : Session) (calls more : List Call) :
    s.serve (calls ++ more) = s.serve calls ++ (s.run calls).serve more := by
  induction calls generalizing s with
  | nil => rfl
  | cons c calls ih => exact congrArg _ (ih _)

theorem serve_concat (s : Session) (calls : List Call) (c : Call) :
    s.serve (calls ++ [c]) =
      s.serve calls ++ [⟨c, (s.run calls).reply c⟩] := by
  rw [serve_append]
  rfl

theorem run_concat (s : Session) (calls : List Call) (c : Call) :
    s.run (calls ++ [c]) = ((s.run calls).reply c).session := by
  rw [run_append]
  rfl

namespace Served

/-- The query of a call and the answer to it, if it was answered. -/
def answer? (x : Served) : Option (Query × AliasSet) :=
  match x.call.query?, x.reply.result with
  | some q, .ok aliases => some (q, aliases)
  | _, _ => none

/-- What the oracle answered, if it was asked and did not fail. -/
def solve? (x : Served) : Option Answer := x.reply.asked.bind fun ask => (x.call.oracle.solve ask).toOption

end Served

theorem Served.answer?_eq_some {x : Served} {q : Query} {aliases : AliasSet} :
    x.answer? = some (q, aliases) ↔
      x.call.query? = some q ∧ x.reply.result = .ok aliases := by
  unfold answer?
  split <;> simp_all

/-- The queries answered, with their answers. -/
def answers (log : List Served) : List (Query × AliasSet) :=
  log.filterMap (·.answer?)

/-- What the oracle answered. -/
def solves (log : List Served) : List Answer := log.filterMap (·.solve?)

variable {s : Session} {c : Call} {q : Query}

/-! ## What a call adds -/

/-- What one call adds to the answers and to the solves, and what it makes of `s`. -/
inductive Recorded (s : Session) (c : Call) (r : Reply) : Prop
  | failed (hans : Served.answer? ⟨c, r⟩ = none) (hsol : Served.solve? ⟨c, r⟩ = none)
      (hok : r.result.isOk = false) (hs : r.session = s)
  | hit {q : Query} {aliases : AliasSet} {s' : Session} (hl : s.lookup q = some (aliases, s'))
      (hans : Served.answer? ⟨c, r⟩ = some (q, aliases)) (hsol : Served.solve? ⟨c, r⟩ = none)
      (hok : r.result.isOk = true) (hs : r.session = s'.count q c.oracle.callTime)
  | solved {q : Query} {a : Answer} (hl : s.lookup q = none)
      (hans : Served.answer? ⟨c, r⟩ = some (q, a.aliases)) (hsol : Served.solve? ⟨c, r⟩ = some a)
      (hok : r.result.isOk = true)
      (hs : r.session = (s.learn q a).count q (c.oracle.callTime + c.oracle.solveTime))

theorem recorded (hd : s.disabled = false) (c : Call) :
    Recorded s c (s.reply c) := by
  have h := s.replied c
  generalize s.reply c = r at h ⊢
  cases h with
  | disabled hd' => rw [hd] at hd'; cases hd'
  | noQuery _ hq => exact .failed (by simp [Served.answer?, hq]) rfl rfl rfl
  | hit _ hq hl => exact .hit hl (by simp [Served.answer?, hq]) rfl rfl rfl
  | failed _ hq _ he =>
    exact .failed (by simp [Served.answer?, hq]) (by simp [Served.solve?, he, Except.toOption]) rfl rfl
  | solved _ hq hl ha =>
    exact .solved hl (by simp [Served.answer?, hq]) (by simp [Served.solve?, ha, Except.toOption]) rfl rfl

theorem recorded_run (strategy : Sparsification) {config : Config} (hdisabled : config.disabled = false)
    (calls : List Call) (c : Call) :
    Recorded ((start strategy config).run calls) c
      (((start strategy config).run calls).reply c) :=
  recorded ((run_kept (start strategy config) calls).disabled.trans hdisabled) c

theorem answers_concat (log : List Served) (x : Served) :
    answers (log ++ [x]) = answers log ++ (x.answer?).toList := by
  simp [answers, List.filterMap_append, List.filterMap_cons]
  cases x.answer? <;> rfl

theorem solves_concat (log : List Served) (x : Served) : solves (log ++ [x]) = solves log ++ x.solve?.toList := by
  simp [solves, List.filterMap_append, List.filterMap_cons]
  cases x.solve? <;> rfl

/-! ## The cache -/

theorem cache_start (strategy : Sparsification) {config : Config} (h : config.caching = true) :
    (start strategy config).cache = some (ofCapacity config.capacity) := by
  simp [start, h]

/-- Of all answers the cache of a session holds the last ones. -/
theorem cache_run (strategy : Sparsification) {config : Config} (hcaching : config.caching = true)
    (hdisabled : config.disabled = false) (calls : List Call) :
    ((start strategy config).run calls).cache =
      some (window (ofCapacity config.capacity).capacity
        (answers ((start strategy config).serve calls))) := by
  have hcapacity := capacity_ofCapacity_ne_zero config.capacity
  induction calls using List.reverseRecOn with
  | nil => exact (cache_start strategy hcaching).trans (congrArg some (ofCapacity_eq_window _))
  | append_singleton calls c ih =>
    rw [run_concat, serve_concat, answers_concat]
    cases recorded_run strategy hdisabled calls c with
    | failed hans _ _ hs => rw [hans, hs, ih, Option.toList_none, List.append_nil]
    | hit hl hans _ _ hs =>
      obtain ⟨cache, cache', hc, hget, rfl⟩ := lookup_eq_some hl
      obtain rfl := Option.some.inj (ih.symm.trans hc)
      rw [hans, hs]
      exact congrArg some (get_window hcapacity hget).2
    | solved _ hans _ _ hs =>
      rw [hans, hs]
      exact (congrArg (Option.map _) ih).trans (congrArg some (insert_window hcapacity _ _ _))

/-- A hit is the last answer to its query. -/
theorem last?_of_lookup (strategy : Sparsification) {config : Config} (hdisabled : config.disabled = false)
    {calls : List Call} {aliases : AliasSet} {s' : Session}
    (h : ((start strategy config).run calls).lookup q = some (aliases, s')) :
    last? q (answers ((start strategy config).serve calls)) = some aliases := by
  obtain ⟨cache, cache', hc, hget, -⟩ := lookup_eq_some h
  have hcaching : config.caching = true := by
    rw [← run_start_caching strategy config calls, isCaching, hc]
    rfl
  obtain rfl := Option.some.inj ((cache_run strategy hcaching hdisabled calls).symm.trans hc)
  exact find?_window_eq_some (get_window (capacity_ofCapacity_ne_zero _) hget).1

/-! ## When the oracle is asked -/

theorem lookup_eq_none_iff {cache : QueryCache} (h : s.cache = some cache) :
    s.lookup q = none ↔ cache.find? q = none := by
  simp only [lookup, h, QueryCache.get]
  cases cache.find? q <;> simp

theorem reply_of_query (hd : s.disabled = false) (hq : c.query? = some q) :
    s.reply c = s.answer c.oracle q := by
  rw [Call.query?] at hq
  simp [reply, getAliases, hd, hq]

theorem answer_of_lookup {s' : Session} {aliases : AliasSet} (h : s.lookup q = some (aliases, s'))
    (oracle : Oracle) : (s.answer oracle q).asked = none ∧ (s.answer oracle q).result = .ok aliases := by
  simp [answer, h]

theorem asked_of_lookup_none (h : s.lookup q = none) (oracle : Oracle) :
    (s.answer oracle q).asked = some (s.ask q) := by
  simp only [answer, h]
  cases oracle.solve (s.ask q) <;> rfl

/-- `q` was never answered, or as many other queries were answered since as a cache of
    this capacity has slots; a capacity of zero counts as none. -/
def Forgotten (capacity : Option UInt64) (history : List (Query × AliasSet)) (q : Query) : Prop :=
  q ∉ queriesOf history ∨ ∃ n, capacity = some n ∧ n ≠ 0 ∧ n.toNat ≤ (queriesOf (since q history)).card

theorem forgotten_iff {capacity : Option UInt64} {history : List (Query × AliasSet)} :
    Forgotten capacity history q ↔ (window (ofCapacity capacity).capacity history).find? q = none := by
  rw [find?_window_eq_none, Forgotten]
  refine or_congr_right ?_
  simp only [capacity_ofCapacity_eq_some]
  constructor
  · rintro ⟨n, hn, hne, hle⟩
    exact ⟨n.toNat, ⟨n, hn, hne, rfl⟩, hle⟩
  · rintro ⟨-, ⟨n, hn, hne, rfl⟩, hle⟩
    exact ⟨n, hn, hne, hle⟩

instance {capacity : Option UInt64} {history : List (Query × AliasSet)} : Decidable (Forgotten capacity history q) :=
  decidable_of_iff _ forgotten_iff.symm

/-- With a cache, a call goes to the oracle exactly if its query is forgotten. If it does
    not, the reply is the last answer to the query. -/
theorem asks_iff_forgotten (strategy : Sparsification) {config : Config} (hcaching : config.caching = true)
    (hdisabled : config.disabled = false) (calls : List Call)
    (hq : c.query? = some q) :
    let s := start strategy config
    let history := answers (s.serve calls)
    let r := (s.run calls).reply c
    (r.asked = some ⟨strategy, {}, q⟩ ↔ Forgotten config.capacity history q) ∧
      (¬ Forgotten config.capacity history q →
        r.asked = none ∧ ∃ aliases, last? q history = some aliases ∧ r.result = .ok aliases) := by
  intro s history r
  have hkept : Kept s (s.run calls) := run_kept s calls
  have hcache : (s.run calls).cache = some (window (ofCapacity config.capacity).capacity history) :=
    cache_run strategy hcaching hdisabled calls
  have hr : r = (s.run calls).answer c.oracle q := reply_of_query (hkept.disabled.trans hdisabled) hq
  have hask : (s.run calls).ask q = ⟨strategy, {}, q⟩ := by
    rw [ask, hkept.strategy, hkept.options]
    rfl
  rw [forgotten_iff, ← lookup_eq_none_iff hcache, hr, ← hask]
  cases hl : (s.run calls).lookup q with
  | none => exact ⟨iff_of_true (asked_of_lookup_none hl c.oracle) rfl, fun h => absurd rfl h⟩
  | some found =>
    obtain ⟨aliases, s'⟩ := found
    obtain ⟨hasked, hresult⟩ := answer_of_lookup hl c.oracle
    refine ⟨iff_of_false (by simp [hasked]) (by simp), fun _ => ⟨hasked, aliases, ?_, hresult⟩⟩
    exact last?_of_lookup strategy hdisabled hl

/-! ## A cache with two slots -/

/-- One statement after the other. -/
def straight : Program where
  methodOf _ := ⟨1⟩
  successors stmt := [⟨stmt.id + 1⟩]
  isCall _ := false
  signature _ := "void main()"

/-- The same statements, every other one skipped. -/
def skipping : Program := { straight with successors := fun stmt => [⟨stmt.id + 2⟩] }

/-- A call for the aliases of `v` behind the first statement; the oracle finds `v` alone. -/
def asking (v : Variable) : Call where
  program := straight
  oracle := { solve := fun ask => .ok { aliases := .ofList [.ofLocal ask.query.var] } }
  stmt := ⟨1⟩
  method := ⟨1⟩
  var := v

def twoSlots : Config := { returnSites := .fieldWriteOnly, caching := true, capacity := some 2 }

/-- Of `v1`, `v3`, `v1`, `v2` the cache remembers `v1`, used after `v3`, and not `v3`. On
    another edge `v1` is another query. -/
theorem asks_iff_forgotten_two_slots :
    let calls := [asking ⟨1⟩, asking ⟨3⟩, asking ⟨1⟩, asking ⟨2⟩]
    let s := (start .none twoSlots).run calls
    (s.reply (asking ⟨1⟩)).asked = none ∧
      (s.reply (asking ⟨3⟩)).asked = some ⟨.none, {}, ⟨⟨1⟩, ⟨1⟩, ⟨2⟩, ⟨3⟩⟩⟩ ∧
      (s.reply { asking ⟨1⟩ with program := skipping }).asked = some ⟨.none, {}, ⟨⟨1⟩, ⟨1⟩, ⟨3⟩, ⟨1⟩⟩⟩ := by
  intro calls s
  have hcaching : twoSlots.caching = true := rfl
  have hdisabled : twoSlots.disabled = false := rfl
  have hq : ∀ v, (asking v).query? = some ⟨⟨1⟩, ⟨1⟩, ⟨2⟩, v⟩ := fun v => rfl
  have hq' : ({ asking ⟨1⟩ with program := skipping } : Call).query? = some ⟨⟨1⟩, ⟨1⟩, ⟨3⟩, ⟨1⟩⟩ := rfl
  obtain ⟨-, hhit⟩ := asks_iff_forgotten .none hcaching hdisabled calls (hq ⟨1⟩)
  obtain ⟨hmiss, -⟩ := asks_iff_forgotten .none hcaching hdisabled calls (hq ⟨3⟩)
  obtain ⟨hother, -⟩ := asks_iff_forgotten .none hcaching hdisabled calls hq'
  exact ⟨(hhit (by decide)).1, hmiss.mpr (by decide), hother.mpr (by decide)⟩

end Session

end TaintAlias
