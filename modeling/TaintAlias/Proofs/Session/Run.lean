/-
  TaintAlias.Proofs.Session.Run — a session answering one call after another.

  A call carries the program and the oracle it meets, so nothing ties those of two calls
  together: an analysis that remembers, or that fails now and then, is one `Oracle` per
  call, and one statement can have other successors in the next call.

  `Replied` lists all a call can do to a session, and `replied` says that nothing else
  happens: a disabled session answers with the empty set, a statement without successor
  has no query, a cached query is answered from the cache, and any other goes to the
  oracle, which answers or fails. No call changes the strategy, the options, or whether
  the session is disabled or caches (`reply_kept`, `run_kept`).
-/

import TaintAlias.Proofs.QueryCache
import TaintAlias.Session.Basic

namespace TaintAlias

namespace Session

/-- A query for the aliases of a variable, and the program and the oracle it meets. -/
structure Call where
  program : Program
  oracle : Oracle
  stmt : Stmt
  method : Method
  var : Variable

/-- The query a call makes, if its statement has a successor. -/
def Call.query? (c : Call) : Option Query := Query.build? c.program c.stmt c.method c.var

def reply (s : Session) (c : Call) : Reply :=
  s.getAliases c.program c.oracle c.stmt c.method c.var

/-- The session after one call after another. -/
def run (s : Session) (calls : List Call) : Session := calls.foldl (fun s c => (s.reply c).session) s

theorem run_append (s : Session) (calls more : List Call) : s.run (calls ++ more) = (s.run calls).run more :=
  List.foldl_append

/-- What survives each call survives them all. -/
theorem run_induction {P : Session → Prop} {calls : List Call} {s : Session} (hs : P s)
    (hreply : ∀ s, ∀ c ∈ calls, P s → P (s.reply c).session) : P (s.run calls) := by
  induction calls generalizing s with
  | nil => exact hs
  | cons c calls ih =>
    exact ih (hreply s c List.mem_cons_self hs) fun s d hd => hreply s d (List.mem_cons_of_mem _ hd)

/-! ## What a call can do -/

/-- A lookup that hits leaves the cache as its `get` does, and counts the hit. -/
theorem lookup_eq_some {s s' : Session} {q : Query} {aliases : AliasSet}
    (h : s.lookup q = some (aliases, s')) :
    ∃ c c', s.cache = some c ∧ c.get q = (some aliases, c') ∧
      s' = { s with cache := some c', counters := { s.counters with hits := s.counters.hits + 1 } } := by
  unfold lookup at h
  split at h
  · cases h
  · rename_i c hc
    split at h
    · rename_i aliases' c' hget
      cases h
      exact ⟨c, c', hc, hget, rfl⟩
    · cases h

inductive Replied (s : Session) (c : Call) : Reply → Prop
  | disabled (hd : s.disabled = true) : Replied s c { result := .ok .empty, session := s }
  | noQuery (hd : s.disabled = false) (hq : c.query? = none) :
      Replied s c { result := .error (.noSuccessor c.stmt c.method), session := s }
  | hit {q : Query} {aliases : AliasSet} {s' : Session} (hd : s.disabled = false)
      (hq : c.query? = some q) (hl : s.lookup q = some (aliases, s')) :
      Replied s c
        { result := .ok aliases
          session := s'.count q c.oracle.callTime
          notices := [.answered s.strategy q true aliases.size] }
  | failed {q : Query} {e : OracleError} (hd : s.disabled = false)
      (hq : c.query? = some q) (hl : s.lookup q = none)
      (he : c.oracle.solve (s.ask q) = .error e) :
      Replied s c { result := .error (.oracle e), session := s, asked := some (s.ask q) }
  | solved {q : Query} {a : Answer} (hd : s.disabled = false)
      (hq : c.query? = some q) (hl : s.lookup q = none)
      (ha : c.oracle.solve (s.ask q) = .ok a) :
      Replied s c
        { result := .ok a.aliases
          session := (s.learn q a).count q (c.oracle.callTime + c.oracle.solveTime)
          asked := some (s.ask q)
          notices := [.answered s.strategy q false a.aliases.size] }

theorem replied (s : Session) (c : Call) : Replied s c (s.reply c) := by
  unfold reply getAliases
  by_cases hd : s.disabled = true
  · rw [if_pos hd]
    exact .disabled hd
  · rw [if_neg hd]
    have hd : s.disabled = false := Bool.eq_false_iff.mpr hd
    rw [← Call.query?]
    cases hq : c.query? with
    | none => exact .noQuery hd hq
    | some q =>
      simp only [answer]
      cases hl : s.lookup q with
      | some hit => exact .hit hd hq hl
      | none =>
        cases hs : c.oracle.solve (s.ask q) with
        | error e => exact .failed hd hq hl hs
        | ok a => exact .solved hd hq hl hs

/-! ## What no call changes -/

/-- The same strategy under the same configuration. -/
structure Kept (s t : Session) : Prop where
  strategy : t.strategy = s.strategy
  options : t.options = s.options
  disabled : t.disabled = s.disabled
  caching : t.isCaching = s.isCaching

theorem Kept.refl (s : Session) : Kept s s := ⟨rfl, rfl, rfl, rfl⟩

theorem Kept.trans {s t u : Session} (h : Kept s t) (h' : Kept t u) : Kept s u :=
  ⟨h'.strategy.trans h.strategy, h'.options.trans h.options, h'.disabled.trans h.disabled,
    h'.caching.trans h.caching⟩

theorem reply_kept (s : Session) (c : Call) : Kept s (s.reply c).session := by
  have h := s.replied c
  generalize s.reply c = r at h ⊢
  cases h with
  | disabled hd => exact .refl s
  | noQuery hd hq => exact .refl s
  | hit hd hq hl =>
    obtain ⟨cache, cache', hc, -, rfl⟩ := lookup_eq_some hl
    exact ⟨rfl, rfl, rfl, by simp [isCaching, count, hc]⟩
  | failed hd hq hl he => exact .refl s
  | solved hd hq hl ha => exact ⟨rfl, rfl, rfl, by simp [isCaching, count, learn]⟩

theorem run_kept (s : Session) (calls : List Call) : Kept s (s.run calls) := by
  induction calls generalizing s with
  | nil => exact .refl s
  | cons c calls ih => exact (s.reply_kept c).trans (ih _)

theorem run_start_strategy (strategy : Sparsification) (config : Config) (calls : List Call) :
    ((start strategy config).run calls).strategy = strategy :=
  (run_kept _ calls).strategy

theorem run_start_caching (strategy : Sparsification) (config : Config) (calls : List Call) :
    ((start strategy config).run calls).isCaching = config.caching := by
  rw [(run_kept _ calls).caching, isCaching, start]
  cases config.caching <;> rfl

end Session

end TaintAlias
