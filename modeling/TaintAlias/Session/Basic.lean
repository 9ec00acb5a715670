/-
  TaintAlias.Session.Basic — the queries of one strategy.

  A session owns a cache (if the configuration asks for one), its counters and a count
  per query text. `getAliases` answers from the cache or asks the oracle once; a call
  that fails leaves the session as it was, and a disabled session answers everything
  with the empty set and records nothing.
-/

import TaintAlias.Config.Basic
import TaintAlias.Error
import TaintAlias.Notice
import TaintAlias.QueryCache
import TaintAlias.Session.Counters

namespace TaintAlias

structure Session where
  strategy : Sparsification
  options : SolverOptions
  disabled : Bool
  cache : Option QueryCache
  /-- How often each query text was answered. -/
  counts : List (String × Nat)
  counters : Counters

namespace Session

/-- A session that has done nothing yet. -/
def start (strategy : Sparsification) (config : Config) : Session where
  strategy
  options := {}
  disabled := config.disabled
  cache := if config.caching then some (.ofCapacity config.capacity) else none
  counts := []
  counters := {}

def isCaching (s : Session) : Bool := s.cache.isSome

def queryCount (s : Session) (text : String) : Nat := (s.counts.lookup text).getD 0

/-- What a call returns, and what it leaves behind. -/
structure Reply where
  result : Except AliasError AliasSet
  session : Session
  /-- The question that reached the oracle, if one did. -/
  asked : Option Ask := none
  notices : List Notice := []

/-- One more under `text`. -/
def bump (text : String) : List (String × Nat) → List (String × Nat)
  | [] => [(text, 1)]
  | (t, n) :: rest => if t = text then (t, n + 1) :: rest else (t, n) :: bump text rest

/-- `q` was answered after `nanos` nanoseconds. -/
def count (s : Session) (q : Query) (nanos : Nat) : Session :=
  let counts := bump q.text s.counts
  { s with
    counts
    counters := { s.counters with
      time := s.counters.time + nanos
      distinct := counts.length
      invocations := s.counters.invocations + 1 } }

/-- The cached answer to `q`, and the session after the hit. -/
def lookup (s : Session) (q : Query) : Option (AliasSet × Session) :=
  match s.cache with
  | none => none
  | some cache =>
    match cache.get q with
    | (some aliases, cache) =>
      some (aliases, { s with
        cache := some cache
        counters := { s.counters with hits := s.counters.hits + 1 } })
    | (none, _) => none

/-- The oracle answered `q` with `a`. -/
def learn (s : Session) (q : Query) (a : Answer) : Session :=
  { s with
    cache := s.cache.map (·.insert q a.aliases)
    counters := { s.counters with
      solves := s.counters.solves + 1
      forward := s.counters.forward + a.forward
      backward := s.counters.backward + a.backward
      misses := s.counters.misses + (if s.isCaching then 1 else 0) } }

/-- The question a session of this strategy asks for `q`. -/
def ask (s : Session) (q : Query) : Ask := ⟨s.strategy, s.options, q⟩

/-- The answer to `q`, from the cache or from the oracle. -/
def answer (s : Session) (oracle : Oracle) (q : Query) : Reply :=
  match s.lookup q with
  | some (aliases, s') =>
    { result := .ok aliases
      session := s'.count q oracle.callTime
      notices := [.answered s.strategy q true aliases.size] }
  | none =>
    match oracle.solve (s.ask q) with
    | .error e => { result := .error (.oracle e), session := s, asked := some (s.ask q) }
    | .ok a =>
      { result := .ok a.aliases
        session := (s.learn q a).count q (oracle.callTime + oracle.solveTime)
        asked := some (s.ask q)
        notices := [.answered s.strategy q false a.aliases.size] }

/-- The aliases of `v` right after `stmt` in `method`, `v` itself included if the oracle
    reports it. -/
def getAliases (s : Session) (program : Program) (oracle : Oracle) (stmt : Stmt) (method : Method)
    (v : Variable) : Reply :=
  if s.disabled then { result := .ok .empty, session := s }
  else
    match Query.build? program stmt method v with
    | none => { result := .error (.noSuccessor stmt method), session := s }
    | some q => s.answer oracle q

/-- A failed call changes nothing. -/
theorem session_of_error {s : Session} {program : Program} {oracle : Oracle} {stmt : Stmt}
    {method : Method} {v : Variable} {e : AliasError}
    (h : (s.getAliases program oracle stmt method v).result = .error e) :
    (s.getAliases program oracle stmt method v).session = s := by
  unfold getAliases at h ⊢
  split
  · rfl
  · rename_i hd
    rw [if_neg hd] at h
    split at h
    · rfl
    · unfold answer at h ⊢
      split at h
      · cases h
      · split at h
        · simp
        · cases h

end Session

end TaintAlias
