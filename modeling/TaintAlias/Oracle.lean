/-
  TaintAlias.Oracle — the pointer analysis behind the alias stage.

  A solver is created for one question (`Ask`): a query under a strategy with fixed
  options. `Oracle` is what the analysis does during one call: its reply to a question,
  and how long things take. An analysis that remembers is a different `Oracle` at each
  call, so a function is enough.
-/

import TaintAlias.AliasSet
import TaintAlias.Query
import TaintAlias.Strategy

namespace TaintAlias

/-- How the oracle treats static fields. -/
inductive StaticFields where
  | flowSensitive
  | flowInsensitive
  | ignore
  deriving DecidableEq, Repr

namespace StaticFields

def name : StaticFields → String
  | flowSensitive => "flow_sensitive"
  | flowInsensitive => "flow_insensitive"
  | ignore => "ignore"

instance : Choice StaticFields := ⟨[flowSensitive, flowInsensitive, ignore], name⟩

end StaticFields

/-- What every solver is created with. -/
structure SolverOptions where
  /-- Milliseconds per query; none is no limit. -/
  timeout : Option UInt64 := none
  staticFields : StaticFields := .flowSensitive
  /-- One solver may answer several queries. -/
  multipleQueries : Bool := true
  /-- Follow values through exceptional control flow. -/
  throwFlows : Bool := true
  throwableSubclasses : Bool := true
  /-- Constructor calls propagate like any other call. -/
  plainSpecialInvoke : Bool := true
  /-- Build the call graph on the fly. -/
  ownCallGraph : Bool := false
  deriving DecidableEq, Repr

/-- The reply to a query. -/
structure Answer where
  aliases : AliasSet := .empty
  /-- Propagations made forward, and backward. -/
  forward : UInt64 := 0
  backward : UInt64 := 0

/-- A failed analysis: the text of the query, and what went wrong. -/
structure OracleError where
  query : String
  text : String
  deriving DecidableEq, Repr

def OracleError.ofQuery (q : Query) (text : String) : OracleError := ⟨q.text, text⟩

def OracleError.message (e : OracleError) : String :=
  "Pointer analysis failed for " ++ e.query ++ ": " ++ e.text

/-- One question to a fresh solver. -/
structure Ask where
  strategy : Sparsification
  options : SolverOptions
  query : Query
  deriving DecidableEq, Repr

structure Oracle where
  solve : Ask → Except OracleError Answer
  /-- Nanoseconds one solve takes. -/
  solveTime : Nat := 0
  /-- Nanoseconds a query takes beside its solve. -/
  callTime : Nat := 1

end TaintAlias
