/-
  TaintAlias.Report — the numbers of one evaluation run.

  Session numbers come from the live session if it belongs to the reported strategy and
  are zero otherwise. The log of building sparse graphs is only consulted for sparse
  strategies; its time is summed before it is rounded down to milliseconds.
-/

import TaintAlias.Manager

namespace TaintAlias

/-- One sparse graph, built or found. -/
structure BuildLog where
  micros : UInt64
  /-- The graph came from the oracle's cache. -/
  found : Bool
  deriving DecidableEq, Repr

/-- Microseconds spent on all graphs together, in 64 bits. -/
def BuildLog.total : List BuildLog → UInt64
  | [] => 0
  | l :: rest => l.micros + total rest

structure Report where
  target : String
  strategy : Sparsification
  queryMillis : Nat
  buildMillis : UInt64
  propagations : UInt64
  found : Nat
  built : Nat
  deriving DecidableEq, Repr

namespace Report

/-- The strategies whose log a report on `strategy` consults. -/
def consulted (strategy : Sparsification) : List Sparsification :=
  if strategy.isSparse then [strategy] else []

def collect (target : String) (strategy : Sparsification) (m : Manager)
    (logs : Sparsification → List BuildLog) : Report :=
  let counters := (m.countersFor? strategy).getD {}
  let entries := (consulted strategy).flatMap logs
  { target
    strategy
    queryMillis := counters.time / 1000000
    buildMillis := BuildLog.total entries / 1000
    propagations := counters.propagations
    found := entries.countP (·.found)
    built := entries.countP (!·.found) }

def toJson (r : Report) : Json :=
  .object [
    ("target_program", .text r.target),
    ("sparsification_strategy", .text r.strategy.name),
    ("total_alias_query_time_ms", .integer r.queryMillis),
    ("sparse_cfg_build_time_ms", .integer r.buildMillis.toNat),
    ("total_propagation_count", .integer r.propagations.toNat),
    ("cache_hit_count", .integer r.found),
    ("cache_miss_count", .integer r.built)]

end Report

end TaintAlias
