/-
  TaintAlias.Session.Counters — what a session has done so far.

  Only successful calls are counted, and only the oracle's own solves add propagations.
  Calls are counted one by one, and no run is long enough to leave 64 bits. Propagations
  are reported by the oracle, in any number: their sums wrap around at `2 ^ 64`. The hit
  rate is a double: both counts are rounded to doubles before they are divided.
-/

import TaintAlias.Json.Value

namespace TaintAlias

structure Counters where
  /-- Nanoseconds spent in successful calls. -/
  time : Nat := 0
  /-- Different queries answered. -/
  distinct : Nat := 0
  /-- Calls answered. -/
  invocations : Nat := 0
  /-- Solves of the oracle. -/
  solves : Nat := 0
  hits : Nat := 0
  misses : Nat := 0
  forward : UInt64 := 0
  backward : UInt64 := 0
  deriving DecidableEq, Repr

namespace Counters

def propagations (c : Counters) : UInt64 := c.forward + c.backward

/-- Hits among all lookups; zero without lookups. -/
def hitRate (c : Counters) : Binary64 :=
  if c.hits + c.misses = 0 then Binary64.zero false
  else Binary64.div (Binary64.ofNat c.hits) (Binary64.ofNat (c.hits + c.misses))

/-- Seconds and remaining nanoseconds. -/
def timeJson (nanos : Nat) : Json :=
  .object [("secs", .integer (nanos / 1000000000 : Nat)), ("nanos", .integer (nanos % 1000000000 : Nat))]

def toJson (c : Counters) : Json :=
  .object [
    ("total_query_duration", timeJson c.time),
    ("distinct_query_count", .integer c.distinct),
    ("total_query_invocation_count", .integer c.invocations),
    ("oracle_invocation_count", .integer c.solves),
    ("cache_hit_count", .integer c.hits),
    ("cache_miss_count", .integer c.misses),
    ("forward_propagation_count", .integer c.forward.toNat),
    ("backward_propagation_count", .integer c.backward.toNat)]

end Counters

end TaintAlias
