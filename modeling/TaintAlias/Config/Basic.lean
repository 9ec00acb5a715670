/-
  TaintAlias.Config.Basic — the configuration of the alias stage.

  Every field but the treatment of return sites has a default. `validate` holds the
  rules between the fields, first violation first: the field limit of paths lies in
  1..=64, a cache capacity is not zero and needs the cache, and no ignored signature
  fragment is blank, since a blank one would match every method.
-/

import TaintAlias.Config.Error
import TaintAlias.Strategy
import TaintAlias.Text.Blank

namespace TaintAlias

structure Config where
  strategy : Sparsification := .none
  returnSites : ReturnSites
  /-- Answer every query with the empty set. -/
  disabled : Bool := false
  /-- Remember the oracle's answers. -/
  caching : Bool := false
  /-- None is unbounded. -/
  capacity : Option UInt64 := none
  /-- Signature fragments of methods whose statements are never queried. -/
  ignored : List String := ["int hashCode()", "boolean equals(java.lang.Object)"]
  /-- The most fields a path of the engine may have. -/
  pathLength : UInt64 := 5
  deriving DecidableEq, Repr

namespace Config

def maxPathLength : UInt64 := 64

def validate (c : Config) : Except ConfigError Unit :=
  if c.pathLength = 0 ∨ c.pathLength > maxPathLength then
    .error (.range "access_path_length" (toString c.pathLength.toNat) "1" (toString maxPathLength.toNat)
      "Access paths need at least one field slot")
  else if c.capacity = some 0 then
    .error (.range "query_cache_capacity" "0" "1" (toString (UInt64.size - 1))
      "Omit the field for an unbounded cache")
  else if c.capacity ≠ none ∧ c.caching = false then
    .error (.invalid "query_cache_capacity is set but query_cache is disabled")
  else if c.ignored.any Text.isBlank then
    .error (.invalid "ignored_methods must not contain empty signatures")
  else .ok ()

end Config

end TaintAlias
