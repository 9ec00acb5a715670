/-
  TaintAlias.QueryCache — answers already given, least recently used out first.

  Entries are kept most recent first. A lookup that hits and an insertion move their
  query to the front; a lookup that misses changes nothing; an insertion beyond the
  capacity drops the last entry. In use a library's cache does this; what is relied on of
  it is stated with the proofs (`Lru.Lawful`), and makes it a list like this one.
-/

import TaintAlias.AliasSet
import TaintAlias.Query

namespace TaintAlias

structure QueryCache where
  /-- None is unbounded. -/
  capacity : Option Nat
  /-- Most recent first. -/
  entries : List (Query × AliasSet)

namespace QueryCache

/-- An empty cache; without a capacity, or with capacity zero, it is unbounded. -/
def ofCapacity (capacity : Option UInt64) : QueryCache :=
  ⟨(capacity.map UInt64.toNat).filter (· ≠ 0), []⟩

def size (c : QueryCache) : Nat := c.entries.length

def isEmpty (c : QueryCache) : Bool := c.entries.isEmpty

/-- The queries held, most recent first. -/
def queries (c : QueryCache) : List Query := c.entries.map (·.1)

def find? (c : QueryCache) (q : Query) : Option AliasSet := c.entries.lookup q

/-- The entries at most `n` long, if there is a bound `n`. -/
def cut (n : Option Nat) (entries : List (Query × AliasSet)) : List (Query × AliasSet) :=
  match n with
  | some n => entries.take n
  | none => entries

/-- `q` moved or added to the front with `aliases`. -/
def insert (c : QueryCache) (q : Query) (aliases : AliasSet) : QueryCache :=
  { c with entries := cut c.capacity ((q, aliases) :: c.entries.filter (·.1 ≠ q)) }

/-- Look `q` up; a hit makes it the most recent. -/
def get (c : QueryCache) (q : Query) : Option AliasSet × QueryCache :=
  match c.find? q with
  | some aliases => (some aliases, { c with entries := (q, aliases) :: c.entries.filter (·.1 ≠ q) })
  | none => (none, c)

def clear (c : QueryCache) : QueryCache := { c with entries := [] }

end QueryCache

end TaintAlias
