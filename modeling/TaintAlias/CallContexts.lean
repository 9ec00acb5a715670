/-
  TaintAlias.CallContexts — who called a method with which fact.

  A multimap from a callee and the fact that enters it to the call sites and caller
  facts it entered from. Facts are compared up to provenance, on both sides; of equal
  contexts the first recorded one stays.
-/

import TaintAlias.Fact

namespace TaintAlias

/-- A call site and the fact on the caller's side. -/
structure CallContext where
  site : Stmt
  fact : Fact
  deriving Repr

namespace CallContext

def Same (a b : CallContext) : Prop := a.site = b.site ∧ a.fact.Same b.fact

instance (a b : CallContext) : Decidable (Same a b) := inferInstanceAs (Decidable (_ ∧ _))

end CallContext

/-- A callee and the fact that enters it. -/
structure Entry where
  callee : Method
  fact : Fact
  deriving Repr

namespace Entry

def Same (a b : Entry) : Prop := a.callee = b.callee ∧ a.fact.Same b.fact

instance (a b : Entry) : Decidable (Same a b) := inferInstanceAs (Decidable (_ ∧ _))

end Entry

structure CallContexts where
  entries : List (Entry × List CallContext)
  deriving Repr

namespace CallContexts

def empty : CallContexts := ⟨[]⟩

/-- `ctx` added at the end, unless the same context is there. -/
def addContext (ctxs : List CallContext) (ctx : CallContext) : List CallContext :=
  if ctxs.any fun c => decide (c.Same ctx) then ctxs else ctxs ++ [ctx]

/-- `ctx` added under `entry` in `entries`. -/
def addTo (entry : Entry) (ctx : CallContext) :
    List (Entry × List CallContext) → List (Entry × List CallContext)
  | [] => [(entry, [ctx])]
  | (e, ctxs) :: rest =>
    if e.Same entry then (e, addContext ctxs ctx) :: rest
    else (e, ctxs) :: addTo entry ctx rest

def record (c : CallContexts) (callee : Method) (fact : Fact) (site : Stmt) (caller : Fact) :
    CallContexts :=
  ⟨addTo ⟨callee, fact⟩ ⟨site, caller⟩ c.entries⟩

/-- The contexts recorded for `callee` entered with `fact`. -/
def callersOf (c : CallContexts) (callee : Method) (fact : Fact) : List CallContext :=
  match c.entries.find? fun e => decide (e.1.Same ⟨callee, fact⟩) with
  | some (_, ctxs) => ctxs
  | none => []

/-- How many pairs of callee and fact have contexts. -/
def size (c : CallContexts) : Nat := c.entries.length

def isEmpty (c : CallContexts) : Bool := c.entries.isEmpty

def clear (_ : CallContexts) : CallContexts := empty

end CallContexts

end TaintAlias
