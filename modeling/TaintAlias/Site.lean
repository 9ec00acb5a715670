/-
  TaintAlias.Site — where new aliases can appear, and what they taint.

  A newly derived fact can have new aliases at a field write (any statement that is not
  a call) and, if return sites are handled, at a call. At a field write the aliases of
  the fact's base are queried and extended by all its fields; at a return site by all
  but the last and then by the last, which belongs to the caller's view. Aliases rooted
  at the base itself are left out, aliases without counterpart in the engine are
  dropped, and all others become facts derived from the given one.

  `classify` holds the decision. A call is a dialogue with the manager, and the only way
  for it to reach a session is to query one; what it asks is part of its outcome.
-/

import TaintAlias.CallContexts
import TaintAlias.Config.Preset
import TaintAlias.FactSet
import TaintAlias.Manager

namespace TaintAlias

/-! ## Dialogues with a manager -/

/-- A query, and the strategy whose session is to answer it. -/
structure SessionQuery where
  strategy : Sparsification
  stmt : Stmt
  method : Method
  var : Variable
  deriving DecidableEq, Repr

/-- What a call says and asks on the way to its end. It has no other hold on a manager than
    its queries. -/
inductive Dialogue where
  | done (result : Except AliasError Unit) (set : FactSet)
  | report (notices : List Notice) (next : Dialogue)
  | query (q : SessionQuery) (next : Except AliasError AliasSet → Dialogue)

/-- What a call returns, and what it leaves behind. -/
structure Outcome where
  result : Except AliasError Unit
  set : FactSet
  manager : Manager
  /-- What the manager's sessions were asked, in order. -/
  queries : List SessionQuery := []
  /-- What of that reached the oracle. -/
  asks : List Ask := []
  notices : List Notice := []

/-- The question that reached the oracle, if one did. -/
def Outcome.asked (o : Outcome) : Option Ask := o.asks.head?

/-- A dialogue with `m`. -/
def Dialogue.play (oracle : Oracle) (m : Manager) : Dialogue → Outcome
  | .done result set => { result, set, manager := m }
  | .report notices next =>
    let o := next.play oracle m
    { o with notices := notices ++ o.notices }
  | .query q next =>
    let r := m.getAliases oracle q.strategy q.stmt q.method q.var
    let o := (next r.result).play oracle r.manager
    { o with queries := q :: o.queries, asks := r.asked.toList ++ o.asks, notices := r.notices ++ o.notices }

/-! ## Alias sites -/

structure Site where
  strategy : Sparsification
  returnSites : ReturnSites
  ignored : List String
  /-- The most fields a derived fact may have. -/
  pathLength : UInt64
  contexts : CallContexts := .empty

/-- What a fact at a statement calls for. -/
inductive SiteKind where
  | ignoredMethod (method : Method)
  /-- The fact has no base. -/
  | rootless
  /-- A call, and return sites are not handled. -/
  | callSkipped
  /-- A return site, and the fact has no field. -/
  | noTrailingField
  /-- A return site, and the fact is the one the caller's context starts from. -/
  | ownContext
  | fieldWrite (base : Variable)
  | returnSite (base : Variable) (front : List Field) (last : Field)
  deriving DecidableEq, Repr

namespace Site

def ofConfig (c : Config) : Site :=
  { strategy := c.strategy, returnSites := c.returnSites, ignored := c.ignored,
    pathLength := c.pathLength }

/-- As the manager is configured. -/
def ofManager (m : Manager) : Site := ofConfig m.config

/-- As the baseline preset, with the manager's field limit. -/
def baseline (m : Manager) : Site :=
  ofConfig { Preset.baseline.config with pathLength := m.config.pathLength }

/-- As the alias-aware preset, with the manager's field limit. -/
def aliasAware (m : Manager) : Site :=
  ofConfig { Preset.aliasAware.config with pathLength := m.config.pathLength }

/-- Replace the ignored fragments; blank ones are dropped, they would match every
    signature. -/
def withIgnored (s : Site) (fragments : List String) : Site :=
  { s with ignored := fragments.filter fun f => !Text.isBlank f }

/-- The host engine may rely on both. -/
def isFlowSensitive (_ : Site) : Bool := true
def needsAnalysisOnReturn (_ : Site) : Bool := true

/-- `needle` occurs in `hay` as a contiguous part. -/
def occursIn (needle : List Char) : List Char → Bool
  | [] => needle.isEmpty
  | c :: rest => needle.isPrefixOf (c :: rest) || occursIn needle rest

def ignores (s : Site) (signature : String) : Bool :=
  s.ignored.any fun f => occursIn f.toList signature.toList

def classify (s : Site) (program : Program) (context : Fact) (stmt : Stmt) (fact : Fact) : SiteKind :=
  let method := program.methodOf stmt
  if s.ignores (program.signature method) then .ignoredMethod method
  else
    match fact.path.base with
    | none => .rootless
    | some base =>
      if program.isCall stmt then
        if s.returnSites.handled then
          match fact.path.fields.getLast? with
          | none => .noTrailingField
          | some last =>
            if context.Same fact then .ownContext
            else .returnSite base fact.path.fields.dropLast last
        else .callSkipped
      else .fieldWrite base

/-- The aliases of `base` other than itself, each extended by `suffixes` in turn. -/
def extended (base : Variable) (suffixes : List (List Field)) (aliases : AliasSet) : List OraclePath :=
  (aliases.without base).paths.map fun p => suffixes.foldl OraclePath.append p

/-- Insert the fact derived from `fact` for every path that translates. -/
def spread (k : Nat) (stmt : Stmt) (fact : Fact) (paths : List OraclePath) (set : FactSet) : FactSet :=
  paths.foldl (fun set p =>
    match p.toEngine k with
    | .ok e => set.insert (.derived fact e stmt)
    | .error _ => set) set

/-- A notice for every path that does not translate. -/
def dropped (k : Nat) (stmt : Stmt) (paths : List OraclePath) : List Notice :=
  paths.filterMap fun p =>
    match p.toEngine k with
    | .ok _ => none
    | .error e => some (.aliasDropped stmt p e)

/-- Query the aliases of `base` at `stmt` and taint what they reach. -/
def inquire (s : Site) (program : Program) (stmt : Stmt) (base : Variable) (suffixes : List (List Field))
    (fact : Fact) (set : FactSet) : Dialogue :=
  .query ⟨s.strategy, stmt, program.methodOf stmt, base⟩ fun
    | .error e => .done (.error e) set
    | .ok aliases =>
      let paths := extended base suffixes aliases
      let k := s.pathLength.toNat
      .report (dropped k stmt paths) (.done (.ok ()) (spread k stmt fact paths set))

/-- Add the taints of the aliases of `fact` at `stmt` to `set`. `context` is the fact the
    caller's context starts from; `target` and `method` are only reported. -/
def dialogue (s : Site) (program : Program) (context : Fact) (stmt : Stmt) (target : Option Variable)
    (set : FactSet) (method : Method) (fact : Fact) : Dialogue :=
  let still : Dialogue := .done (.ok ()) set
  let examined : Notice := .examined stmt method target fact
  match s.classify program context stmt fact with
  | .ignoredMethod enclosing => .report [.ignoredMethod stmt enclosing] still
  | .rootless => still
  | .callSkipped | .ownContext => .report [examined] still
  | .noTrailingField => .report [examined, .noTrailingField stmt fact] still
  | .fieldWrite base => .report [examined] (s.inquire program stmt base [fact.path.fields] fact set)
  | .returnSite base front last => .report [examined] (s.inquire program stmt base [front, [last]] fact set)

/-- The dialogue of a call with `m`. -/
def taint (s : Site) (m : Manager) (oracle : Oracle) (context : Fact) (stmt : Stmt)
    (target : Option Variable) (set : FactSet) (method : Method) (fact : Fact) : Outcome :=
  (s.dialogue m.program context stmt target set method fact).play oracle m

/-- `fact` entered `callee` from `site`, where the caller's context starts from `context`. -/
def enter (s : Site) (fact : Fact) (callee : Method) (site : Stmt) (context : Fact) : Site :=
  { s with contexts := s.contexts.record callee fact site context }

end Site

end TaintAlias
