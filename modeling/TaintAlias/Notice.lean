/-
  TaintAlias.Notice — what the alias stage reports while it works.

  Every step returns its notices in order; a notice has a level, a message and named
  fields, all texts.
-/

import TaintAlias.Fact
import TaintAlias.Path.Translate
import TaintAlias.Query
import TaintAlias.Strategy

namespace TaintAlias

inductive Notice where
  | managerReady (strategy : Sparsification) (caching disabled : Bool)
  | sessionReplaced (old new : Sparsification) (discarded : Nat)
  | sessionCreated (strategy : Sparsification)
  | answered (strategy : Sparsification) (query : Query) (hit : Bool) (aliases : Nat)
  | ignoredMethod (stmt : Stmt) (method : Method)
  /-- A fact at a statement, with the method and target named by the caller. -/
  | examined (stmt : Stmt) (method : Method) (target : Option Variable) (fact : Fact)
  | noTrailingField (stmt : Stmt) (fact : Fact)
  | aliasDropped (stmt : Stmt) (path : OraclePath) (cause : Untranslatable)

namespace Notice

def level : Notice → String
  | managerReady .. | sessionCreated .. => "INFO"
  | sessionReplaced .. => "WARN"
  | answered .. => "DEBUG"
  | ignoredMethod .. | examined .. | noTrailingField .. | aliasDropped .. => "TRACE"

def message : Notice → String
  | managerReady .. => "sparse_alias_manager_initialized"
  | sessionReplaced .. => "alias session replaced; cache and counters discarded"
  | sessionCreated .. => "alias session created"
  | answered .. => "alias query"
  | ignoredMethod .. => "ignored method"
  | examined .. => "compute alias taints"
  | noTrailingField .. => "return site without trailing field"
  | aliasDropped .. => "alias dropped"

def boolText (b : Bool) : String := if b then "true" else "false"

def targetText : Option Variable → String
  | some v => "Some(Variable(" ++ idText v.id ++ "))"
  | none => "None"

def fields : Notice → List (String × String)
  | managerReady strategy caching disabled =>
    [("strategy", strategy.name), ("query_cache", boolText caching),
     ("disable_aliasing", boolText disabled)]
  | sessionReplaced old new discarded =>
    [("from", old.name), ("to", new.name), ("discarded_queries", toString discarded)]
  | sessionCreated strategy => [("strategy", strategy.name)]
  | answered strategy query hit aliases =>
    [("strategy", strategy.name), ("query", query.text), ("cache_hit", boolText hit),
     ("aliases", toString aliases)]
  | ignoredMethod stmt method => [("stmt", stmt.text), ("method", method.text)]
  | examined stmt method target fact =>
    [("stmt", stmt.text), ("caller_method", method.text), ("target", targetText target),
     ("abs", fact.text)]
  | noTrailingField stmt fact => [("stmt", stmt.text), ("abs", fact.text)]
  | aliasDropped stmt path cause =>
    [("stmt", stmt.text), ("alias", path.text), ("error", cause.message)]

end Notice

end TaintAlias
