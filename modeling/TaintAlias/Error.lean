/-
  TaintAlias.Error — what can go wrong in the alias stage.

  A query that cannot be built and an oracle that fails end the call that needed them;
  a bad configuration ends the set-up. A path that does not translate is no error.
-/

import TaintAlias.Config.Error
import TaintAlias.Oracle

namespace TaintAlias

inductive AliasError where
  /-- A statement without successor cannot be queried. -/
  | noSuccessor (stmt : Stmt) (method : Method)
  | oracle (e : OracleError)
  | config (e : ConfigError)
  deriving DecidableEq, Repr

def AliasError.message : AliasError → String
  | .noSuccessor stmt method =>
    "No successors for statement " ++ stmt.text ++ " in method " ++ method.text ++
    "; cannot build alias query"
  | .oracle e => e.message
  | .config e => "Configuration error: " ++ e.message

end TaintAlias
