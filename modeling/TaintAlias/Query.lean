/-
  TaintAlias.Query — a backward alias query.

  A query asks which paths may alias a variable on the control-flow edge from a
  statement to its successor. The edge is the first one: aliasing is evaluated at the
  program point, not on a branch. A statement without successor has no query.
-/

import TaintAlias.Program

namespace TaintAlias

structure Query where
  method : Method
  stmt : Stmt
  successor : Stmt
  var : Variable
  deriving DecidableEq, Repr

namespace Query

/-- The text queries are counted by. -/
def text (q : Query) : String :=
  "BackwardQuery(" ++ q.var.text ++ " @ " ++ q.method.text ++ ":" ++ q.stmt.text ++
  " -> " ++ q.successor.text ++ ")"

/-- The query on the first edge leaving `stmt`. -/
def build? (program : Program) (stmt : Stmt) (method : Method) (v : Variable) : Option Query :=
  match program.successors stmt with
  | successor :: _ => some ⟨method, stmt, successor, v⟩
  | [] => none

end Query

end TaintAlias
