/-
  TaintAlias.Program — the program under analysis, seen from the alias stage.

  Methods, statements, variables and fields are opaque 32-bit handles, compared by
  identity. Each kind has a one-letter text (`m3`, `s7`, `v1`, `f2`) that every longer
  rendering of the library is put together from. A program answers four questions
  about its statements and methods; nothing else of it is visible here.
-/

namespace TaintAlias

structure Method where
  id : UInt32
  deriving DecidableEq, Repr, Inhabited

structure Stmt where
  id : UInt32
  deriving DecidableEq, Repr, Inhabited

/-- A local variable or parameter. -/
structure Variable where
  id : UInt32
  deriving DecidableEq, Repr, Inhabited

structure Field where
  id : UInt32
  deriving DecidableEq, Repr, Inhabited

/-- The decimal text of a handle's number. -/
def idText (id : UInt32) : String := toString id.toNat

def Method.text (m : Method) : String := "m" ++ idText m.id
def Stmt.text (s : Stmt) : String := "s" ++ idText s.id
def Variable.text (v : Variable) : String := "v" ++ idText v.id
def Field.text (f : Field) : String := "f" ++ idText f.id

structure Program where
  /-- The method a statement belongs to. -/
  methodOf : Stmt → Method
  /-- Control-flow successors inside the method, first branch first. -/
  successors : Stmt → List Stmt
  isCall : Stmt → Bool
  /-- The full signature, such as `<Foo: boolean equals(java.lang.Object)>`. -/
  signature : Method → String

end TaintAlias
