/-
  TaintAlias.Number.Power — the powers numbers are made of.
-/

namespace TaintAlias

/-- `2^n`. -/
def twoTo (n : Nat) : Nat := Nat.pow 2 n

/-- `10^n`. -/
def tenTo (n : Nat) : Nat := Nat.pow 10 n

example : twoTo 10 = 1024 ∧ tenTo 3 = 1000 := by decide

end TaintAlias
