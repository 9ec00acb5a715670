/-
  TaintAlias.Number.Digits — naturals as digits of a base.

  The digits above nine are letters of either case.
-/

namespace TaintAlias

def digit? (c : Char) : Option Nat :=
  let n := c.toNat
  if 48 ≤ n && n ≤ 57 then some (n - 48)
  else if 65 ≤ n && n ≤ 70 then some (n - 55)
  else if 97 ≤ n && n ≤ 102 then some (n - 87)
  else none

/-- The number that digits of a base below 17 write, after `acc`. -/
def numberFrom? (base : Nat) (acc : Nat) : List Char → Option Nat
  | [] => some acc
  | c :: cs =>
    match digit? c with
    | some d => if d < base then numberFrom? base (acc * base + d) cs else none
    | none => none

/-- The number that at least one digit writes. -/
def number? (base : Nat) : List Char → Option Nat
  | [] => none
  | cs => numberFrom? base 0 cs

/-- The number that the first `n` characters write in hexadecimal. -/
def hexValue? (cs : List Char) (n : Nat) : Option Nat :=
  let ds := cs.take n
  if ds.length = n then number? 16 ds else none

example : number? 2 "101".toList = some 5 ∧ number? 8 "8".toList = none ∧ number? 10 [] = none := by
  decide
example : hexValue? "fFz".toList 2 = some 255 ∧ hexValue? "ff".toList 3 = none := by decide

end TaintAlias
