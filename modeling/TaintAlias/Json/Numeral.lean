/-
  TaintAlias.Json.Numeral — numbers as JSON text writes them.

  A numeral without a point and an exponent is an integer if 64 bits hold it. Any other
  is a double, and not always the nearest one: the first digits, as many as 64 bits hold,
  are rounded, and the result is multiplied or divided by a power of ten, which rounds
  again. What no double comes near has no value.
-/

import TaintAlias.Json.Value

namespace TaintAlias.Json

structure Numeral where
  neg : Bool
  /-- The digits before the point. -/
  whole : List Nat
  /-- The digits after it. -/
  part : List Nat
  exp : Option Int
  deriving DecidableEq, Repr

/-- A number continued by digits while 64 bits hold it, and the count of digits left. -/
def takeDigits (acc : Nat) : List Nat → Nat × Nat
  | [] => (acc, 0)
  | d :: ds =>
    if acc * 10 + d < UInt64.size then takeDigits (acc * 10 + d) ds else (acc, ds.length + 1)

/-- `x · 10^exp` with a rounding for each power of ten; no double is below `10^-323`, so
    lesser powers are reached in two steps. -/
def timesTenTo (x : Binary64) (exp : Int) : Binary64 :=
  let power (n : Int) : Binary64 := .ofDecimal false 1 n
  if 0 ≤ exp then x.mul (power exp)
  else if -308 ≤ exp then x.div (power (-exp))
  else (x.div (power 308)).div (power (min 308 (-308 - exp)))

namespace Numeral

def double? (n : Numeral) : Option Binary64 :=
  let (m, skipped) := takeDigits 0 n.whole
  let (m, dropped) := takeDigits m n.part
  let exp : Int := n.exp.getD 0 + skipped - (n.part.length - dropped)
  if m = 0 then some (.zero n.neg)
  else
    match timesTenTo (.ofRatio n.neg m 1) exp with
    | .finite neg m e => some (.finite neg m e)
    | _ => none

/-- A zero with a minus sign is no integer. -/
def value? (n : Numeral) : Option Json :=
  let m := n.whole.foldl (fun m d => m * 10 + d) 0
  let isInteger :=
    n.part.isEmpty && n.exp.isNone && (if n.neg then 0 < m && m ≤ twoTo 63 else m < UInt64.size)
  if isInteger then some (.integer (if n.neg then -m else m)) else n.double?.map .float

example : double? ⟨false, [1], [2, 5], some 300⟩ =
    some (.ofDecimal false 12499999999999999 284) := by decide +kernel
example : double? ⟨true, [0], [0, 5], none⟩ = some (.ofDecimal true 5 (-2)) := by decide +kernel
example : double? ⟨false, [1], [], some 400⟩ = none := by decide +kernel
example : double? ⟨false, [1], [], some (-400)⟩ = some (.zero false) := by decide +kernel

end Numeral

end TaintAlias.Json
