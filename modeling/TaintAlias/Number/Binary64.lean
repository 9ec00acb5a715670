/-
  TaintAlias.Number.Binary64 — double precision numbers, as exact integers.

  A finite number is a significand below 2^53 times a power of two not below 2^-1074.
  A ratio of naturals is rounded to the nearest such number, a tie to the even
  significand; beyond the largest one it becomes infinite.
-/

import TaintAlias.Number.Power

namespace TaintAlias

inductive Binary64 where
  /-- `m · 2^e`, negated if `neg`. -/
  | finite (neg : Bool) (m : Nat) (e : Int)
  | infinite (neg : Bool)
  | nan
  deriving DecidableEq, Repr

namespace Binary64

/-- `num / den` to the nearest integer, a tie to the even one. -/
def roundQuot (num den : Nat) : Nat :=
  let q := num / den
  let r := 2 * (num % den)
  if r < den then q
  else if den < r then q + 1
  else q + q % 2

def zero (neg : Bool) : Binary64 := .finite neg 0 (-1074)

/-- `num / den` in units of `2^e`, as a fraction. -/
def scaled (num den : Nat) (e : Int) : Nat × Nat := (num * twoTo (-e).toNat, den * twoTo e.toNat)

/-- The exponent at which `num / den` has 53 binary digits, or the smallest one. -/
def exponent (num den : Nat) : Int :=
  let e := (Nat.log2 num : Int) - Nat.log2 den - 53
  let (n, d) := scaled num den e
  max (if twoTo 53 ≤ n / d then e + 1 else e) (-1074)

/-- The number nearest to `num / den`; `den` is not zero. -/
def ofRatio (neg : Bool) (num den : Nat) : Binary64 :=
  if num = 0 then zero neg
  else
    let e := exponent num den
    let (n, d) := scaled num den e
    let m := roundQuot n d
    let (m, e) := if m = twoTo 53 then (twoTo 52, e + 1) else (m, e)
    if e > 971 then .infinite neg else .finite neg m e

def ofNat (n : Nat) : Binary64 := ofRatio false n 1

/-- The number nearest to `digits · 10^exp`. Exponents far outside the range are
    answered without computing the power. -/
def ofDecimal (neg : Bool) (digits : Nat) (exp : Int) : Binary64 :=
  let places : Int := (Nat.toDigits 10 digits).length
  if digits = 0 ∨ exp + places < -330 then zero neg
  else if exp + places > 330 then .infinite neg
  else ofRatio neg (digits * tenTo exp.toNat) (tenTo (-exp).toNat)

/-- The product of two finite numbers. -/
def mul : Binary64 → Binary64 → Binary64
  | .finite neg m e, .finite neg' m' e' =>
    ofRatio (neg != neg') (m * m' * twoTo (e + e').toNat) (twoTo (-(e + e')).toNat)
  | _, _ => .nan

/-- The quotient of two finite numbers; zero if the second is zero. -/
def div : Binary64 → Binary64 → Binary64
  | .finite neg m e, .finite neg' m' e' =>
    if m' = 0 then zero false
    else ofRatio (neg != neg') (m * twoTo (e - e').toNat) (m' * twoTo (e' - e).toNat)
  | _, _ => .nan

/-- The 64 bits of the interchange format. -/
def bits : Binary64 → Nat
  | .finite neg m e =>
    (if neg then twoTo 63 else 0) + (if m < twoTo 52 then m else (e + 1075).toNat * twoTo 52 + (m - twoTo 52))
  | .infinite neg => (if neg then twoTo 63 else 0) + 2047 * twoTo 52
  | .nan => 2047 * twoTo 52 + twoTo 51

/-- Sixteen hexadecimal digits. -/
def bitsText (x : Binary64) : String :=
  let ds := Nat.toDigits 16 x.bits
  String.ofList (List.replicate (16 - ds.length) '0' ++ ds)

example : (div (ofNat 3) (ofNat 4)).bitsText = "3fe8000000000000" := by decide +kernel
example : (div (ofNat 1) (ofNat 3)).bitsText = "3fd5555555555555" := by decide +kernel
example : ofNat (twoTo 53 + 1) = ofNat (twoTo 53) := by decide +kernel

end Binary64

end TaintAlias
