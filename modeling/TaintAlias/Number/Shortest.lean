/-
  TaintAlias.Number.Shortest — the shortest decimal that reads back as a given double.

  The reals that round to a finite number form an interval around it, ends included when
  the significand is even. On the coarsest decimal grid that has a point in the interval,
  the number's two neighbours are tried and the nearer one wins.
-/

import TaintAlias.Number.Binary64

namespace TaintAlias

/-- `digits · 10^exp`. -/
structure Decimal where
  digits : Nat
  exp : Int
  deriving DecidableEq, Repr

namespace Decimal

def text (d : Decimal) : List Char := Nat.toDigits 10 d.digits

/-- Where the decimal point stands, counted from the first digit. -/
def point (d : Decimal) : Int := d.text.length + d.exp

end Decimal

namespace Binary64

/-- The reals that round to `m · 2^e`, and the number itself, in units of `1 / unit`. -/
structure Interval where
  low : Nat
  mid : Nat
  high : Nat
  unit : Nat
  closed : Bool

def interval (m : Nat) (e : Int) : Interval :=
  let k := twoTo e.toNat
  { low := (4 * m - (if m = twoTo 52 ∧ e > -1074 then 1 else 2)) * k
    mid := 4 * m * k
    high := (4 * m + 2) * k
    unit := 4 * twoTo (-e).toNat
    closed := m % 2 = 0 }

/-- Whether `c · 10^k` lies in the interval. -/
def Interval.contains (i : Interval) (c : Nat) (k : Int) : Bool :=
  let x := c * tenTo k.toNat * i.unit
  let low := i.low * tenTo (-k).toNat
  let high := i.high * tenTo (-k).toNat
  c ≠ 0 ∧ (if i.closed then low ≤ x ∧ x ≤ high else low < x ∧ x < high)

/-- The best point of the grid of step `10^k`, if one lies in the interval. -/
def Interval.onGrid (i : Interval) (k : Int) : Option Nat :=
  let step := tenTo k.toNat * i.unit
  let x := i.mid * tenTo (-k).toNat
  let c := x / step
  let r := 2 * (x % step)
  match i.contains c k, i.contains (c + 1) k with
  | true, true => some (if r < step ∨ (r = step ∧ c % 2 = 0) then c else c + 1)
  | true, false => some c
  | false, true => some (c + 1)
  | false, false => none

/-- The first hit on the grids `10^k`, `10^(k-1)`, …, at most `fuel` of them. -/
def Interval.search (i : Interval) : Nat → Int → Decimal
  | 0, k => ⟨0, k⟩
  | fuel + 1, k =>
    match i.onGrid k with
    | some c => ⟨c, k⟩
    | none => i.search fuel (k - 1)

/-- The shortest decimal of `m · 2^e`, nearest to it among those. -/
def shortest (m : Nat) (e : Int) : Decimal :=
  if m = 0 then ⟨0, 0⟩
  else
    let i := interval m e
    let top := (Nat.toDigits 10 (i.high / i.unit)).length
    i.search (top + 345) top

/-- Positional notation, with at least one digit after the point. -/
def plainText : Binary64 → String
  | .finite neg m e =>
    let d := shortest m e
    let ds := d.text
    let p := d.point
    let body : List Char :=
      if p ≤ 0 then '0' :: '.' :: (List.replicate (-p).toNat '0' ++ ds)
      else if p < ds.length then ds.take p.toNat ++ '.' :: ds.drop p.toNat
      else ds ++ List.replicate (p.toNat - ds.length) '0' ++ ['.', '0']
    String.ofList (if neg then '-' :: body else body)
  | .infinite neg => if neg then "-inf" else "inf"
  | .nan => "NaN"

/-- Positional notation from `10^-5` to `10^16`, an exponent with its sign outside. -/
def scientificText : Binary64 → String
  | .finite neg m e =>
    let d := shortest m e
    let ds := d.text
    let p := d.point
    let body : List Char :=
      if m = 0 then ['0', '.', '0']
      else if 0 ≤ d.exp ∧ p ≤ 16 then ds ++ List.replicate d.exp.toNat '0' ++ ['.', '0']
      else if 0 < p ∧ p ≤ 16 then ds.take p.toNat ++ '.' :: ds.drop p.toNat
      else if -5 < p ∧ p ≤ 0 then '0' :: '.' :: (List.replicate (-p).toNat '0' ++ ds)
      else
        let (d1, rest) := (ds.take 1, ds.drop 1)
        d1 ++ (if rest.isEmpty then [] else '.' :: rest) ++ 'e' :: (if 0 < p then ['+'] else []) ++
          (toString (p - 1)).toList
    String.ofList (if neg then '-' :: body else body)
  | .infinite neg => if neg then "-inf" else "inf"
  | .nan => "NaN"

example : (ofDecimal false 55 (-1)).plainText = "5.5" := by decide +kernel
example : (ofDecimal true 1 20).plainText = "-100000000000000000000.0" := by decide +kernel
example : (ofDecimal false 1 20).scientificText = "1e+20" := by decide +kernel
example : (ofDecimal false 1 (-5)).scientificText = "0.00001" := by decide +kernel
example : (ofDecimal false 5 (-324)).scientificText = "5e-324" := by decide +kernel

end Binary64

end TaintAlias
