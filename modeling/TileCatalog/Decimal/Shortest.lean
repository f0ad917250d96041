import TileCatalog.Decimal.Double

/-!
# Shortest decimal digits

The fewest digits that read back as the same magnitude, and of those the nearest; an exact half
takes the even last digit. How the digits are laid out is a `Layout`.
-/

namespace TileCatalog.Decimal

structure Digits where
  coefficient : Nat
  exponent : Int
deriving DecidableEq, Repr

def digitsOf (n : Nat) : List Char := Nat.toDigits 10 n

namespace Digits

def trim (d : Digits) : Digits :=
  if h : d.coefficient ≠ 0 ∧ d.coefficient % 10 = 0 then
    trim ⟨d.coefficient / 10, d.exponent + 1⟩
  else d
termination_by d.coefficient
decreasing_by omega

end Digits

/-- The least `k` with `num / den < 10 ^ k`. -/
def magnitude (num den : Nat) : Int :=
  if den ≤ num then (digitsOf (num / den)).length
  else 1 - (digitsOf ((den - 1) / num)).length

namespace Double

/-- The ends of the interval that rounds to `x`, in quarters of its last bit, and whether they
belong to it. Below a power of two the neighbours lie closer. -/
def interval (x : Double) : Nat × Nat × Bool :=
  let below := if x.mantissa = Nat.pow 2 52 ∧ -1074 < x.exponent then 1 else 2
  (4 * x.mantissa - below, 4 * x.mantissa + 2, x.mantissa % 2 == 0)

def roundsFrom (x : Double) (c : Nat) (e : Int) : Bool :=
  let (lo, hi, closed) := x.interval
  let q := x.exponent - 2
  -- both sides over a common denominator
  let left := c * Nat.pow 10 e.toNat * Nat.pow 2 (-q).toNat
  let scale := Nat.pow 10 (-e).toNat * Nat.pow 2 q.toNat
  if closed then lo * scale ≤ left && left ≤ hi * scale
  else lo * scale < left && left < hi * scale

/-- The best number with its last digit at `10 ^ e` that rounds to `x`, if there is one. -/
def nearestAt (x : Double) (e : Int) : Option Nat :=
  let (num, den) := x.toRatio
  let n := num * Nat.pow 10 (-e).toNat
  let d := den * Nat.pow 10 e.toNat
  let c := n / d
  let r := n % d
  let low := x.roundsFrom c e
  let high := x.roundsFrom (c + 1) e
  if low && high then
    if 2 * r < d then some c else if d < 2 * r then some (c + 1) else some (c + c % 2)
  else if low then some c
  else if high then some (c + 1)
  else none

/-- The shortest digits of `x`. Seventeen places always suffice. -/
def shortest (x : Double) : Digits :=
  if x.isZero then ⟨0, 0⟩
  else
    let k := magnitude x.toRatio.1 x.toRatio.2
    let found := (List.range 17).findSome? fun i =>
      let e := k - (i + 1 : Nat)
      (x.nearestAt e).map fun c => Digits.trim ⟨c, e⟩
    found.getD ⟨0, 0⟩

end Double

/-- How digits become text: positional while the power of ten of the first digit lies between
`least` and `greatest`, else with an exponent. -/
structure Layout where
  least : Int
  greatest : Int

namespace Layout

def zeros (n : Nat) : List Char := List.replicate n '0'

def positional (ds : List Char) (point : Int) : List Char :=
  if point ≤ 0 then '0' :: '.' :: zeros (-point).toNat ++ ds
  else if ds.length ≤ point.toNat then ds ++ zeros (point.toNat - ds.length) ++ ['.', '0']
  else ds.take point.toNat ++ '.' :: ds.drop point.toNat

def scientific (ds : List Char) (power : Int) : List Char :=
  let fraction := if ds.length ≤ 1 then [] else '.' :: ds.drop 1
  let sign := if 0 ≤ power then '+' else '-'
  ds.take 1 ++ fraction ++ 'e' :: sign :: digitsOf power.natAbs

def render (l : Layout) (d : Digits) : List Char :=
  let ds := digitsOf d.coefficient
  let point : Int := ds.length + d.exponent
  if d.coefficient = 0 ∨ (l.least ≤ point - 1 ∧ point - 1 ≤ l.greatest) then positional ds point
  else scientific ds (point - 1)

end Layout

end TileCatalog.Decimal
