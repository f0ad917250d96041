/-!
# Binary floating-point magnitudes

A `Double` is a finite magnitude with 53 bits of precision, kept as a whole mantissa and a power of
two. Every operation is exact arithmetic on natural numbers followed by one rounding: to the nearest
magnitude, a half going to the even mantissa.
-/

namespace TileCatalog.Decimal

/-- The magnitude `mantissa * 2 ^ exponent`, with `mantissa ≤ 2 ^ 53 - 1` and
`-1074 ≤ exponent ≤ 971`. -/
structure Double where
  mantissa : Nat
  exponent : Int
deriving DecidableEq, Repr, Inhabited

/-- `num / den` to the nearest whole number, a half going to the even neighbour. -/
def roundDiv (num den : Nat) : Nat :=
  let q := num / den
  let r := num % den
  if 2 * r < den then q
  else if den < 2 * r then q + 1
  else q + q % 2

def inUnits (num den : Nat) (e : Int) : Nat × Nat :=
  if 0 ≤ e then (num, den * Nat.pow 2 e.toNat) else (num * Nat.pow 2 (-e).toNat, den)

/-- The weight of the last bit kept of `num / den`, as a power of two. -/
def lastBit (num den : Nat) : Int :=
  let guess : Int := num.log2 - den.log2
  let (n, d) := inUnits num den guess
  let top := if d ≤ n then guess else guess - 1
  max (top - 52) (-1074)

namespace Double

def zero : Double := ⟨0, -1074⟩

def isZero (x : Double) : Bool := x.mantissa == 0

/-- `num / den` rounded; nothing if it rounds past the largest magnitude. -/
def ofRatio? (num den : Nat) : Option Double :=
  if num = 0 then some zero
  else
    let e := lastBit num den
    let (n, d) := inUnits num den e
    let m := roundDiv n d
    -- rounding up may carry into a 54th bit
    let x : Double := if m = Nat.pow 2 53 then ⟨Nat.pow 2 52, e + 1⟩ else ⟨m, e⟩
    if x.exponent ≤ 971 then some x else none

def toRatio (x : Double) : Nat × Nat :=
  if 0 ≤ x.exponent then (x.mantissa * Nat.pow 2 x.exponent.toNat, 1)
  else (x.mantissa, Nat.pow 2 (-x.exponent).toNat)

def mul? (x y : Double) : Option Double :=
  ofRatio? (x.toRatio.1 * y.toRatio.1) (x.toRatio.2 * y.toRatio.2)

def div? (x y : Double) : Option Double :=
  ofRatio? (x.toRatio.1 * y.toRatio.2) (x.toRatio.2 * y.toRatio.1)

def pow10 (k : Nat) : Double := (ofRatio? (Nat.pow 10 k) 1).getD zero

/-- `x * 10 ^ e` by one product or quotient with a power of ten, rounded; a power below `10 ^ -308`
is divided away in pieces. Nothing if the result is too large. -/
def shift10? (x : Double) (e : Int) : Option Double :=
  if e.natAbs ≤ 308 then
    if 0 ≤ e then x.mul? (pow10 e.toNat) else x.div? (pow10 e.natAbs)
  else if x.isZero then some x
  else if 0 ≤ e then none
  else (x.div? (pow10 308)).bind fun y => y.shift10? (e + 308)
termination_by e.natAbs
decreasing_by omega

end Double

end TileCatalog.Decimal
