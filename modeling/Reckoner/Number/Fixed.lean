import Reckoner.Number.Arithmetic

/-!
# Logarithms and exponentials in fixed point

Real numbers with 256 binary places, and the two series from which constants and
tables of binary64 computations are taken.  A real number enters such a
computation in two parts: a multiple of 2⁻⁴³, which can be added to others
without rounding, and the binary64 number nearest to the rest.
-/

namespace Reckoner.Number

/-! ## Fixed point -/

/-- The number of binary places. -/
def places : Nat := 256

def fixedOne : Int := Nat.pow 2 places

/-- The product of two fixed-point numbers, rounded down. -/
def fixedMul (a b : Int) : Int := (a * b).fdiv fixedOne

/-- The quotient of two fixed-point numbers, rounded down. -/
def fixedDiv (a b : Int) : Int := (a * fixedOne).fdiv b

/-- The number nearest to a fixed-point number. -/
def ofFixed (a : Int) : Number :=
  ofRatio (a < 0) (a.natAbs * unitsPerOne) (Nat.pow 2 places)

/-! ## Series -/

/-- The sum of `terms` terms `power · square ^ k / (2 k + 1)`, from the `k`-th
on. -/
def areaTangentSeries (square : Int) : (terms k : Nat) → (power : Int) → Int
  | 0, _, _ => 0
  | terms + 1, k, power =>
    power.fdiv (2 * k + 1) + areaTangentSeries square terms (k + 1) (fixedMul power square)

/-- The natural logarithm of the fixed-point number `m`, which lies between one
half and 2, as twice the area tangent of `(m - 1) / (m + 1)`. -/
def fixedLog (m : Int) : Int :=
  let z := fixedDiv (m - fixedOne) (m + fixedOne)
  2 * areaTangentSeries (fixedMul z z) 90 0 z

/-- The natural logarithm of two in fixed point. -/
def fixedLogTwo : Int := fixedLog (2 * fixedOne)

/-- The sum of `terms` terms of the exponential series of `t` after the `k`-th
term `term`, which is included. -/
def exponentialSeries (t : Int) : (terms k : Nat) → (term : Int) → Int
  | 0, _, term => term
  | terms + 1, k, term =>
    term + exponentialSeries t terms (k + 1) ((fixedMul term t).fdiv (k + 1))

/-- The exponential of a fixed-point number between zero and one. -/
def fixedExp (t : Int) : Int :=
  exponentialSeries t 70 0 fixedOne

/-! ## Two parts -/

/-- A real number as the sum of two numbers, the second one far smaller than the
first. -/
structure Parts where
  high : Number
  low : Number

/-- The nearest multiple of 2⁻⁴³ to a fixed-point number, and the number nearest
to the rest. -/
def Parts.ofFixed (a : Int) : Parts :=
  let step : Int := Nat.pow 2 (places - 43)
  let high := (a + step / 2).fdiv step * step
  ⟨Number.ofFixed high, Number.ofFixed (a - high)⟩

end Reckoner.Number
