import Reckoner.Number.Exponential
import Reckoner.Number.Logarithm

/-!
# Powers

The power of two binary64 numbers.  The magnitude is the exponential of the
exponent times the logarithm of the base, with the logarithm and the product in
two parts each, so the result lies within 0.52 units of the last place.  An exact
power is met; one midway between two numbers goes where the roundings of the
computation lead.

The sign and the cases of zeros, infinities and undefined operands follow the
usual rules: the power with exponent zero and the power of one are one whatever
the other operand is, and a negative base needs a whole exponent.
-/

namespace Reckoner.Number

/-! ## Magnitudes -/

/-- The product of a number and a real number in two parts. -/
def Parts.times (x : Parts) (y : Number) : Parts :=
  let high := y.multiply x.high
  ⟨high, multiplyAdd y x.low (multiplyAdd x.high y (negate high))⟩

/-- The power of a positive count of units. -/
def powerMagnitude (base : Nat) (exponent : Number) : Number :=
  exponential ((logarithm base).times exponent)

/-! ## Powers -/

/-- Whether a count of units is a whole number. -/
def isWhole (units : Nat) : Bool :=
  units % unitsPerOne == 0

/-- Whether a count of units is an odd whole number. -/
def isOdd (units : Nat) : Bool :=
  isWhole units && units / unitsPerOne % 2 == 1

/-- The power of a finite base with an infinite exponent: one if the base is
one or minus one, and otherwise zero or infinity according to the side of one
on which the base lies. -/
def powerInfinite (base : Nat) (exponentNegative : Bool) : Number :=
  if base = unitsPerOne then one
  else if (base < unitsPerOne) == exponentNegative then infinite false
  else zero

/-- The power of an infinite or zero base with a finite exponent other than
zero: infinite or zero, negative only if the base is and the exponent is an odd
whole number. -/
def powerExtreme (negative large : Bool) (exponent : Nat) : Number :=
  let sign := negative && isOdd exponent
  if large then infinite sign else ofRatio sign 0 1

def power (x y : Number) : Number :=
  if y.isZero || x.equals one then one
  else match x, y with
    | nan, _ => nan
    | _, nan => nan
    | infinite _, infinite t => if t then zero else infinite false
    | infinite s, finite t n _ => powerExtreme s (!t) n
    | finite _ m _, infinite t => powerInfinite m t
    | finite s m _, finite t n _ =>
      if m = 0 then powerExtreme s t n
      else if s && !isWhole n then nan
      else
        let size := powerMagnitude m y
        if s && isOdd n then negate size else size

end Reckoner.Number
