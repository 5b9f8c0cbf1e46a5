import Reckoner.Number.Bits
import Reckoner.Number.Fixed

/-!
# Logarithms in two parts

The natural logarithm of a positive number, computed in binary64 to about 68
significant bits and kept in two parts.

## Strategy

A number is written as `2ᵏ · z` with `z` from a range around one, which is cut
into 128 cells.  Each cell has a fraction `1/c` near the reciprocal of its
middle, with so few bits that `r = z/c - 1` is a number of the format, and the
logarithm of `c` in two parts.  Then

    log (2ᵏ z) = k log 2 + log c + log (1 + r),

where the last logarithm is `r - r²/2` and a polynomial for the rest.  The two
leading terms are summed with their rounding errors, and the errors make up the
low part.
-/

namespace Reckoner.Number

/-! ## Reduction -/

/-- The beginning of the range of `z`, in parts of 2⁵³: about 0.7057. -/
def rangeStart : Nat := 0x16955500000000

/-- A positive number as `2 ^ exponent · significand · 2 ^ -52`. -/
structure Normalized where
  significand : Nat
  exponent : Int

/-- The significand of 53 bits and the exponent of a positive count of units. -/
def Normalized.ofUnits (units : Nat) : Normalized :=
  ⟨units * Nat.pow 2 52 / Nat.pow 2 units.log2, (units.log2 : Int) - unitExponent⟩

/-- A positive number as a power of two times `z`, with the cell of `z`. -/
structure Reduced where
  exponent : Int
  z : Number
  cell : Nat

/-- The number of places of the format in a cell. -/
def cellWidth : Nat := Nat.pow 2 45

/-- The reduction of a positive count of units.  The significand is halved if it
lies in the part of the range below one. -/
def Reduced.ofUnits (units : Nat) : Reduced :=
  let x := Normalized.ofUnits units
  if rangeStart ≤ x.significand then
    ⟨x.exponent + 1, ofRatio false (x.significand * unitsPerOne) (Nat.pow 2 53),
      (x.significand - rangeStart) / cellWidth⟩
  else
    ⟨x.exponent, ofRatio false (x.significand * unitsPerOne) (Nat.pow 2 52),
      (x.significand + Nat.pow 2 52 - rangeStart) / cellWidth⟩

/-- The number of the range that is `steps` numbers of the format beyond its
beginning, in parts of 2⁵³.  From one on neighbours are twice as far apart. -/
def rangePoint (steps : Nat) : Nat :=
  if rangeStart + steps < Nat.pow 2 53 then rangeStart + steps
  else 2 * (rangeStart + steps - Nat.pow 2 52)

/-- The numerator and denominator of `1/c` for a cell.  The denominator is 128 if
the middle of the cell lies below one, and 256 otherwise. -/
def cellReciprocal (cell : Nat) : Nat × Nat :=
  let ends := rangePoint (cell * cellWidth) + rangePoint ((cell + 1) * cellWidth)
  let den := if ends < Nat.pow 2 54 then 128 else 256
  (roundDiv (den * Nat.pow 2 54) ends, den)

/-- The logarithm of `c` for a cell. -/
def cellLog (cell : Nat) : Parts :=
  let (num, den) := cellReciprocal cell
  Parts.ofFixed (-fixedLog ((num * Nat.pow 2 places / den : Nat) : Int))

def logTwo : Parts := Parts.ofFixed fixedLogTwo

/-! ## The polynomial -/

def minusHalf : Number := negate half

/-- The rest `log (1 + r) - r + r²/2` without its factor `-r³/2`, where `square`
is `-r²/2`.  The coefficients make the greatest relative error over all cells
small. -/
def logRest (r square : Number) : Number :=
  let first := multiplyAdd r (ofBits 0x3FE0000000000006) (ofBits 0xBFE5555555555560)
  let second := multiplyAdd r (ofBits 0xBFE555555529A47A) (ofBits 0x3FE999999959554E)
  let third := multiplyAdd r (ofBits 0x3FF0002B8B263FC3) (ofBits 0xBFF2495B9B4845E9)
  multiplyAdd square (multiplyAdd third square second) first

/-! ## The logarithm -/

/-- The natural logarithm of a positive count of units. -/
def logarithm (units : Nat) : Parts :=
  let x := Reduced.ofUnits units
  let (num, den) := cellReciprocal x.cell
  let logC := cellLog x.cell
  let k := ofInt x.exponent
  let r := multiplyAdd x.z (ofRatio false (num * unitsPerOne) den) (negate one)
  let base := multiplyAdd k logTwo.high logC.high
  let linear := base.add r
  let halfR := r.multiply minusHalf
  let square := r.multiply halfR
  let cube := r.multiply square
  let high := linear.add square
  let tableLow := multiplyAdd k logTwo.low logC.low
  let linearLow := (base.subtract linear).add r
  let productLow := multiplyAdd halfR r (negate square)
  let squareLow := (linear.subtract high).add square
  let errors := ((tableLow.add linearLow).add productLow).add squareLow
  let low := multiplyAdd cube (logRest r square) errors
  let sum := high.add low
  ⟨sum, (high.subtract sum).add low⟩

end Reckoner.Number
