import Reckoner.Number.Bits
import Reckoner.Number.Fixed

/-!
# Exponentials of two parts

The exponential of a real number that is given in two parts, computed in
binary64 and rounded to about half a unit of the last place.

## Strategy

The number is written as `k (log 2) / 128 + r` with a whole `k` and a small `r`.
The exponential of the first term is a power of two times one of 128 roots, and
that of `r` is a polynomial:

    exp (k (log 2) / 128 + r) = 2 ^ (k / 128) · (1 + r + …).

The root is kept as its nearest number and the relative rest.

## Below the normal range

The result is computed there in a range where nothing is lost, then rounded to
the places that are left by adding and taking away one, and moved down.
-/

namespace Reckoner.Number

/-! ## Constants -/

/-- The `i`-th of the roots `2 ^ (i / 128)` in fixed point. -/
def fixedRoot (i : Nat) : Int :=
  fixedExp (i * fixedLogTwo / 128)

/-- The `i`-th root, as its nearest number and the rest relative to that. -/
def twoRoot (i : Nat) : Parts :=
  let exact := fixedRoot i
  let high := ofFixed exact
  match high with
  | finite _ units _ =>
    let fixedHigh : Int := (units * Nat.pow 2 places / unitsPerOne : Nat)
    ⟨high, ofFixed (fixedDiv (exact - fixedHigh) fixedHigh)⟩
  | _ => ⟨high, zero⟩

/-- The number of steps of `(log 2) / 128` in one. -/
def stepsPerOne : Number := ofFixed (fixedDiv (128 * fixedOne) fixedLogTwo)

/-- The step `(log 2) / 128`. -/
def logStep : Parts := Parts.ofFixed (fixedLogTwo / 128)

/-! ## The polynomial -/

/-- The exponential of `r` without one, where `low` is a small number to be
added to it. -/
def expRest (r low : Number) : Number :=
  let square := r.multiply r
  let second := multiplyAdd r (ofBits 0x3FC555555555543C) (ofBits 0x3FDFFFFFFFFFFDBD)
  let fourth := multiplyAdd r (ofBits 0x3F81111167A4D017) (ofBits 0x3FA55555CF172B91)
  multiplyAdd fourth (square.multiply square) (multiplyAdd second square (r.add low))

/-! ## The exponential -/

/-- The whole number nearest to the product of two numbers, a tie to the even
one. -/
def nearestProduct : Number → Number → Int
  | finite s m _, finite t n _ => signed (s != t) (roundDiv (m * n) (unitsPerOne * unitsPerOne))
  | _, _ => 0

/-- The product of `scale` and `1 + rest` moved down by the factor 2⁻¹⁰²², where
it may fall below the normal range. -/
def moveDown (scale rest : Number) : Number :=
  let product := scale.multiply rest
  let sum := scale.add product
  if sum.less one then
    let low := (scale.subtract sum).add product
    let high := one.add sum
    let error := ((one.subtract high).add sum).add low
    scaleTwo ((high.add error).subtract one) (-1022)
  else scaleTwo sum (-1022)

/-- The exponential of a real number between -1024 and 1024. -/
def exponentialInRange (x : Parts) : Number :=
  let k := nearestProduct x.high stepsPerOne
  let count := ofInt k
  let r := (multiplyAdd count (negate logStep.low)
    (multiplyAdd count (negate logStep.high) x.high)).add x.low
  let scale := twoRoot (k % 128).toNat
  let rest := expRest r scale.low
  if k < 0 ∧ (ofInt 512).lessOrEqual x.high.magnitude then
    moveDown (scaleTwo scale.high (k / 128 + 1022)) rest
  else scaleTwo (multiplyAdd rest scale.high scale.high) (k / 128)

/-- The exponential of a real number.  It is one within 2⁻⁵⁴ of zero, and beyond
1024 an infinity or zero. -/
def exponential (x : Parts) : Number :=
  let size := x.high.magnitude
  if size.less (ofRatio false unitsPerOne (Nat.pow 2 54)) then one
  else if (ofInt 1024).lessOrEqual size then
    if x.high.less zero then zero else infinite false
  else exponentialInRange x

end Reckoner.Number
