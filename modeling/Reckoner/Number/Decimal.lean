import Reckoner.Number.Basic

/-!
# Decimals

A decimal is a coefficient and a power of ten.  Reading one takes the nearest
binary64 number.  Writing a finite number takes a decimal with as few digits as
read back as that number, and among those the nearest to it.

## Strategy

A number of `n` significant digits stands on a grid of powers of ten.  If any
point of that grid reads back as the number, then one of the two neighbours of
the number on the grid does.  So the neighbours are tried on the grids of 1 to
17 digits; the first grid with a hit wins, and of two hits the nearer.  Which of
two equally near ones is taken is left to the format that writes the digits.
The exact decimal stands behind the last grid, so that what is written always
reads back.
-/

namespace Reckoner

/-- The decimal `coefficient · 10 ^ exponent`. -/
structure Decimal where
  coefficient : Nat
  exponent : Int
  deriving DecidableEq

/-- Which of two decimals equally near to a number is written. -/
inductive TieRule
  /-- The larger one. -/
  | up
  /-- The one whose coefficient is even. -/
  | even
  deriving DecidableEq

namespace Decimal

/-! ## Reading -/

/-- The numerator of a decimal as a fraction of units. -/
def numerator (d : Decimal) : Nat :=
  d.coefficient * Nat.pow 10 d.exponent.toNat * unitsPerOne

/-- The denominator of a decimal as a fraction of units. -/
def denominator (d : Decimal) : Nat :=
  Nat.pow 10 (-d.exponent).toNat

/-- The number nearest to a decimal, with the given sign. -/
def toNumber (negative : Bool) (d : Decimal) : Number :=
  Number.ofRatio negative d.numerator d.denominator

/-- Whether a decimal reads back as a count of units. -/
def readsAs (d : Decimal) (units : Nat) : Bool :=
  nearestUnits d.numerator d.denominator == units

/-! ## Shortest decimals -/

/-- The exponent of the leading decimal digit of a positive count of units. -/
def leadingExponent (units : Nat) : Int :=
  let estimate := ((units.log2 : Int) - unitExponent) * 30103 / 100000
  let next := estimate + 1
  if Nat.pow 10 next.toNat * unitsPerOne ≤ units * Nat.pow 10 (-next).toNat then next else estimate

/-- Of two decimals that pass a test the preferred one, or the one that passes. -/
def pick? (passes : Decimal → Bool) (preferAbove : Bool) (below above : Decimal) :
    Option Decimal :=
  match passes below, passes above with
  | true, true => some (if preferAbove then above else below)
  | true, false => some below
  | false, true => some above
  | false, false => none

/-- The decimal on the grid of a power of ten that reads back as a count of
units, if there is one: the nearer neighbour of the count that does. -/
def onGrid? (tie : TieRule) (units : Nat) (exponent : Int) : Option Decimal :=
  let num := units * Nat.pow 10 (-exponent).toNat
  let den := unitsPerOne * Nat.pow 10 exponent.toNat
  let below : Decimal := ⟨num / den, exponent⟩
  let above : Decimal := ⟨num / den + 1, exponent⟩
  let rest := num % den
  let preferAbove :=
    den < 2 * rest || (2 * rest == den && (tie == .up || num / den % 2 == 1))
  pick? (·.readsAs units) preferAbove below above

/-- The decimal of a count of units without any rounding. -/
def exact (units : Nat) : Decimal :=
  ⟨units * Nat.pow 5 unitExponent, -unitExponent⟩

/-- A decimal with the same value and up to `steps` fewer zeros at the end of
its coefficient. -/
def dropZeros : (steps : Nat) → Decimal → Decimal
  | 0, d => d
  | steps + 1, d =>
    if d.coefficient ≠ 0 ∧ d.coefficient % 10 = 0 then
      dropZeros steps ⟨d.coefficient / 10, d.exponent + 1⟩
    else d

/-- The decimal that is written for a positive count of units: of the decimals
with the fewest digits that read back as it, the nearest. -/
def shortest (tie : TieRule) (units : Nat) : Decimal :=
  let leading := leadingExponent units
  let found := (List.range 17).findSome? fun (places : Nat) =>
    onGrid? tie units (leading - (places : Int))
  let chosen := found.getD (exact units)
  dropZeros chosen.coefficient.log2 chosen

/-! ## Digits -/

def digits (d : Decimal) : List Char :=
  Nat.toDigits 10 d.coefficient

/-- The decimal of a text of digits, the last `places` of which stand behind
the point. -/
def ofDigits (digits : List Char) (places : Nat) : Decimal :=
  ⟨Nat.ofDigitChars 10 digits 0, -places⟩

end Decimal

end Reckoner
