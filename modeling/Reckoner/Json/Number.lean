import Reckoner.Json.Literal
import Reckoner.Number.Arithmetic
import Reckoner.Number.Decimal

/-!
# Values of number literals

A number literal is read as a whole number where one is asked for, and as a
binary64 number elsewhere.

## Binary64 numbers

The digits of a literal are gathered into a significand of 64 bits.  Digits
before the point that find no room in it raise the exponent instead, and digits
behind the point that find none are passed over.  The significand is rounded to
a binary64 number, which is then multiplied by a power of ten or divided by one.

Every step rounds.  So a literal with few digits and a small exponent is read as
the nearest number, and any other one as a number close to that.
-/

namespace Reckoner.Json

/-! ## Whole numbers -/

/-- The whole number of a literal without point and exponent.  A negative zero
is no whole number. -/
def wholeValue? (literal : Text) : Option Int :=
  let (sign, digits) := takeMinus literal
  if digits.all Char.isDigit then
    let magnitude := Nat.ofDigitChars 10 digits 0
    if sign.isEmpty then some magnitude
    else if magnitude = 0 then none
    else some (-(magnitude : Int))
  else none

/-! ## Significands -/

/-- The first whole number beyond a significand of 64 bits. -/
def significandLimit : Nat := Nat.pow 2 64

/-- A significand with one digit more. -/
def withDigit (significand : Nat) (digit : Char) : Nat :=
  significand * 10 + (digit.toNat - '0'.toNat)

/-- A significand with the digits before the point.  From the first one without
room on, they raise the exponent. -/
def gatherWhole (significand : Nat) : (digits : Text) → Decimal
  | [] => ⟨significand, 0⟩
  | digit :: digits =>
    if withDigit significand digit < significandLimit then
      gatherWhole (withDigit significand digit) digits
    else ⟨significand, (digit :: digits).length⟩

/-- A decimal with the digits behind the point, up to the first one without
room. -/
def gatherFraction (d : Decimal) : (digits : Text) → Decimal
  | [] => d
  | digit :: digits =>
    if withDigit d.coefficient digit < significandLimit then
      gatherFraction ⟨withDigit d.coefficient digit, d.exponent - 1⟩ digits
    else d

/-- The value of an exponent with its mark. -/
def exponentValue (exponent : Text) : Int :=
  let (sign, digits) := takeExponentSign (exponent.drop 1)
  let magnitude : Int := Nat.ofDigitChars 10 digits 0
  if sign = ['-'] then -magnitude else magnitude

/-- The significand and the power of ten of a literal without its sign. -/
def decimalValue (unsigned : Text) : Decimal :=
  let mantissa := unsigned.takeWhile fun c => c ≠ 'e' && c ≠ 'E'
  let exponent := unsigned.dropWhile fun c => c ≠ 'e' && c ≠ 'E'
  let whole := mantissa.takeWhile Char.isDigit
  let fraction := (mantissa.dropWhile Char.isDigit).drop 1
  let d := gatherFraction (gatherWhole 0 whole) fraction
  ⟨d.coefficient, d.exponent + exponentValue exponent⟩

theorem coefficient_gatherWhole_lt {significand : Nat} (h : significand < significandLimit)
    (digits : Text) : (gatherWhole significand digits).coefficient < significandLimit := by
  induction digits generalizing significand with
  | nil => exact h
  | cons digit digits ih =>
    rw [gatherWhole]
    split
    · next hroom => exact ih hroom
    · exact h

theorem coefficient_gatherFraction_lt {d : Decimal} (h : d.coefficient < significandLimit)
    (digits : Text) : (gatherFraction d digits).coefficient < significandLimit := by
  induction digits generalizing d with
  | nil => exact h
  | cons digit digits ih =>
    rw [gatherFraction]
    split
    · next hroom => exact ih hroom
    · exact h

/-- The significand of a literal fits 64 bits, however many digits the literal has. -/
theorem coefficient_decimalValue_lt (unsigned : Text) :
    (decimalValue unsigned).coefficient < significandLimit := by
  have hzero : 0 < significandLimit := by decide
  exact coefficient_gatherFraction_lt (coefficient_gatherWhole_lt hzero _) _

/-! ## Scaling -/

/-- The exponent of the largest power of ten that is a finite number. -/
def maxTenExponent : Nat := 308

/-- The number nearest to a power of ten. -/
def tenPower (exponent : Nat) : Number :=
  Decimal.toNumber false ⟨1, exponent⟩

/-- The product of a number and a power of ten. -/
def timesTenPower (x : Number) (exponent : Nat) : Number :=
  if x.isZero then x
  else if exponent ≤ maxTenExponent then x.multiply (tenPower exponent)
  else .infinite false

/-- The quotient of a number of at most 64 bits and a power of ten.  A power
that is no number divides in two steps; the second one leaves nothing from the
exponent 616 on, so a third is not needed. -/
def overTenPower (x : Number) (exponent : Nat) : Number :=
  if exponent ≤ maxTenExponent then x.divide (tenPower exponent)
  else
    (x.divide (tenPower maxTenExponent)).divide
      (tenPower (min (exponent - maxTenExponent) maxTenExponent))

/-- The binary64 number of a significand of 64 bits and a power of ten. -/
def scaled (d : Decimal) : Number :=
  let significand := Number.ofInt d.coefficient
  if 0 ≤ d.exponent then timesTenPower significand d.exponent.toNat
  else overTenPower significand (-d.exponent).toNat

/-- The binary64 number of a literal, or an infinity if it is too large. -/
def numberValue (literal : Text) : Number :=
  let (sign, unsigned) := takeMinus literal
  let magnitude := scaled (decimalValue unsigned)
  if sign.isEmpty then magnitude else magnitude.negate

end Reckoner.Json
