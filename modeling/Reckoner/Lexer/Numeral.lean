import Reckoner.Number.Decimal
import Reckoner.Text.Basic

/-!
# Numerals

A numeral begins with a digit.  It goes on over digits, one point and one
separator of groups, which is `_` anywhere or `,` before exactly three digits;
a comma in another place ends the numeral, so that it can separate arguments.
The separator has no part in the value.
-/

namespace Reckoner

/-- Whether a comma before this text separates groups of digits: exactly three
digits follow it. -/
def groupsDigits (rest : Text) : Bool :=
  match rest with
  | a :: b :: c :: later =>
    a.isDigit && b.isDigit && c.isDigit &&
      (match later with
        | d :: _ => !d.isDigit
        | [] => true)
  | _ => false

/-- The part of a text that continues a numeral, which may have had its point
or its separator already. -/
def takeNumeral (hasPoint hasSeparator : Bool) : Text → Text
  | [] => []
  | c :: rest =>
    if c.isDigit then c :: takeNumeral hasPoint hasSeparator rest
    else if c = '.' ∧ !hasPoint then c :: takeNumeral true hasSeparator rest
    else if (c = '_' ∨ c = ',' ∧ groupsDigits rest) ∧ !hasSeparator then
      c :: takeNumeral hasPoint true rest
    else []

def numeralValue (numeral : Text) : Decimal :=
  let behindPoint := numeral.dropWhile (· ≠ '.')
  Decimal.ofDigits (numeral.filter Char.isDigit) (behindPoint.countP Char.isDigit)

end Reckoner
