import Reckoner.Text.Basic
import Reckoner.Number.Decimal

/-!
# Written numbers

Two layouts of the shortest digits.  In messages and rendered expressions a
number stands in *plain* layout: positional whatever its size, without a point
if it is whole.  In JSON it stands in *scientific* layout: positional from 10⁻⁵
up to 10¹⁶, always with a point and at least one digit behind it, and with an
exponent beyond.
-/

namespace Reckoner

/-! ## Positional digits -/

namespace Decimal

/-- The digits of a decimal in positional layout, with a point only if digits
stand behind it. -/
def positional (d : Decimal) : Text :=
  let digits := d.digits
  let places := (-d.exponent).toNat
  if places = 0 then digits ++ List.replicate d.exponent.toNat '0'
  else if places < digits.length then
    digits.take (digits.length - places) ++ '.' :: digits.drop (digits.length - places)
  else '0' :: '.' :: (List.replicate (places - digits.length) '0' ++ digits)

/-- The exponent of the leading digit of a decimal. -/
def leadingPlace (d : Decimal) : Int :=
  d.exponent + d.digits.length - 1

/-- A decimal with an exponent: one digit, the others behind a point, and the
exponent with its sign. -/
def withExponent (d : Decimal) : Text :=
  let mantissa := match d.digits with
    | [] => []
    | [digit] => [digit]
    | digit :: others => digit :: '.' :: others
  let exponent := d.leadingPlace
  mantissa ++ 'e' :: (if exponent < 0 then '-' else '+') :: Nat.toDigits 10 exponent.natAbs

end Decimal

namespace Number

/-- The sign of a number as it is written. -/
def signText (negative : Bool) : Text :=
  if negative then ['-'] else []

/-! ## Layouts -/

def plain : Number → Text
  | nan => ['N', 'a', 'N']
  | infinite negative => signText negative ++ ['i', 'n', 'f']
  | finite negative units _ =>
    signText negative ++ (if units = 0 then ['0'] else (Decimal.shortest .up units).positional)

/-- The digits of a decimal in scientific layout. -/
def scientificDigits (d : Decimal) : Text :=
  if -5 ≤ d.leadingPlace ∧ d.leadingPlace < 16 then
    if 0 ≤ d.exponent then d.positional ++ ['.', '0'] else d.positional
  else d.withExponent

/-- A finite number in scientific layout; other numbers have none. -/
def scientific? : Number → Option Text
  | finite negative units _ =>
    some (signText negative ++
      (if units = 0 then ['0', '.', '0'] else scientificDigits (Decimal.shortest .even units)))
  | _ => none

end Number

end Reckoner
