import Reckoner.Number.Basic

/-!
# Bit patterns

The interchange form of a binary64 number: one bit of sign, eleven of exponent
and 52 of fraction.  A pattern with the largest exponent is an infinity if its
fraction is zero and undefined otherwise; all undefined patterns stand for one
number, which is written as the quiet pattern with an empty payload.
-/

namespace Reckoner.Number

def ofBits (pattern : UInt64) : Number :=
  let negative := pattern.toNat / Nat.pow 2 63 == 1
  let exponent := pattern.toNat / Nat.pow 2 52 % Nat.pow 2 11
  let fraction := pattern.toNat % Nat.pow 2 52
  if exponent = 2047 then (if fraction = 0 then infinite negative else nan)
  else if exponent = 0 then ofRatio negative fraction 1
  else ofRatio negative ((Nat.pow 2 52 + fraction) * Nat.pow 2 (exponent - 1)) 1

/-- The exponent and fraction fields of a count of units, as one number.  A
count with 53 significant bits carries its leading bit into the exponent. -/
def magnitudeField (units : Nat) : Nat :=
  let shift := units.log2 - 52
  units / Nat.pow 2 shift + shift * Nat.pow 2 52

def toBits : Number → UInt64
  | nan => 0x7FF8000000000000
  | infinite negative => (if negative then 0x8000000000000000 else 0) + 0x7FF0000000000000
  | finite negative units _ =>
    (if negative then 0x8000000000000000 else 0) + UInt64.ofNat (magnitudeField units)

end Reckoner.Number
