import Reckoner.Number.Basic

/-!
# Arithmetic

Sum, difference, product, quotient and remainder of binary64 numbers, and the
sum of a product and a third number.  Each is the exact result on units, rounded
once; the cases without an exact result follow the rules for infinities, and an
operation without a meaningful result is undefined.  An operation on an
undefined number is undefined, except that the smaller or larger of two numbers
is the other one if one of them is undefined.
-/

namespace Reckoner.Number

/-! ## Signs -/

/-- The number with the opposite sign. -/
def negate : Number → Number
  | nan => nan
  | infinite negative => infinite (!negative)
  | finite negative units h => finite (!negative) units h

/-- The number without its sign. -/
def magnitude : Number → Number
  | nan => nan
  | infinite _ => infinite false
  | finite _ units h => finite false units h

/-! ## Operations -/

/-- The count of units with its sign. -/
def signed (negative : Bool) (units : Nat) : Int :=
  if negative then -(units : Int) else units

/-- The number nearest to a sum of parts of which `den` make a unit.  A sum that
cancels to zero is positive unless both addends are negative. -/
def ofSum (bothNegative : Bool) (sum : Int) (den : Nat) : Number :=
  if sum = 0 then ofRatio bothNegative 0 1 else ofRatio (sum < 0) sum.natAbs den

def add : Number → Number → Number
  | nan, _ => nan
  | _, nan => nan
  | infinite s, infinite t => if s = t then infinite s else nan
  | infinite s, finite .. => infinite s
  | finite .., infinite t => infinite t
  | finite s m _, finite t n _ => ofSum (s && t) (signed s m + signed t n) 1

def subtract (x y : Number) : Number :=
  add x (negate y)

def multiply : Number → Number → Number
  | nan, _ => nan
  | _, nan => nan
  | infinite s, infinite t => infinite (s != t)
  | infinite s, finite t n _ => if n = 0 then nan else infinite (s != t)
  | finite s m _, infinite t => if m = 0 then nan else infinite (s != t)
  | finite s m _, finite t n _ => ofRatio (s != t) (m * n) unitsPerOne

/-- The quotient of two numbers.  A zero divisor yields an infinity, except
under a zero dividend. -/
def divide : Number → Number → Number
  | nan, _ => nan
  | _, nan => nan
  | infinite _, infinite _ => nan
  | infinite s, finite t _ _ => infinite (s != t)
  | finite s _ _, infinite t => ofRatio (s != t) 0 1
  | finite s m _, finite t n _ =>
    if n = 0 then (if m = 0 then nan else infinite (s != t))
    else ofRatio (s != t) (m * unitsPerOne) n

/-- The remainder of the quotient rounded toward zero, with the sign of the
dividend. -/
def remainder : Number → Number → Number
  | nan, _ => nan
  | _, nan => nan
  | infinite _, _ => nan
  | finite s m h, infinite _ => finite s m h
  | finite s m _, finite _ n _ => if n = 0 then nan else ofRatio s (m % n) 1

/-- The sum of the product of two numbers and a third one, rounded once. -/
def multiplyAdd : Number → Number → Number → Number
  | finite s m _, finite t n _, finite u k _ =>
    ofSum ((s != t) && u) (signed (s != t) (m * n) + signed u (k * unitsPerOne)) unitsPerOne
  | finite .., finite .., z => z
  | x, y, z => add (multiply x y) z

/-- The product of a number and a power of two. -/
def scaleTwo : Number → Int → Number
  | nan, _ => nan
  | infinite s, _ => infinite s
  | finite s m _, exponent =>
    ofRatio s (m * Nat.pow 2 exponent.toNat) (Nat.pow 2 (-exponent).toNat)

/-! ## Smaller and larger -/

/-- The smaller of two numbers; of an undefined number and another one, the
other. -/
def min (x y : Number) : Number :=
  if x.isNaN then y else if y.isNaN then x else if y.less x then y else x

/-- The larger of two numbers; of an undefined number and another one, the
other. -/
def max (x y : Number) : Number :=
  if x.isNaN then y else if y.isNaN then x else if x.less y then y else x

end Reckoner.Number
