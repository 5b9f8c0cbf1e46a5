/-!
# Binary64 numbers

A finite number of the format is a whole number of *units* of 2⁻¹⁰⁷⁴, the
distance between the smallest neighbours of the format, with a sign that zero
has as well.  Below 2⁵³ units every count is a number of the format; above, a
count must be divisible by the power of two that leaves it 53 significant bits.
The largest number lies just below 2²⁰⁹⁸ units.

All arithmetic is exact arithmetic on units followed by one rounding, so this
module holds the type and that rounding: to the nearest number of the format,
a tie to the one with an even significand, and to an infinity from 2²⁰⁹⁸ units
on.
-/

namespace Reckoner

/-! ## The format -/

/-- The binary logarithm of the number of units in 1. -/
def unitExponent : Nat := 1074

/-- The number of units in 1. -/
def unitsPerOne : Nat := Nat.pow 2 unitExponent

/-- The first count of units beyond the finite numbers. -/
def unitLimit : Nat := Nat.pow 2 2098

/-- The distance of neighbouring numbers of the format around a count of
units. -/
def gridAt (units : Nat) : Nat := Nat.pow 2 (units.log2 - 52)

/-- The counts of units that are numbers of the format. -/
def Representable (units : Nat) : Prop :=
  units < unitLimit ∧ gridAt units ∣ units

instance (units : Nat) : Decidable (Representable units) :=
  inferInstanceAs (Decidable (_ ∧ _))

inductive Number
  /-- The result of an undefined operation. -/
  | nan
  | infinite (negative : Bool)
  /-- A finite number, as its sign and its magnitude in units. -/
  | finite (negative : Bool) (units : Nat) (representable : Representable units)
  deriving DecidableEq

/-! ## Rounding -/

/-- The whole number nearest to `num / den`, a tie to the even one. -/
def roundDiv (num den : Nat) : Nat :=
  let quotient := num / den
  let rest := num % den
  if 2 * rest < den then quotient
  else if den < 2 * rest then quotient + 1
  else quotient + quotient % 2

/-- The number of units nearest to `num / den` among the counts with at most 53
significant bits, a tie to the even significand. -/
def nearestUnits (num den : Nat) : Nat :=
  roundDiv num (den * gridAt (num / den)) * gridAt (num / den)

theorem roundDiv_le_succ (num den : Nat) : roundDiv num den ≤ num / den + 1 := by
  have hparity := Nat.mod_lt (num / den) (show 2 > 0 by omega)
  simp only [roundDiv]
  split
  · omega
  · split <;> omega

/-- Rounding stays on the grid: what it yields has at most 53 significant
bits. -/
theorem gridAt_nearestUnits_dvd (num den : Nat) :
    gridAt (nearestUnits num den) ∣ nearestUnits num den := by
  unfold nearestUnits
  generalize hq : num / den = q
  have hgrid : gridAt q = 2 ^ (q.log2 - 52) := rfl
  have hround : roundDiv num (den * gridAt q) ≤ 2 ^ 53 := by
    have hle := roundDiv_le_succ num (den * gridAt q)
    have hdiv : num / (den * gridAt q) < 2 ^ 53 := by
      rw [← Nat.div_div_eq_div_mul, hq,
        Nat.div_lt_iff_lt_mul (by rw [hgrid]; exact Nat.two_pow_pos _), hgrid, ← Nat.pow_add]
      exact Nat.lt_of_lt_of_le Nat.lt_log2_self (Nat.pow_le_pow_right (by omega) (by omega))
    omega
  generalize roundDiv num (den * gridAt q) = r at hround
  rw [hgrid]
  by_cases hr : r = 2 ^ 53
  · subst hr
    rw [← Nat.pow_add]
    unfold gridAt
    rw [Nat.log2_two_pow]
    exact Nat.pow_dvd_pow 2 (by omega)
  · by_cases hzero : r * 2 ^ (q.log2 - 52) = 0
    · rw [hzero]
      exact Nat.dvd_zero _
    · have hlog : (r * 2 ^ (q.log2 - 52)).log2 < 53 + (q.log2 - 52) := by
        rw [Nat.log2_lt hzero, Nat.pow_add]
        exact Nat.mul_lt_mul_of_pos_right (by omega) (Nat.two_pow_pos _)
      unfold gridAt
      exact Nat.dvd_trans (Nat.pow_dvd_pow 2 (by omega)) (Nat.dvd_mul_left _ _)

namespace Number

/-- The number nearest to `num / den` units, with the given sign. -/
def ofRatio (negative : Bool) (num den : Nat) : Number :=
  if h : nearestUnits num den < unitLimit then
    finite negative (nearestUnits num den) ⟨h, gridAt_nearestUnits_dvd num den⟩
  else infinite negative

/-! ## Constants and classes -/

def zero : Number := ofRatio false 0 1

def one : Number := ofRatio false unitsPerOne 1

def half : Number := ofRatio false unitsPerOne 2

/-- The number nearest to a whole number. -/
def ofInt (i : Int) : Number :=
  ofRatio (i < 0) (i.natAbs * unitsPerOne) 1

def isNaN : Number → Bool
  | nan => true
  | _ => false

/-- Whether a number is neither undefined nor infinite. -/
def isFinite : Number → Bool
  | finite .. => true
  | _ => false

/-- Whether a number is a zero of either sign. -/
def isZero : Number → Bool
  | finite _ units _ => units == 0
  | _ => false

/-! ## Order -/

/-- A whole number with the order of the numbers of the format: the count of
units with its sign, and the limit of the finite numbers for an infinity.  The
two zeros have one rank, and an undefined number has none. -/
def rank : Number → Option Int
  | nan => none
  | infinite negative => some (if negative then -(unitLimit : Int) else unitLimit)
  | finite negative units _ => some (if negative then -(units : Int) else units)

/-- Whether two numbers compare as a relation of whole numbers says; never if
one of them is undefined. -/
def compareBy (relation : Int → Int → Bool) (x y : Number) : Bool :=
  match x.rank, y.rank with
  | some a, some b => relation a b
  | _, _ => false

/-- Whether two numbers are equal: the zeros are, undefined numbers never. -/
def equals : Number → Number → Bool := compareBy (fun a b => a == b)

def less : Number → Number → Bool := compareBy (fun a b => a < b)

def lessOrEqual : Number → Number → Bool := compareBy (fun a b => a ≤ b)

end Number

end Reckoner
