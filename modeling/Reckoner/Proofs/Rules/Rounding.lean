import Mathlib.Data.Rat.Floor
import Reckoner.Proofs.Number.Nearest
import Reckoner.Proofs.Rules.Words

/-!
# The rounding of operands

An integer rule rounds an operand by adding one half and taking the floor.  The sum is a number
of the format, so it is rounded too, and that might carry it up to a whole number that the exact
sum stays below.  It does so for one operand only, the largest number below one half
(`Number.belowHalf`): its sum with one half lies midway between two numbers of the format, of
which the even one is 1.  Every other operand goes to the nearest whole number, and of two as near
to the larger one.

The argument is about units.  No number of the format lies between a sum and what it is rounded to
(`RoundsTo`), so it is enough to find one between the exact sum and the next whole number.

* A positive operand from one half on leaves its sum on its own grid, or the sum has just passed a
  power of two, and that power and one half are a number of the format
  (`representable_or_carry`).
* A positive operand below one half leaves room for one, except the largest of them
  (`add_two_mul_le`).
* A negative operand below minus one half is larger in magnitude than its sum, so the sum stays on
  its grid and is exact (`representable_sub_half`).
* Beyond the words nothing has to be found: both sums lie beyond them.
-/

namespace Reckoner

/-! ## Nearest whole numbers -/

/-- A whole number is nearest to a value, and the larger one if two are as near. -/
def IsNearestInt (value : ℚ) (i : ℤ) : Prop :=
  ∀ j ≠ i, |value - i| < |value - j| ∨ |value - i| = |value - j| ∧ j < i

theorem isNearestInt_floor (value : ℚ) : IsNearestInt value ⌊value + 1 / 2⌋ := by
  intro j hj
  have hlow := Int.floor_le (value + 1 / 2)
  have hhigh := Int.lt_floor_add_one (value + 1 / 2)
  generalize ⌊value + 1 / 2⌋ = i at hj hlow hhigh
  have habs : |value - i| ≤ 1 / 2 := by
    rw [abs_le]
    constructor <;> linarith
  rcases lt_or_gt_of_ne hj with hless | hmore
  · have hapart : (j : ℚ) + 1 ≤ i := by exact_mod_cast hless
    rw [abs_of_nonneg (show 0 ≤ value - j by linarith)]
    rcases (habs.trans (show 1 / 2 ≤ value - j by linarith)).lt_or_eq with hlt | heq
    · exact .inl hlt
    · exact .inr ⟨heq, hless⟩
  · have hapart : (i : ℚ) + 1 ≤ j := by exact_mod_cast hmore
    left
    rw [abs_of_nonpos (show value - j ≤ 0 by linarith)]
    linarith

/-- **The floor of a value and one half is the one nearest whole number.** -/
theorem isNearestInt_iff {value : ℚ} {i : ℤ} : IsNearestInt value i ↔ i = ⌊value + 1 / 2⌋ := by
  refine ⟨fun hi => ?_, fun hi => hi ▸ isNearestInt_floor value⟩
  by_contra hne
  -- each would have to be nearer than the other, or larger
  rcases hi _ (Ne.symm hne) with hlt | ⟨heq, hless⟩ <;>
    rcases isNearestInt_floor value _ hne with hlt' | ⟨heq', hless'⟩
  · exact lt_asymm hlt hlt'
  · exact hlt.ne heq'.symm
  · exact hlt'.ne heq.symm
  · exact lt_asymm hless hless'

/-! ## Amounts that are rounded -/

/-- An amount of units is rounded to another one, and no number of the format lies between the
two. -/
structure RoundsTo (amount size : Nat) : Prop where
  le {bound : Nat} (hbound : Representable bound) (hle : amount ≤ bound) : size ≤ bound
  ge {bound : Nat} (hbound : Representable bound) (hge : bound ≤ amount) : bound ≤ size

theorem RoundsTo.eq {amount size : Nat} (hrounds : RoundsTo amount size)
    (hamount : Representable amount) : size = amount :=
  Nat.le_antisymm (hrounds.le hamount (Nat.le_refl _)) (hrounds.ge hamount (Nat.le_refl _))

/-- The nearest number of the format has every other one on the same side, and so has the limit
of the finite numbers, which stands for those beyond it. -/
theorem roundsTo_min (amount : Nat) : RoundsTo amount (min (nearestUnits amount 1) unitLimit) := by
  have hnearest : IsNearest amount (nearestUnits amount 1) := by
    simpa only [Nat.cast_one, div_one] using isNearest_nearestUnits one_pos
  constructor
  · intro bound hbound hle
    exact Nat.le_trans (Nat.min_le_left _ _) (hnearest.le hbound.2 (Nat.cast_le.mpr hle))
  · intro bound hbound hge
    exact Nat.le_min.mpr ⟨hnearest.ge hbound.2 (Nat.cast_le.mpr hge), Nat.le_of_lt hbound.1⟩

namespace Number

theorem exists_rank_ofRatio (negative : Bool) (amount : Nat) :
    ∃ size, (ofRatio negative amount 1).rank = some (signed negative size) ∧
      RoundsTo amount size := by
  refine ⟨_, ?_, roundsTo_min amount⟩
  unfold ofRatio
  split
  · next hlt =>
    rw [Nat.min_eq_left (Nat.le_of_lt hlt)]
    rfl
  · next hge =>
    rw [Nat.min_eq_right (Nat.not_lt.mp hge)]
    rfl

/-- A sum is rounded to a count of units with its sign. -/
theorem exists_rank_ofSum (bothNegative : Bool) (sum : Int) :
    ∃ size, (ofSum bothNegative sum 1).rank = some (signed (decide (sum < 0)) size) ∧
      RoundsTo sum.natAbs size := by
  unfold ofSum
  split
  · next hzero =>
    subst hzero
    obtain ⟨size, hrank, hrounds⟩ := exists_rank_ofRatio bothNegative 0
    obtain rfl : size = 0 := hrounds.eq (by decide +kernel)
    refine ⟨0, ?_, hrounds⟩
    rw [hrank]
    cases bothNegative <;> rfl
  · exact exists_rank_ofRatio _ _

end Number

/-! ## Operands and one half -/

section Units

open Number

theorem pow_mul_unitsPerOne (k : Nat) : Nat.pow 2 k * unitsPerOne = 2 ^ (k + unitExponent) := by
  unfold unitsPerOne
  rw [Nat.pow_eq, Nat.pow_eq, Nat.pow_add]

theorem unitsPerHalf_eq_pow : unitsPerHalf = 2 ^ (unitExponent - 1) := by
  unfold unitsPerHalf
  rw [Nat.pow_eq]

theorem log2_lt_add_unitExponent {units k : Nat} (hpos : units ≠ 0)
    (hlt : units < Nat.pow 2 k * unitsPerOne) : units.log2 < k + unitExponent := by
  rw [pow_mul_unitsPerOne] at hlt
  exact (Nat.log2_lt hpos).mpr hlt

theorem gridAt_dvd_unitsPerHalf {units : Nat} (hlt : units < Nat.pow 2 32 * unitsPerOne) :
    gridAt units ∣ unitsPerHalf := by
  rcases Nat.eq_zero_or_pos units with rfl | hpos
  · exact Nat.one_dvd _
  have hlog := log2_lt_add_unitExponent (Nat.ne_of_gt hpos) hlt
  rw [gridAt, Nat.pow_eq, unitsPerHalf_eq_pow]
  exact Nat.pow_dvd_pow 2 (by omega)

/-- The largest number of the format below a power of two stands alone on the last two places of
the grid there. -/
theorem add_two_mul_le {units shift : Nat} (hgrid : gridAt units ∣ units)
    (hlt : units < 2 ^ (53 + shift)) (hne : units ≠ (Nat.pow 2 53 - 1) * Nat.pow 2 shift) :
    units + 2 * Nat.pow 2 shift ≤ 2 ^ (53 + shift) := by
  obtain ⟨n, hn, hnext⟩ : ∃ n, units ≤ n * 2 ^ shift ∧ n + 2 ≤ Nat.pow 2 53 := by
    by_cases hlow : units < 2 ^ (52 + shift)
    · rw [Nat.pow_add] at hlow
      exact ⟨2 ^ 52, Nat.le_of_lt hlow, by decide⟩
    · have hpos : units ≠ 0 := fun hzero => hlow (hzero ▸ Nat.two_pow_pos _)
      have hlog : units.log2 = 52 + shift :=
        (Nat.log2_eq_iff hpos).mpr ⟨Nat.not_lt.mp hlow, by rwa [Nat.add_right_comm]⟩
      rw [gridAt, hlog, Nat.add_sub_cancel_left] at hgrid
      obtain ⟨n, rfl⟩ := hgrid
      rw [Nat.mul_comm] at hlt hne
      rw [Nat.pow_add] at hlt
      have hbelow : n < Nat.pow 2 53 := Nat.lt_of_mul_lt_mul_right hlt
      have hother : n ≠ Nat.pow 2 53 - 1 := fun hn => hne (hn ▸ rfl)
      exact ⟨n, Nat.le_of_eq (Nat.mul_comm _ _), by omega⟩
  calc
    units + 2 * Nat.pow 2 shift ≤ n * 2 ^ shift + 2 * 2 ^ shift := Nat.add_le_add_right hn _
    _ = (n + 2) * 2 ^ shift := (Nat.add_mul n 2 _).symm
    _ ≤ 2 ^ 53 * 2 ^ shift := Nat.mul_le_mul_right _ hnext
    _ = 2 ^ (53 + shift) := (Nat.pow_add 2 53 shift).symm

/-- From one half on, an operand leaves its sum on its own grid, or the sum has just passed a power
of two. -/
theorem representable_or_carry {units : Nat} (hunits : Representable units)
    (hge : unitsPerHalf ≤ units) (hlt : units < Nat.pow 2 31 * unitsPerOne) :
    Representable (units + unitsPerHalf) ∨
      ∃ n < Nat.pow 2 32, n * unitsPerOne ≤ units + unitsPerHalf ∧
        units + unitsPerHalf ≤ n * unitsPerOne + unitsPerHalf := by
  have hpos : units ≠ 0 := Nat.ne_of_gt (Nat.lt_of_lt_of_le unitsPerHalf_pos hge)
  have hlow : Nat.pow 2 units.log2 ≤ units := Nat.log2_self_le hpos
  have hhigh : units < 2 ^ (units.log2 + 1) := Nat.lt_log2_self
  have hone : unitExponent - 1 ≤ units.log2 := by
    rw [unitsPerHalf_eq_pow] at hge
    exact (Nat.le_log2 hpos).mpr hge
  have hwords := log2_lt_add_unitExponent hpos hlt
  by_cases hcarry : units + unitsPerHalf < 2 ^ (units.log2 + 1)
  · left
    have hlog : (units + unitsPerHalf).log2 = units.log2 :=
      (Nat.log2_eq_iff (by omega)).mpr ⟨Nat.le_trans hlow (Nat.le_add_right _ _), hcarry⟩
    have hwide : Nat.pow 2 31 * unitsPerOne ≤ Nat.pow 2 32 * unitsPerOne := by decide +kernel
    have hlimit : Nat.pow 2 31 * unitsPerOne + unitsPerHalf ≤ unitLimit := by decide +kernel
    refine ⟨by omega, ?_⟩
    rw [gridAt, hlog]
    exact Nat.dvd_add hunits.2 (gridAt_dvd_unitsPerHalf (Nat.lt_of_lt_of_le hlt hwide))
  · right
    have hpower : Nat.pow 2 (units.log2 + 1 - unitExponent) * unitsPerOne =
        2 ^ (units.log2 + 1) := by
      rw [pow_mul_unitsPerOne, Nat.sub_add_cancel (by omega)]
    refine ⟨Nat.pow 2 (units.log2 + 1 - unitExponent), ?_, ?_, ?_⟩
    · exact Nat.pow_lt_pow_right (by omega) (by omega)
    · omega
    · omega

/-- The sum of a negative operand is smaller in magnitude, and stays on its grid. -/
theorem representable_sub_half {units : Nat} (hunits : Representable units)
    (hlt : units < Nat.pow 2 32 * unitsPerOne) : Representable (units - unitsPerHalf) := by
  refine ⟨Nat.lt_of_le_of_lt (Nat.sub_le _ _) hunits.1, ?_⟩
  exact Nat.dvd_trans (gridAt_dvd_gridAt (Nat.sub_le _ _))
    (Nat.dvd_sub hunits.2 (gridAt_dvd_unitsPerHalf hlt))

end Units

namespace Number

/-- The units of the largest number below one half. -/
def unitsBelowHalf : Nat := (Nat.pow 2 53 - 1) * Nat.pow 2 1020

def belowHalf : Number :=
  finite false unitsBelowHalf (by decide +kernel)

example : ofBits 0x3FDFFFFFFFFFFFFF = belowHalf := by
  decide +kernel

/-- The exact value of a finite number.  The other numbers have none. -/
def value : Number → ℚ
  | finite negative units _ => signed negative units / unitsPerOne
  | _ => 0

end Number

/-! ## Rounded sums -/

section Sums

open Number (signed unitsPerHalf unitsPerHalf_pos unitsPerOne_eq_two_mul unitsBelowHalf
  representable_half representable_halves)

variable {units amount size : Nat}

/-- A number of the format between an exact sum and the next whole number keeps the rounded sum
below that. -/
theorem RoundsTo.div_eq (hrounds : RoundsTo amount size) {bound : Nat}
    (hbound : Representable bound) (hle : amount ≤ bound)
    (hwhole : bound / unitsPerOne ≤ amount / unitsPerOne)
    (hbits : amount / unitsPerOne < Nat.pow 2 53) : size / unitsPerOne = amount / unitsPerOne := by
  have hlow := hrounds.ge (representable_whole hbits) (Nat.div_mul_le_self _ _)
  have hhigh := Nat.div_le_div_right (c := unitsPerOne) (hrounds.le hbound hle)
  exact Nat.le_antisymm (Nat.le_trans hhigh hwhole)
    ((Nat.le_div_iff_mul_le unitsPerOne_pos).mpr hlow)

theorem whole_add_half_div (n : Nat) : (n * unitsPerOne + unitsPerHalf) / unitsPerOne = n := by
  have hlt : unitsPerHalf < unitsPerOne := by decide +kernel
  rw [Nat.mul_comm, Nat.mul_add_div unitsPerOne_pos, Nat.div_eq_of_lt hlt, Nat.add_zero]

theorem representable_whole_add_half {n : Nat} (hn : 2 * n + 1 < Nat.pow 2 53) :
    Representable (n * unitsPerOne + unitsPerHalf) := by
  have hodd : n * unitsPerOne + unitsPerHalf = (2 * n + 1) * unitsPerHalf := by
    rw [unitsPerOne_eq_two_mul]
    ring
  rw [hodd]
  exact representable_halves hn

/-- Every operand but one leaves room for a number of the format between its sum with one half and
the next whole number. -/
theorem exists_representable (hunits : Representable units) (hne : units ≠ unitsBelowHalf)
    (hlt : units < Nat.pow 2 31 * unitsPerOne) :
    ∃ bound, Representable bound ∧ units + unitsPerHalf ≤ bound ∧
      bound / unitsPerOne ≤ (units + unitsPerHalf) / unitsPerOne := by
  have hhalf := unitsPerOne_eq_two_mul
  rcases Nat.lt_or_ge units unitsPerHalf with hbelow | hge
  · have hexponent : unitExponent - 1 = 53 + 1020 := rfl
    have hpower : unitsPerHalf = 2 ^ (53 + 1020) := by
      rw [unitsPerHalf_eq_pow, hexponent]
    have hbound : Representable (unitsPerOne - 2 * Nat.pow 2 1020) := by decide +kernel
    unfold unitsBelowHalf at hne
    -- from here on the exponent is as good as any other one
    generalize 1020 = shift at hpower hbound hne
    have hroom := add_two_mul_le hunits.2 (hpower ▸ hbelow) hne
    rw [← hpower] at hroom
    have hgrid : 0 < Nat.pow 2 shift := Nat.two_pow_pos _
    refine ⟨_, hbound, by omega, ?_⟩
    rw [Nat.div_eq_of_lt (by omega)]
    exact Nat.zero_le _
  · rcases representable_or_carry hunits hge hlt with hsum | ⟨n, hn, hlow, hhigh⟩
    · exact ⟨_, hsum, Nat.le_refl _, Nat.le_refl _⟩
    · have hbits : 2 * Nat.pow 2 32 < Nat.pow 2 53 := by decide
      refine ⟨_, representable_whole_add_half (by omega), hhigh, ?_⟩
      rw [whole_add_half_div]
      exact (Nat.le_div_iff_mul_le unitsPerOne_pos).mpr hlow

/-- Up to the largest word, the rounded sum of a positive operand has the whole part of the exact
one. -/
theorem min_div_eq (hunits : Representable units) (hne : units ≠ unitsBelowHalf)
    (hrounds : RoundsTo (units + unitsPerHalf) size) :
    min 2147483647 (size / unitsPerOne) =
      min 2147483647 ((units + unitsPerHalf) / unitsPerOne) := by
  rcases Nat.lt_or_ge units (Nat.pow 2 31 * unitsPerOne) with hlt | hge
  · obtain ⟨bound, hbound, hle, hnext⟩ := exists_representable hunits hne hlt
    have hbits : (units + unitsPerHalf) / unitsPerOne < Nat.pow 2 53 := by
      rw [Nat.div_lt_iff_lt_mul unitsPerOne_pos]
      have hwide : Nat.pow 2 31 * unitsPerOne + unitsPerHalf ≤ Nat.pow 2 53 * unitsPerOne := by
        decide +kernel
      omega
    rw [hrounds.div_eq hbound hle hnext hbits]
  · -- beyond the words
    have hsize : Nat.pow 2 31 * unitsPerOne ≤ size :=
      hrounds.ge (representable_whole (by decide)) (by omega)
    have hsum : Nat.pow 2 31 * unitsPerOne ≤ units + unitsPerHalf := by omega
    rw [← Nat.le_div_iff_mul_le unitsPerOne_pos] at hsize hsum
    have : Nat.pow 2 31 = 2147483648 := by decide
    omega

/-- From the smallest word on, the rounded sum of a negative operand has the whole part of the exact
one: it is exact. -/
theorem max_div_eq (hunits : Representable units) (hge : unitsPerHalf ≤ units)
    (hrounds : RoundsTo (units - unitsPerHalf) size) :
    max (-2147483648) (-(size : ℤ) / unitsPerOne) =
      max (-2147483648) (-((units - unitsPerHalf : ℕ) : ℤ) / unitsPerOne) := by
  rcases Nat.lt_or_ge units (Nat.pow 2 32 * unitsPerOne) with hlt | hfar
  · rw [hrounds.eq (representable_sub_half hunits hlt)]
  · -- beyond the words
    have hpos : (0 : ℤ) < unitsPerOne := by exact_mod_cast unitsPerOne_pos
    have hwide : Nat.pow 2 31 * unitsPerOne + unitsPerHalf ≤ Nat.pow 2 32 * unitsPerOne := by
      decide +kernel
    have hsum : Nat.pow 2 31 * unitsPerOne ≤ units - unitsPerHalf := by omega
    have hsize : Nat.pow 2 31 * unitsPerOne ≤ size :=
      hrounds.ge (representable_whole (by decide)) hsum
    have hend {n : Nat} (hn : Nat.pow 2 31 * unitsPerOne ≤ n) :
        -(n : ℤ) / unitsPerOne ≤ -2147483648 := by
      have hword : Nat.pow 2 31 = 2147483648 := by decide
      rw [hword] at hn
      refine Int.ediv_le_of_le_mul hpos ?_
      rw [neg_mul, neg_le_neg_iff]
      exact_mod_cast hn
    rw [max_eq_left (hend hsize), max_eq_left (hend hsum)]

/-- Between the ends of the words, the rounded sum has the whole part of the exact one. -/
theorem clamped_div_eq {negative : Bool} (hunits : Representable units)
    (hne : negative = false → units ≠ unitsBelowHalf) {sum : ℤ}
    (hsum : sum = signed negative units + unitsPerHalf) (hrounds : RoundsTo sum.natAbs size) :
    max (-2147483648) (min 2147483647 (signed (decide (sum < 0)) size / (unitsPerOne : ℤ))) =
      max (-2147483648) (min 2147483647 (sum / (unitsPerOne : ℤ))) := by
  cases negative with
  | false =>
    replace hsum : sum = (units + unitsPerHalf : ℕ) := hsum
    rw [hsum] at hrounds
    have hmin := min_div_eq hunits (hne rfl) hrounds
    rw [decide_eq_false (by omega), hsum]
    show max _ (min _ ((size : ℤ) / _)) = _
    rw [← Int.natCast_ediv, ← Int.natCast_ediv]
    omega
  | true =>
    replace hsum : sum = -(units : ℤ) + unitsPerHalf := hsum
    rcases Nat.lt_or_ge unitsPerHalf units with hbeyond | hle
    · replace hsum : sum = -((units - unitsPerHalf : ℕ) : ℤ) := by omega
      rw [hsum, Int.natAbs_neg, Int.natAbs_natCast] at hrounds
      rw [decide_eq_true (by omega), hsum]
      show max _ (min _ (-(size : ℤ) / _)) = _
      rw [max_min_distrib_left, max_min_distrib_left,
        max_div_eq hunits (Nat.le_of_lt hbeyond) hrounds]
    · replace hsum : sum = (unitsPerHalf - units : ℕ) := by omega
      rw [hsum] at hrounds
      have hsmall : unitsPerHalf < unitsPerOne := by decide +kernel
      have hsize := hrounds.le representable_half (Nat.sub_le _ _)
      rw [decide_eq_false (by omega), hsum]
      show max _ (min _ ((size : ℤ) / _)) = _
      rw [Int.ediv_eq_zero_of_lt (by omega) (by omega),
        Int.ediv_eq_zero_of_lt (by omega) (by omega)]

end Sums

/-! ## Words -/

/-- A word beyond the range is its end. -/
theorem Word.toInt_clamp (i : ℤ) : (clamp i).toInt = max (-2147483648) (min 2147483647 i) := by
  unfold clamp
  rw [BitVec.toInt_ofInt_eq_self (by decide) (by split <;> omega) (by split <;> omega)]
  omega

namespace Number

theorem isNaN_of_isFinite {x : Number} (hx : x.isFinite = true) : x.isNaN = false := by
  cases x with
  | finite => rfl
  | nan | infinite => exact absurd hx nofun

theorem floor_value_add_half {negative : Bool} {units : Nat} (hunits : Representable units) :
    ⌊(finite negative units hunits).value + 1 / 2⌋ =
      (signed negative units + unitsPerHalf) / unitsPerOne := by
  have hne : (unitsPerHalf : ℚ) ≠ 0 := Nat.cast_ne_zero.mpr (Nat.ne_of_gt unitsPerHalf_pos)
  have hhalf : (unitsPerHalf : ℚ) / unitsPerOne = 1 / 2 := by
    rw [unitsPerOne_eq_two_mul, Nat.cast_mul, ← div_div, div_right_comm, div_self hne,
      Nat.cast_ofNat]
  have hsum : (finite negative units hunits).value + 1 / 2 =
      ((signed negative units + unitsPerHalf : ℤ) : ℚ) / (unitsPerOne : ℕ) := by
    rw [Int.cast_add, Int.cast_natCast, add_div, hhalf, value]
  rw [hsum, Rat.floor_intCast_div_natCast]

end Number

section Operands

open Number (belowHalf half_eq_finite exists_rank_ofSum signed unitsPerHalf)

variable {x : Number}

/-- **Every finite operand but one is rounded as its exact sum with one half would be.** -/
theorem toInt_toWord (hx : x.isFinite = true) (hne : x ≠ belowHalf) :
    x.toWord.toInt = max (-2147483648) (min 2147483647 ⌊x.value + 1 / 2⌋) := by
  obtain _ | _ | ⟨negative, units, hunits⟩ := x
  · exact absurd hx nofun
  · exact absurd hx nofun
  obtain ⟨hhalf, heq⟩ := half_eq_finite
  obtain ⟨size, hrank, hrounds⟩ :=
    exists_rank_ofSum (negative && false) (signed negative units + signed false unitsPerHalf)
  rw [Number.toWord, Number.floor, heq, Number.add, hrank, Word.toInt_clamp,
    Number.floor_value_add_half]
  show max _ (min _ (Int.fdiv _ _)) = _
  rw [Int.fdiv_eq_ediv_of_nonneg _ (Int.natCast_nonneg _)]
  refine clamped_div_eq hunits ?_ rfl hrounds
  intro hpositive hlow
  refine hne ?_
  rw [belowHalf, Number.finite.injEq]
  exact ⟨hpositive, hlow⟩

/-- What an integer rule makes of a finite operand: a word, which takes the place of the operand on
either side. -/
structure OperandRounding (x : Number) : Prop where
  /-- The sum with one half leads to the one nearest whole number. -/
  nearest {i : ℤ} : IsNearestInt x.value i ↔ i = ⌊x.value + 1 / 2⌋
  word (hne : x ≠ belowHalf) :
    x.toWord.toInt = max (-2147483648) (min 2147483647 ⌊x.value + 1 / 2⌋)
  /-- The sum is rounded up to a whole number that it stays below. -/
  carried (hx : x = belowHalf) : x.toWord.toInt = 1 ∧ ⌊x.value + 1 / 2⌋ = 0
  rule (operation : WordOperation) {y : Number} (hy : y.isNaN = false) :
    operation.rule x y = .ok (.ofWord (operation.run x.toWord y.toWord)) ∧
      operation.rule y x = .ok (.ofWord (operation.run y.toWord x.toWord))
  complement : Rules.bitNot [x] = .ok (.ofWord (~~~x.toWord))

theorem floor_belowHalf_value : ⌊belowHalf.value + 1 / 2⌋ = 0 := by
  rw [belowHalf, Number.floor_value_add_half]
  decide +kernel

theorem toInt_toWord_belowHalf : belowHalf.toWord.toInt = 1 := by
  decide +kernel

/-- **The integer rules round every finite operand but the largest number below one half to the
nearest whole number**, of two as near to the larger one, and to the end of the words if it lies
beyond them. -/
theorem operandRounding (hx : x.isFinite = true) : OperandRounding x where
  nearest := isNearestInt_iff
  word hne := toInt_toWord hx hne
  carried hlow := hlow ▸ ⟨toInt_toWord_belowHalf, floor_belowHalf_value⟩
  rule operation _ hy :=
    ⟨operation.rule_eq (Number.isNaN_of_isFinite hx) hy,
      operation.rule_eq hy (Number.isNaN_of_isFinite hx)⟩
  complement := Rules.bitNot_eq (Number.isNaN_of_isFinite hx)

/-- A negative operand between two whole numbers, -2.5. -/
theorem operandRounding_tie :
    (Number.ofBits 0xC004000000000000).toWord = -2 ∧
      (Number.ofBits 0xC004000000000000).toWord.toInt =
        max (-2147483648) (min 2147483647 ⌊(Number.ofBits 0xC004000000000000).value + 1 / 2⌋) :=
  ⟨by decide +kernel, (operandRounding (by decide +kernel)).word (by decide +kernel)⟩

/-- The largest number below one half is taken for 1, and the nearest whole number is 0. -/
theorem not_toInt_toWord_belowHalf :
    belowHalf.isFinite = true ∧ Rules.bitNot [belowHalf] = .ok (.ofWord (~~~1)) ∧
      belowHalf.toWord.toInt ≠ max (-2147483648) (min 2147483647 ⌊belowHalf.value + 1 / 2⌋) := by
  refine ⟨rfl, by decide +kernel, ?_⟩
  rw [floor_belowHalf_value, toInt_toWord_belowHalf]
  decide

end Operands

end Reckoner
