import Mathlib.Algebra.Order.Field.Rat
import Mathlib.Data.Nat.Cast.Order.Field
import Mathlib.Tactic.Linarith
import Mathlib.Tactic.Positivity
import Mathlib.Tactic.Ring
import Reckoner.Proofs.Number.Rounding

/-!
# Rounding takes the nearest number

The format is a grid that gets coarser with the magnitude.  An exact amount of units is rounded on
the grid around its whole part, so two things have to be seen.

* On one grid a quotient is rounded to the nearest whole number, and of two as near to the even
  one (`roundDiv_nearer`).
* A number of the format that does not stand on this grid is smaller than all amounts around, and
  the power of two between them is nearer (`dvd_or_lt`).

`IsNearest` says what the nearest number of the format is and does not mention how it is found.
There is only one (`IsNearest.eq`): of two as near one would have an odd significand, or another
number would stand between them.
-/

namespace Reckoner

/-! ## Whole numbers -/

section Quotients

variable {num den : Nat}

/-- Rounding to a whole number is off by less than a half, or by a half and the result is even. -/
theorem abs_sub_roundDiv (hden : 0 < den) :
    |(num : ℚ) / den - roundDiv num den| < 1 / 2 ∨
      |(num : ℚ) / den - roundDiv num den| = 1 / 2 ∧ Even (roundDiv num den) := by
  have hpos : (0 : ℚ) < den := by exact_mod_cast hden
  have hsplit : (num : ℚ) / den = (num / den : ℕ) + (num % den : ℕ) / den := by
    have hnum : (num : ℚ) = den * (num / den : ℕ) + (num % den : ℕ) := by
      exact_mod_cast (Nat.div_add_mod num den).symm
    rw [hnum, add_div, mul_div_cancel_left₀ _ hpos.ne']
  have hrest : ((num % den : ℕ) : ℚ) < den := by exact_mod_cast Nat.mod_lt num hden
  have hnonneg : (0 : ℚ) ≤ (num % den : ℕ) / den := by positivity
  have hlt : ((num % den : ℕ) : ℚ) / den < 1 := (div_lt_one hpos).mpr hrest
  simp only [roundDiv, hsplit]
  -- the rest against a half of the divisor, as in the definition
  split
  · next hbelow =>
    have hbelow : ((num % den : ℕ) : ℚ) / den < 1 / 2 := by
      rw [div_lt_div_iff₀ hpos two_pos]
      exact_mod_cast (by omega : num % den * 2 < 1 * den)
    left
    rw [abs_lt]
    constructor <;> linarith
  split
  · next habove =>
    have habove : 1 / 2 < ((num % den : ℕ) : ℚ) / den := by
      rw [div_lt_div_iff₀ two_pos hpos]
      exact_mod_cast (by omega : 1 * den < num % den * 2)
    left
    push_cast
    rw [abs_lt]
    constructor <;> linarith
  · have hhalf : ((num % den : ℕ) : ℚ) / den = 1 / 2 := by
      rw [div_eq_div_iff hpos.ne' two_ne_zero]
      exact_mod_cast (by omega : num % den * 2 = 1 * den)
    right
    rw [hhalf]
    rcases Nat.even_or_odd (num / den) with heven | hodd
    · rw [Nat.even_iff.mp heven]
      simpa using heven
    · rw [Nat.odd_iff.mp hodd]
      exact ⟨by push_cast; rw [abs_eq (by norm_num)]; right; ring, hodd.add_one⟩

/-- **Rounding to a whole number takes the nearest one**, and of two as near the even one. -/
theorem roundDiv_nearer (hden : 0 < den) {k : Nat} (hne : k ≠ roundDiv num den) :
    |(num : ℚ) / den - roundDiv num den| < |(num : ℚ) / den - k| ∨
      |(num : ℚ) / den - roundDiv num den| = |(num : ℚ) / den - k| ∧ Even (roundDiv num den) := by
  have hapart : (1 : ℚ) ≤ |(roundDiv num den : ℚ) - k| := by
    have hint : (1 : ℤ) ≤ |(roundDiv num den : ℤ) - k| := Int.one_le_abs (by omega)
    exact_mod_cast hint
  have htriangle := abs_sub_le (roundDiv num den : ℚ) ((num : ℚ) / den) k
  rw [abs_sub_comm (roundDiv num den : ℚ) ((num : ℚ) / den)] at htriangle
  rcases @abs_sub_roundDiv num den hden with hlt | ⟨heq, heven⟩
  · left
    linarith
  · rcases lt_or_eq_of_le (show |(num : ℚ) / den - roundDiv num den| ≤ |(num : ℚ) / den - k| by
      linarith) with hlt | heq'
    · exact .inl hlt
    · exact .inr ⟨heq', heven⟩

end Quotients

/-! ## The grid -/

theorem div_gridAt_lt (units : Nat) : units / gridAt units < Nat.pow 2 53 := by
  rw [Nat.div_lt_iff_lt_mul (gridAt_pos units), gridAt, Nat.pow_eq, Nat.pow_eq, ← Nat.pow_add]
  exact Nat.lt_of_lt_of_le Nat.lt_log2_self (Nat.pow_le_pow_right (by omega) (by omega))

/-- The grid gets coarser with the magnitude. -/
theorem gridAt_dvd_gridAt {low high : Nat} (hle : low ≤ high) : gridAt low ∣ gridAt high := by
  rcases Nat.eq_zero_or_pos low with rfl | hpos
  · exact Nat.one_dvd _
  · have hlog : low.log2 ≤ high.log2 :=
      (Nat.le_log2 (by omega)).mpr (Nat.le_trans (Nat.log2_self_le (Nat.ne_of_gt hpos)) hle)
    exact Nat.pow_dvd_pow 2 (by omega)

/-- A number of the format that does not stand on the grid around an amount is smaller, with a
point of that grid in between. -/
theorem dvd_or_lt {amount other : Nat} (hother : gridAt other ∣ other) :
    gridAt amount ∣ other ∨ ∃ k, other < k * gridAt amount ∧ k * gridAt amount ≤ amount := by
  rcases Nat.eq_zero_or_pos amount with rfl | hpos
  · exact .inl (Nat.one_dvd _)
  by_cases hlt : other < Nat.pow 2 amount.log2
  · -- the power of two below the amount
    obtain ⟨k, hk⟩ : gridAt amount ∣ Nat.pow 2 amount.log2 := Nat.pow_dvd_pow 2 (by omega)
    rw [Nat.mul_comm] at hk
    exact .inr ⟨k, hk ▸ hlt, hk ▸ Nat.log2_self_le (Nat.ne_of_gt hpos)⟩
  · left
    have hgrid : gridAt amount = gridAt (Nat.pow 2 amount.log2) := by
      simp only [gridAt, Nat.pow_eq, Nat.log2_two_pow]
    rw [hgrid]
    exact Nat.dvd_trans (gridAt_dvd_gridAt (Nat.not_lt.mp hlt)) hother

/-- An even number of points of the grid around an amount, next to it, is an even significand. -/
theorem even_div_gridAt {amount r : Nat} (hr : Even r) (hle : r ≤ amount / gridAt amount + 1) :
    Even (r * gridAt amount / gridAt (r * gridAt amount)) := by
  have hbound := div_gridAt_lt amount
  obtain ⟨shift, hshift⟩ : ∃ shift, gridAt amount = Nat.pow 2 shift := ⟨_, rfl⟩
  rw [hshift] at hle hbound ⊢
  rcases Nat.lt_or_ge r (Nat.pow 2 53) with hlt | hge
  · obtain ⟨factor, hfactor⟩ := gridAt_shift_dvd hlt shift
    have hquotient : r * Nat.pow 2 shift / gridAt (r * Nat.pow 2 shift) = r * factor :=
      Nat.div_eq_of_eq_mul_left (gridAt_pos _)
        (by rw [Nat.mul_assoc, Nat.mul_comm factor, ← hfactor])
    rw [hquotient]
    exact hr.mul_right factor
  · -- the grid gets coarser just here
    obtain rfl : r = Nat.pow 2 53 := by omega
    have hgrid : gridAt (Nat.pow 2 53 * Nat.pow 2 shift) = Nat.pow 2 (shift + 1) := by
      simp only [gridAt, Nat.pow_eq, ← Nat.pow_add, Nat.log2_two_pow]
      congr 1
      omega
    have hquotient : Nat.pow 2 53 * Nat.pow 2 shift / Nat.pow 2 (shift + 1) = Nat.pow 2 52 := by
      refine Nat.div_eq_of_eq_mul_left (Nat.two_pow_pos _) ?_
      simp only [Nat.pow_eq, ← Nat.pow_add]
      congr 1
      omega
    rw [hgrid, hquotient]
    decide

/-! ## The nearest number of the format -/

/-- The number of the format that is nearest to an exact amount of units: every other one is
farther away, or as far while this one has an even significand. -/
structure IsNearest (amount : ℚ) (units : Nat) : Prop where
  onGrid : gridAt units ∣ units
  nearer : ∀ other, gridAt other ∣ other → other ≠ units →
    |amount - units| < |amount - other| ∨
      |amount - units| = |amount - other| ∧ Even (units / gridAt units)

section

variable {num den : Nat}

/-- Distances on a grid are distances of quotients. -/
theorem abs_div_sub_mul (num den : Nat) {grid : Nat} (hgrid : 0 < grid) (k : Nat) :
    |(num : ℚ) / den - (k * grid : ℕ)| = |(num : ℚ) / (den * grid : ℕ) - k| * grid := by
  have hpos : (0 : ℚ) < grid := by exact_mod_cast hgrid
  calc
    |(num : ℚ) / den - (k * grid : ℕ)| = |((num : ℚ) / (den * grid : ℕ) - k) * grid| := by
      rw [sub_mul, Nat.cast_mul, Nat.cast_mul, div_mul_eq_mul_div, mul_div_mul_right _ _ hpos.ne']
    _ = |(num : ℚ) / (den * grid : ℕ) - k| * grid := by rw [abs_mul, abs_of_pos hpos]

/-- **Rounding takes the nearest number of the format**, and of two as near the one with an even
significand. -/
theorem isNearest_nearestUnits (hden : 0 < den) :
    IsNearest ((num : ℚ) / den) (nearestUnits num den) := by
  have hgrid := gridAt_pos (num / den)
  have hgridQ : (0 : ℚ) < gridAt (num / den) := by exact_mod_cast hgrid
  have hdenGrid : 0 < den * gridAt (num / den) := Nat.mul_pos hden hgrid
  -- on the grid around the amount
  have hpoint : ∀ k, k * gridAt (num / den) ≠ nearestUnits num den →
      |(num : ℚ) / den - nearestUnits num den| < |(num : ℚ) / den - (k * gridAt (num / den) : ℕ)| ∨
        |(num : ℚ) / den - nearestUnits num den| =
            |(num : ℚ) / den - (k * gridAt (num / den) : ℕ)| ∧
          Even (roundDiv num (den * gridAt (num / den))) := by
    intro k hne
    have hne : k ≠ roundDiv num (den * gridAt (num / den)) := by
      rintro rfl
      exact hne rfl
    rw [nearestUnits, abs_div_sub_mul num den hgrid, abs_div_sub_mul num den hgrid,
      mul_lt_mul_iff_left₀ hgridQ, mul_left_inj' hgridQ.ne']
    exact roundDiv_nearer hdenGrid hne
  refine ⟨gridAt_nearestUnits_dvd num den, fun other hother hne => ?_⟩
  rcases @dvd_or_lt (num / den) other hother with ⟨k, rfl⟩ | ⟨k, hlt, hle⟩
  · rw [Nat.mul_comm] at hne ⊢
    have hceil : roundDiv num (den * gridAt (num / den)) ≤
        num / den / gridAt (num / den) + 1 := by
      rw [Nat.div_div_eq_div_mul]
      exact roundDiv_le_succ _ _
    rcases hpoint k hne with hlt | ⟨heq, heven⟩
    · exact .inl hlt
    · exact .inr ⟨heq, even_div_gridAt heven hceil⟩
  · -- a point of the grid lies between the other number and the amount
    left
    have hbelow : ((k * gridAt (num / den) : ℕ) : ℚ) ≤ (num : ℚ) / den :=
      (Nat.cast_le.mpr hle).trans Nat.cast_div_le
    have hother : (other : ℚ) < (k * gridAt (num / den) : ℕ) := Nat.cast_lt.mpr hlt
    have hnear : |(num : ℚ) / den - nearestUnits num den| ≤
        |(num : ℚ) / den - (k * gridAt (num / den) : ℕ)| := by
      by_cases heq : k * gridAt (num / den) = nearestUnits num den
      · rw [heq]
      · rcases hpoint k heq with hlt | ⟨heq, _⟩
        · exact hlt.le
        · exact heq.le
    refine hnear.trans_lt ?_
    rw [abs_of_nonneg (sub_nonneg.mpr hbelow), abs_of_pos (by linarith)]
    linarith

end

/-! ## One nearest number -/

/-- Between two numbers of the format with even significands there is another one. -/
theorem exists_between_of_even {low high : Nat} (hlow : gridAt low ∣ low)
    (hhigh : gridAt high ∣ high) (hlt : low < high) (hevenLow : Even (low / gridAt low))
    (hevenHigh : Even (high / gridAt high)) :
    ∃ other, gridAt other ∣ other ∧ low < other ∧ other < high := by
  have hpos := gridAt_pos low
  obtain ⟨shift, hshift⟩ : ∃ shift, gridAt low = Nat.pow 2 shift := ⟨_, rfl⟩
  have hsignificand : low / gridAt low + 1 < Nat.pow 2 53 := by
    have hbound := div_gridAt_lt low
    have heven : Even (Nat.pow 2 53) := by decide
    obtain ⟨m, hm⟩ := hevenLow
    obtain ⟨n, hn⟩ := heven
    omega
  have hnext : (low / gridAt low + 1) * gridAt low = low + gridAt low := by
    rw [Nat.add_one_mul, Nat.div_mul_cancel hlow]
  refine ⟨low + gridAt low, ?_, by omega, ?_⟩
  · rw [← hnext, hshift]
    exact gridAt_dvd_shift (hshift ▸ hsignificand) shift
  · have hcoarser : gridAt low ∣ gridAt high := gridAt_dvd_gridAt (Nat.le_of_lt hlt)
    have hle : gridAt low ≤ high - low :=
      Nat.le_of_dvd (by omega) (Nat.dvd_sub (Nat.dvd_trans hcoarser hhigh) hlow)
    refine Nat.lt_of_le_of_ne (by omega) fun heq => ?_
    -- the significand of the next number is odd on the finer grid, and so on the coarser one
    obtain ⟨factor, hfactor⟩ := hcoarser
    have hodd : high / gridAt high * factor = low / gridAt low + 1 := by
      refine Nat.eq_of_mul_eq_mul_right hpos ?_
      rw [hnext, heq, Nat.mul_assoc, Nat.mul_comm factor, ← hfactor, Nat.div_mul_cancel hhigh]
    have heven : Even (low / gridAt low + 1) := hodd ▸ hevenHigh.mul_right factor
    exact (Nat.not_even_iff_odd.mpr hevenLow.add_one) heven

theorem IsNearest.abs_sub_le {amount : ℚ} {units other : Nat} (hunits : IsNearest amount units)
    (hother : gridAt other ∣ other) : |amount - units| ≤ |amount - other| := by
  by_cases hne : other = units
  · rw [hne]
  · rcases hunits.nearer other hother hne with hlt | ⟨heq, _⟩
    · exact hlt.le
    · exact heq.le

/-- An amount up to a number of the format is not rounded beyond it. -/
theorem IsNearest.le {amount : ℚ} {units other : Nat} (hunits : IsNearest amount units)
    (hother : gridAt other ∣ other) (hle : amount ≤ other) : units ≤ other := by
  by_contra hlt
  have hlt : (other : ℚ) < units := Nat.cast_lt.mpr (Nat.not_le.mp hlt)
  have hnear := hunits.abs_sub_le hother
  rw [abs_of_nonpos (by linarith), abs_of_nonpos (by linarith)] at hnear
  linarith

theorem IsNearest.ge {amount : ℚ} {units other : Nat} (hunits : IsNearest amount units)
    (hother : gridAt other ∣ other) (hge : other ≤ amount) : other ≤ units := by
  by_contra hlt
  have hlt : (units : ℚ) < other := Nat.cast_lt.mpr (Nat.not_le.mp hlt)
  have hnear := hunits.abs_sub_le hother
  rw [abs_of_nonneg (by linarith), abs_of_nonneg (by linarith)] at hnear
  linarith

/-- **An amount has one nearest number.** -/
theorem IsNearest.eq {amount : ℚ} {units other : Nat} (hunits : IsNearest amount units)
    (hother : IsNearest amount other) : units = other := by
  by_contra hne
  wlog hlt : units < other generalizing units other
  · exact this hother hunits (Ne.symm hne) (by omega)
  have heq : |amount - units| = |amount - other| :=
    le_antisymm (hunits.abs_sub_le hother.onGrid) (hother.abs_sub_le hunits.onGrid)
  -- neither is nearer, so both have even significands
  have hevenUnits := ((hunits.nearer other hother.onGrid (Ne.symm hne)).resolve_left heq.not_lt).2
  have hevenOther := ((hother.nearer units hunits.onGrid hne).resolve_left heq.not_gt).2
  obtain ⟨between, hgrid, hlow, hhigh⟩ :=
    exists_between_of_even hunits.onGrid hother.onGrid hlt hevenUnits hevenOther
  have hlow : (units : ℚ) < between := Nat.cast_lt.mpr hlow
  have hhigh : (between : ℚ) < other := Nat.cast_lt.mpr hhigh
  have hmiddle : amount - units = -(amount - other) := by
    rcases abs_eq_abs.mp heq with hsame | hopposite
    · linarith
    · exact hopposite
  have hnearer : |amount - between| < |amount - units| := by
    rw [abs_of_pos (show 0 < amount - units by linarith), abs_lt]
    constructor <;> linarith
  exact absurd (hunits.abs_sub_le hgrid) hnearer.not_ge

/-! ## Numbers -/

/-- A number is what an exact value without a sign is rounded to: the nearest number of the format,
or an infinite one if that lies beyond the finite ones. -/
inductive Number.Rounds (value : ℚ) : Number → Prop
  | finite {units : Nat} (hunits : Representable units)
      (hnearest : IsNearest (value * unitsPerOne) units) : Rounds value (.finite false units hunits)
  | infinite {units : Nat} (hbeyond : unitLimit ≤ units)
      (hnearest : IsNearest (value * unitsPerOne) units) : Rounds value (.infinite false)

/-- A value is rounded to one number. -/
theorem Number.Rounds.eq {value : ℚ} {x y : Number} (hx : Rounds value x) (hy : Rounds value y) :
    x = y := by
  cases hx with
  | finite hunits hnearest =>
    cases hy with
    | finite hunits' hnearest' =>
      obtain rfl := hnearest.eq hnearest'
      rfl
    | infinite hbeyond hnearest' =>
      obtain rfl := hnearest.eq hnearest'
      exact absurd hunits.1 (Nat.not_lt.mpr hbeyond)
  | infinite hbeyond hnearest =>
    cases hy with
    | finite hunits hnearest' =>
      obtain rfl := hnearest.eq hnearest'
      exact absurd hunits.1 (Nat.not_lt.mpr hbeyond)
    | infinite => rfl

/-- What is not rounded to an infinite number is rounded to a finite one. -/
theorem Number.Rounds.isFinite_iff {value : ℚ} {x : Number} (hx : Rounds value x) :
    x.isFinite = true ↔ x ≠ .infinite false := by
  cases hx with
  | finite => exact iff_of_true rfl nofun
  | infinite => exact iff_of_false nofun (not_not_intro rfl)

/-- A ratio of units is rounded as its value. -/
theorem Number.rounds_ofRatio {num den : Nat} {value : ℚ} (hden : 0 < den)
    (hvalue : value * unitsPerOne = num / den) : Rounds value (ofRatio false num den) := by
  have hnearest : IsNearest (value * unitsPerOne) (nearestUnits num den) :=
    hvalue ▸ isNearest_nearestUnits hden
  unfold ofRatio
  split
  · exact .finite _ hnearest
  · next hbeyond => exact .infinite (Nat.not_lt.mp hbeyond) hnearest

end Reckoner
