import Reckoner.Number.Basic

/-!
# Rounding

Rounding to the nearest number of the format depends on a ratio only, not on the
fraction that it is given as, and it leaves the numbers of the format as they are.
-/

namespace Reckoner

/-! ## Ratios -/

theorem roundDiv_mul_left {factor : Nat} (hfactor : 0 < factor) (num den : Nat) :
    roundDiv (factor * num) (factor * den) = roundDiv num den := by
  have hbelow : 2 * (factor * (num % den)) < factor * den ↔ 2 * (num % den) < den := by
    rw [Nat.mul_left_comm, Nat.mul_lt_mul_left hfactor]
  have habove : factor * den < 2 * (factor * (num % den)) ↔ den < 2 * (num % den) := by
    rw [Nat.mul_left_comm, Nat.mul_lt_mul_left hfactor]
  simp only [roundDiv, Nat.mul_div_mul_left _ _ hfactor, Nat.mul_mod_mul_left, hbelow, habove]

theorem nearestUnits_mul_left {factor : Nat} (hfactor : 0 < factor) (num den : Nat) :
    nearestUnits (factor * num) (factor * den) = nearestUnits num den := by
  simp only [nearestUnits, Nat.mul_div_mul_left _ _ hfactor, Nat.mul_assoc,
    roundDiv_mul_left hfactor]

/-- Equal ratios have one nearest number. -/
theorem nearestUnits_congr {num den num' den' : Nat} (hden : 0 < den) (hden' : 0 < den')
    (hratio : num * den' = num' * den) : nearestUnits num den = nearestUnits num' den' := by
  calc
    nearestUnits num den = nearestUnits (den' * num) (den' * den) :=
      (nearestUnits_mul_left hden' num den).symm
    _ = nearestUnits (den * num') (den * den') := by
      rw [Nat.mul_comm den' num, hratio, Nat.mul_comm num' den, Nat.mul_comm den' den]
    _ = nearestUnits num' den' := nearestUnits_mul_left hden num' den'

/-! ## Numbers of the format -/

theorem gridAt_pos (units : Nat) : 0 < gridAt units := Nat.two_pow_pos _

/-- A number of the format is the nearest one to itself. -/
theorem nearestUnits_one {units : Nat} (hunits : Representable units) :
    nearestUnits units 1 = units := by
  obtain ⟨significand, hsignificand⟩ := hunits.2
  have hquotient : units / gridAt units = significand :=
    Nat.div_eq_of_eq_mul_right (gridAt_pos units) hsignificand
  have hrest : units % gridAt units = 0 := Nat.mod_eq_zero_of_dvd hunits.2
  have hround : roundDiv units (gridAt units) = significand := by
    simp only [roundDiv, hrest, hquotient]
    rw [if_pos (gridAt_pos units)]
  rw [nearestUnits, Nat.div_one, Nat.one_mul, hround, Nat.mul_comm, ← hsignificand]

/-- The grid around a count with at most 53 significant bits is no coarser than its last bit. -/
theorem gridAt_shift_dvd {n : Nat} (hn : n < Nat.pow 2 53) (shift : Nat) :
    gridAt (n * Nat.pow 2 shift) ∣ Nat.pow 2 shift := by
  rcases Nat.eq_zero_or_pos (n * Nat.pow 2 shift) with hzero | hpos
  · rw [hzero]
    exact Nat.one_dvd _
  have hlt : n * Nat.pow 2 shift < Nat.pow 2 (53 + shift) := by
    simp only [Nat.pow_eq, Nat.pow_add] at hn ⊢
    exact Nat.mul_lt_mul_of_pos_right hn (Nat.two_pow_pos shift)
  have hlog := (Nat.log2_lt (Nat.ne_of_gt hpos)).mpr hlt
  exact Nat.pow_dvd_pow 2 (by omega)

/-- A count with at most 53 significant bits stands on its grid. -/
theorem gridAt_dvd_shift {n : Nat} (hn : n < Nat.pow 2 53) (shift : Nat) :
    gridAt (n * Nat.pow 2 shift) ∣ n * Nat.pow 2 shift :=
  Nat.dvd_trans (gridAt_shift_dvd hn shift) (Nat.dvd_mul_left _ _)

theorem unitsPerOne_pos : 0 < unitsPerOne := by
  decide +kernel

/-- A whole number of at most 53 bits is a number of the format. -/
theorem representable_whole {n : Nat} (hn : n < Nat.pow 2 53) :
    Representable (n * unitsPerOne) := by
  have hlimit : Nat.pow 2 53 * unitsPerOne ≤ unitLimit := by decide +kernel
  have hlt := Nat.mul_lt_mul_of_pos_right hn unitsPerOne_pos
  have hgrid : gridAt (n * unitsPerOne) ∣ n * unitsPerOne := by
    unfold unitsPerOne
    exact gridAt_dvd_shift hn _
  exact ⟨Nat.lt_of_lt_of_le hlt hlimit, hgrid⟩

namespace Number

theorem ofRatio_congr {negative : Bool} {num den num' den' : Nat} (hden : 0 < den)
    (hden' : 0 < den') (hratio : num * den' = num' * den) :
    ofRatio negative num den = ofRatio negative num' den' := by
  simp only [ofRatio, nearestUnits_congr hden hden' hratio]

/-- A ratio whose nearest number is a number of the format is read as it. -/
theorem ofRatio_eq_finite {negative : Bool} {num den units : Nat} (hunits : Representable units)
    (hnearest : nearestUnits num den = units) :
    ofRatio negative num den = finite negative units hunits := by
  subst hnearest
  rw [ofRatio, dif_pos hunits.1]

/-- A finite number that is rounded from a ratio has the sign that it is given. -/
theorem exists_of_isFinite_ofRatio {negative : Bool} {num den : Nat}
    (hfinite : (ofRatio negative num den).isFinite = true) :
    ∃ units hunits, ofRatio negative num den = finite negative units hunits := by
  unfold ofRatio at hfinite ⊢
  split at hfinite
  · next h => exact ⟨_, _, dif_pos h⟩
  · simp [isFinite] at hfinite

end Number

end Reckoner
