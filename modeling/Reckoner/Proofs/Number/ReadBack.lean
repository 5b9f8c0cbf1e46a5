import Reckoner.Lexer.Numeral
import Reckoner.Number.Layout
import Reckoner.Proofs.Number.Rounding

/-!
# Written numbers read back

A finite number without a sign, written in plain layout, is a numeral, and this
numeral stands for the number.

* The decimal that is written is found on a grid on which it was tried, or it is
  the exact one, so it reads back in any case (`nearestUnits_shortest`); zeros
  dropped from its coefficient do not change its value.
* Positional layout keeps the value of a decimal (`toNumber_positional`).
* The lexer takes exactly such a text from in front of anything that does not go
  on with a numeral (`IsPlain.takeNumeral_append`).
-/

namespace Reckoner

/-! ## The decimal that is written -/

namespace Decimal

theorem denominator_pos (d : Decimal) : 0 < d.denominator := Nat.pow_pos (by decide)

/-- Moving a zero from the coefficient to the exponent keeps the value. -/
theorem nearestUnits_shift (coefficient : Nat) (exponent : Int) :
    nearestUnits (numerator ⟨coefficient, exponent + 1⟩) (denominator ⟨coefficient, exponent + 1⟩) =
      nearestUnits (numerator ⟨10 * coefficient, exponent⟩)
        (denominator ⟨10 * coefficient, exponent⟩) := by
  refine nearestUnits_congr (denominator_pos _) (denominator_pos _) ?_
  simp only [numerator, denominator, Nat.pow_eq]
  -- the number of units is too large to compute with
  generalize unitsPerOne = scale
  by_cases hneg : exponent < 0
  · have hplaces : (-exponent).toNat = (-(exponent + 1)).toNat + 1 := by omega
    have hwhole : (exponent + 1).toNat = 0 ∧ exponent.toNat = 0 := by omega
    rw [hplaces, hwhole.1, hwhole.2, Nat.pow_succ]
    ac_rfl
  · have hplaces : (-exponent).toNat = 0 ∧ (-(exponent + 1)).toNat = 0 := by omega
    have hwhole : (exponent + 1).toNat = exponent.toNat + 1 := by omega
    rw [hplaces.1, hplaces.2, hwhole, Nat.pow_succ]
    ac_rfl

theorem nearestUnits_dropZeros (steps : Nat) (d : Decimal) :
    nearestUnits (dropZeros steps d).numerator (dropZeros steps d).denominator =
      nearestUnits d.numerator d.denominator := by
  induction steps generalizing d with
  | zero => rfl
  | succ steps ih =>
      unfold dropZeros
      split
      · next hzero =>
          have hcoefficient : 10 * (d.coefficient / 10) = d.coefficient := by omega
          rw [ih, nearestUnits_shift, hcoefficient]
      · rfl

theorem passes_of_pick? {passes : Decimal → Bool} {preferAbove : Bool} {below above d : Decimal}
    (hpick : pick? passes preferAbove below above = some d) : passes d = true := by
  unfold pick? at hpick
  split at hpick
  · next hbelow habove =>
      obtain rfl := Option.some.inj hpick
      split
      · exact habove
      · exact hbelow
  · next hbelow _ => exact Option.some.inj hpick ▸ hbelow
  · next _ habove => exact Option.some.inj hpick ▸ habove
  · exact absurd hpick (by simp)

theorem nearestUnits_of_onGrid? {tie : TieRule} {units : Nat} {exponent : Int} {d : Decimal}
    (hgrid : onGrid? tie units exponent = some d) :
    nearestUnits d.numerator d.denominator = units := by
  unfold onGrid? at hgrid
  simpa [readsAs] using passes_of_pick? hgrid

theorem nearestUnits_exact {units : Nat} (hunits : Representable units) :
    nearestUnits (exact units).numerator (exact units).denominator = units := by
  have hratio : (exact units).numerator * 1 = units * (exact units).denominator := by
    have hplaces (k : Nat) : (-(-(k : Int))).toNat = k := by omega
    have hwhole (k : Nat) : (-(k : Int)).toNat = 0 := by omega
    unfold numerator denominator exact unitsPerOne
    generalize unitExponent = k
    simp only [hplaces, hwhole, Nat.pow_eq]
    rw [Nat.pow_zero, Nat.mul_one, Nat.mul_one, Nat.mul_assoc, ← Nat.mul_pow]
  rw [nearestUnits_congr (denominator_pos _) Nat.one_pos hratio, nearestUnits_one hunits]

/-- **What is written for a number of the format reads back as it.** -/
theorem nearestUnits_shortest (tie : TieRule) {units : Nat} (hunits : Representable units) :
    nearestUnits (shortest tie units).numerator (shortest tie units).denominator = units := by
  simp only [shortest]
  rw [nearestUnits_dropZeros]
  cases hfound : (List.range 17).findSome? fun (places : Nat) =>
      onGrid? tie units (leadingExponent units - (places : Int)) with
  | none => exact nearestUnits_exact hunits
  | some d =>
      obtain ⟨_, _, _, _, hgrid, _⟩ := List.findSome?_eq_some_iff.mp hfound
      exact nearestUnits_of_onGrid? hgrid

end Decimal

/-! ## Plain numerals -/

/-- A text of digits, with a point inside or without one. -/
inductive IsPlain : Text → Prop
  | whole {digits : Text} (hsome : digits ≠ []) (hdigits : ∀ c ∈ digits, c.isDigit = true) :
      IsPlain digits
  | pointed {digits fraction : Text} (hsome : digits ≠ [])
      (hdigits : ∀ c ∈ digits, c.isDigit = true) (hfraction : ∀ c ∈ fraction, c.isDigit = true) :
      IsPlain (digits ++ '.' :: fraction)

/-- No numeral goes on with the text. -/
def EndsNumeral (text : Text) : Prop :=
  ∀ hasPoint hasSeparator, takeNumeral hasPoint hasSeparator text = []

theorem takeNumeral_digits_append {digits : Text} (hdigits : ∀ c ∈ digits, c.isDigit = true)
    (hasPoint hasSeparator : Bool) (later : Text) :
    takeNumeral hasPoint hasSeparator (digits ++ later) =
      digits ++ takeNumeral hasPoint hasSeparator later := by
  induction digits with
  | nil => rfl
  | cons c digits ih =>
      obtain ⟨hdigit, hdigits⟩ := List.forall_mem_cons.mp hdigits
      rw [List.cons_append, takeNumeral, if_pos hdigit, ih hdigits, List.cons_append]

theorem IsPlain.takeNumeral_append {text later : Text} (hplain : IsPlain text)
    (hends : EndsNumeral later) : takeNumeral false false (text ++ later) = text := by
  cases hplain with
  | whole _ hdigits => rw [takeNumeral_digits_append hdigits, hends, List.append_nil]
  | @pointed digits fraction _ hdigits hfraction =>
      have hpoint : takeNumeral false false ('.' :: (fraction ++ later)) =
          '.' :: takeNumeral true false (fraction ++ later) := rfl
      rw [List.append_assoc, takeNumeral_digits_append hdigits, List.cons_append, hpoint,
        takeNumeral_digits_append hfraction, hends, List.append_nil]

theorem IsPlain.exists_cons {text : Text} (hplain : IsPlain text) :
    ∃ c rest, text = c :: rest ∧ c.isDigit = true := by
  cases hplain with
  | whole hsome hdigits =>
      obtain ⟨c, rest, rfl⟩ := List.exists_cons_of_ne_nil hsome
      exact ⟨c, rest, rfl, hdigits c List.mem_cons_self⟩
  | pointed hsome hdigits _ =>
      obtain ⟨c, rest, rfl⟩ := List.exists_cons_of_ne_nil hsome
      exact ⟨c, _, rfl, hdigits c List.mem_cons_self⟩

/-! ## Positional layout -/

theorem ne_point_of_isDigit {c : Char} (hdigit : c.isDigit = true) : c ≠ '.' := by
  rintro rfl
  simp at hdigit

theorem numeralValue_digits {digits : Text} (hdigits : ∀ c ∈ digits, c.isDigit = true) :
    numeralValue digits = Decimal.ofDigits digits 0 := by
  have hpoint : digits.dropWhile (· ≠ '.') = [] := by
    rw [← List.append_nil digits, List.dropWhile_append_of_pos, List.dropWhile_nil]
    simpa using fun c hc => ne_point_of_isDigit (hdigits c hc)
  simp only [numeralValue, hpoint, List.filter_eq_self.mpr hdigits, List.countP_nil]

theorem numeralValue_pointed {digits fraction : Text} (hdigits : ∀ c ∈ digits, c.isDigit = true)
    (hfraction : ∀ c ∈ fraction, c.isDigit = true) :
    numeralValue (digits ++ '.' :: fraction) =
      Decimal.ofDigits (digits ++ fraction) fraction.length := by
  have hpoint : (digits ++ '.' :: fraction).dropWhile (· ≠ '.') = '.' :: fraction := by
    rw [List.dropWhile_append_of_pos (by simpa using fun c hc => ne_point_of_isDigit (hdigits c hc))]
    simp
  have hcount : ('.' :: fraction).countP Char.isDigit = fraction.length := by
    rw [List.countP_cons_of_neg (by simp)]
    exact List.countP_eq_length.mpr hfraction
  simp only [numeralValue, hpoint, hcount, List.filter_append, List.filter_eq_self.mpr hdigits]
  rw [List.filter_cons_of_neg (by simp), List.filter_eq_self.mpr hfraction]

namespace Decimal

theorem isDigit_of_mem_digits {d : Decimal} {c : Char} (hc : c ∈ d.digits) : c.isDigit = true :=
  Nat.isDigit_of_mem_toDigits (by decide) (by decide) hc

theorem isDigit_of_mem_replicate {count : Nat} {c : Char}
    (hc : c ∈ List.replicate count '0') : c.isDigit = true := by
  rw [List.eq_of_mem_replicate hc]
  rfl

private theorem isDigit_of_mem_zero : ∀ c ∈ ['0'], c.isDigit = true :=
  List.forall_mem_singleton.mpr rfl

theorem isPlain_positional (d : Decimal) : IsPlain d.positional := by
  have hsome : d.digits ≠ [] := Nat.toDigits_ne_nil
  have hdigits : ∀ c ∈ d.digits, c.isDigit = true := fun c hc => isDigit_of_mem_digits hc
  unfold positional
  simp only
  split
  -- zeros behind the digits, a point inside them, or zeros in front of them
  · refine .whole (by simp [hsome]) fun c hc => ?_
    rcases List.mem_append.mp hc with hc | hc
    · exact hdigits c hc
    · exact isDigit_of_mem_replicate hc
  split
  · next _ hinside =>
      have htake : d.digits.take (d.digits.length - (-d.exponent).toNat) ≠ [] := by
        simp only [ne_eq, List.take_eq_nil_iff, hsome, or_false]
        omega
      exact .pointed htake (fun c hc => hdigits c (List.mem_of_mem_take hc))
        (fun c hc => hdigits c (List.mem_of_mem_drop hc))
  · refine @IsPlain.pointed ['0'] _ (by simp) isDigit_of_mem_zero fun c hc => ?_
    rcases List.mem_append.mp hc with hc | hc
    · exact isDigit_of_mem_replicate hc
    · exact hdigits c hc

theorem toNumber_of_exponent_nonneg {negative : Bool} {coefficient : Nat} {exponent : Int}
    (hexponent : 0 ≤ exponent) :
    toNumber negative ⟨coefficient * Nat.pow 10 exponent.toNat, 0⟩ =
      toNumber negative ⟨coefficient, exponent⟩ := by
  have hplaces : (-exponent).toNat = 0 := by omega
  simp [toNumber, numerator, denominator, hplaces]

/-- Positional layout keeps the value. -/
theorem toNumber_positional (negative : Bool) (d : Decimal) :
    (numeralValue d.positional).toNumber negative = d.toNumber negative := by
  have hdigits : ∀ c ∈ d.digits, c.isDigit = true := fun c hc => isDigit_of_mem_digits hc
  have hvalue : Nat.ofDigitChars 10 d.digits 0 = d.coefficient := Nat.ofDigitChars_ten_toDigits
  unfold positional
  simp only
  split
  · next hwhole =>
      -- zeros behind the digits multiply the coefficient
      have hall : ∀ c ∈ d.digits ++ List.replicate d.exponent.toNat '0', c.isDigit = true :=
        fun c hc => (List.mem_append.mp hc).elim (hdigits c) isDigit_of_mem_replicate
      rw [numeralValue_digits hall, ofDigits, Nat.ofDigitChars_append, hvalue,
        Nat.ofDigitChars_replicate_zero, Nat.mul_comm]
      exact toNumber_of_exponent_nonneg (by omega)
  split
  · next hplaces hinside =>
      -- as many digits stand behind the point as the exponent says
      have hexponent : (-((-d.exponent).toNat : Int)) = d.exponent := by omega
      have hlength : (d.digits.drop (d.digits.length - (-d.exponent).toNat)).length =
          (-d.exponent).toNat := by
        rw [List.length_drop]
        omega
      rw [numeralValue_pointed (fun c hc => hdigits c (List.mem_of_mem_take hc))
        (fun c hc => hdigits c (List.mem_of_mem_drop hc)), ofDigits, List.take_append_drop, hvalue,
        hlength, hexponent]
  · next hplaces houtside =>
      -- zeros in front of the digits count as places and add nothing
      have hexponent : (-((-d.exponent).toNat : Int)) = d.exponent := by omega
      have hall : ∀ c ∈ List.replicate ((-d.exponent).toNat - d.digits.length) '0' ++ d.digits,
          c.isDigit = true :=
        fun c hc => (List.mem_append.mp hc).elim isDigit_of_mem_replicate (hdigits c)
      have hlength : (List.replicate ((-d.exponent).toNat - d.digits.length) '0' ++
          d.digits).length = (-d.exponent).toNat := by
        rw [List.length_append, List.length_replicate]
        omega
      have hpointed := @numeralValue_pointed ['0'] _ isDigit_of_mem_zero hall
      rw [List.singleton_append] at hpointed
      rw [hpointed, ofDigits, hlength, hexponent, List.singleton_append, Nat.ofDigitChars_cons,
        Nat.ofDigitChars_append, Nat.ofDigitChars_replicate_zero]
      simp [hvalue]

end Decimal

/-! ## Plain layout -/

namespace Number

variable {units : Nat} {hunits : Representable units}

theorem isPlain_plain : IsPlain (finite false units hunits).plain := by
  simp only [plain, signText, Bool.false_eq_true, if_false, List.nil_append]
  split
  · exact .whole (by simp) (List.forall_mem_singleton.mpr rfl)
  · exact Decimal.isPlain_positional _

/-- **A finite number without a sign reads back from its plain layout.** -/
theorem toNumber_plain :
    (numeralValue (finite false units hunits).plain).toNumber false =
      finite false units hunits := by
  simp only [plain, signText, Bool.false_eq_true, if_false, List.nil_append]
  split
  · next hzero =>
      subst hzero
      exact ofRatio_eq_finite hunits (by decide +kernel)
  · rw [Decimal.toNumber_positional]
    exact ofRatio_eq_finite hunits (Decimal.nearestUnits_shortest .up hunits)

end Number

end Reckoner
