import Reckoner.Json.Number
import Reckoner.Proofs.Json.Literals
import Reckoner.Proofs.Number.ReadBack

/-!
# Literals of binary64 numbers

What becomes of a finite number that is written as a literal and read again.

The literal is written well: it stands for a decimal whose nearest number is the one that was
written (`nearestNumber_scientific?`), whichever of the layouts it has.  The reader is the weaker
half, because it rounds more than once.  What it reads is the nearest number nevertheless if no
step but the last one has anything to round: a significand below 2⁵³ and a power of ten up to 10²²
are numbers of the format themselves (`numberValue_eq_nearestNumber`).
-/

namespace Reckoner.Json

/-! ## The number a literal stands for -/

/-- The decimal that a literal without its sign stands for, of all its digits. -/
def exactDecimal (unsigned : Text) : Decimal :=
  let mantissa := unsigned.takeWhile fun c => c ≠ 'e' && c ≠ 'E'
  let exponent := unsigned.dropWhile fun c => c ≠ 'e' && c ≠ 'E'
  let d := numeralValue mantissa
  ⟨d.coefficient, d.exponent + exponentValue exponent⟩

/-- The binary64 number nearest to what a literal stands for. -/
def nearestNumber (literal : Text) : Number :=
  let (sign, unsigned) := takeMinus literal
  (exactDecimal unsigned).toNumber !sign.isEmpty

/-- The significand of a literal has at most 53 bits, and its power of ten is at most 10²² or its
inverse, so that both powers and significands are numbers of the format. -/
def IsShort (literal : Text) : Prop :=
  let d := exactDecimal (takeMinus literal).2
  d.coefficient < Nat.pow 2 53 ∧ -22 ≤ d.exponent ∧ d.exponent ≤ 22

instance (literal : Text) : Decidable (IsShort literal) :=
  inferInstanceAs (Decidable (_ ∧ _))

/-! ## The parts of a literal -/

/-- The digits of a literal, with a point among them or without one. -/
inductive IsMantissa : Text → Prop
  | whole {digits : Text} (hsome : digits ≠ []) (hdigits : ∀ c ∈ digits, c.isDigit = true)
      (hzero : digits.head? = some '0' → digits = ['0']) : IsMantissa digits
  | pointed {digits fraction : Text} (hsome : digits ≠ [])
      (hdigits : ∀ c ∈ digits, c.isDigit = true)
      (hzero : digits.head? = some '0' → digits = ['0']) (hplaces : fraction ≠ [])
      (hfraction : ∀ c ∈ fraction, c.isDigit = true) : IsMantissa (digits ++ '.' :: fraction)

/-- An exponent with its mark, or nothing. -/
def IsExponent (exponent : Text) : Prop :=
  takeExponent exponent = some (exponent, [])

theorem IsMantissa.isPlain {mantissa : Text} (hmantissa : IsMantissa mantissa) :
    IsPlain mantissa := by
  cases hmantissa with
  | whole hsome hdigits => exact .whole hsome hdigits
  | pointed hsome hdigits _ _ hfraction => exact .pointed hsome hdigits hfraction

theorem IsExponent.mark {exponent : Text} (hexponent : IsExponent exponent) :
    ∀ c ∈ exponent.head?, c = 'e' ∨ c = 'E' := by
  cases exponent with
  | nil => rintro _ ⟨⟩
  | cons c text =>
    rintro _ ⟨⟩
    by_contra hmark
    rw [IsExponent, takeExponent, if_neg hmark] at hexponent
    cases hexponent

section Parts

variable {mantissa exponent : Text}

theorem ne_mark_of_isPlain (hplain : IsPlain mantissa) :
    ∀ c ∈ mantissa, (c ≠ 'e' && c ≠ 'E') = true := by
  have hdigit : ∀ c : Char, c.isDigit = true → (c ≠ 'e' && c ≠ 'E') = true := by
    intro c hc
    have he : c ≠ 'e' := by rintro rfl; cases hc
    have hE : c ≠ 'E' := by rintro rfl; cases hc
    simp [he, hE]
  intro c hc
  cases hplain with
  | whole _ hdigits => exact hdigit c (hdigits c hc)
  | pointed _ hdigits hfraction =>
    rcases List.mem_append.mp hc with hc | hc
    · exact hdigit c (hdigits c hc)
    rcases List.mem_cons.mp hc with rfl | hc
    · rfl
    · exact hdigit c (hfraction c hc)

/-- A literal is cut in front of the mark of its exponent. -/
theorem span_mark (hplain : IsPlain mantissa) (hexponent : IsExponent exponent) :
    (mantissa ++ exponent).takeWhile (fun c => c ≠ 'e' && c ≠ 'E') = mantissa ∧
      (mantissa ++ exponent).dropWhile (fun c => c ≠ 'e' && c ≠ 'E') = exponent := by
  have hmantissa := ne_mark_of_isPlain hplain
  rw [List.takeWhile_append_of_pos hmantissa, List.dropWhile_append_of_pos hmantissa]
  cases exponent with
  | nil => simp
  | cons c text => obtain rfl | rfl := hexponent.mark c rfl <;> simp

theorem exactDecimal_append (hplain : IsPlain mantissa) (hexponent : IsExponent exponent) :
    exactDecimal (mantissa ++ exponent) = ⟨(numeralValue mantissa).coefficient,
      (numeralValue mantissa).exponent + exponentValue exponent⟩ := by
  obtain ⟨htake, hdrop⟩ := span_mark hplain hexponent
  simp only [exactDecimal, htake, hdrop]

theorem takeMinus_signText (negative : Bool) (hplain : IsPlain mantissa) :
    takeMinus (Number.signText negative ++ (mantissa ++ exponent)) =
      (Number.signText negative, mantissa ++ exponent) := by
  obtain ⟨c, rest, rfl, hdigit⟩ := hplain.exists_cons
  cases negative with
  | true => rfl
  | false =>
    have hminus : c ≠ '-' := by rintro rfl; cases hdigit
    exact takeMinus.eq_2 _ fun rest heq => hminus (List.cons.inj heq).1

/-- Digits and an exponent are a literal, with a sign or without one. -/
theorem isLiteral_append (negative : Bool) (hmantissa : IsMantissa mantissa)
    (hexponent : IsExponent exponent) :
    IsLiteral (Number.signText negative ++ (mantissa ++ exponent)) := by
  have hmark : ∀ c ∈ exponent.head?, c.isDigit = false ∧ c ≠ '.' := by
    intro c hc
    obtain rfl | rfl := hexponent.mark c hc <;> decide
  have hexponent : takeExponent exponent = some (exponent, []) := hexponent
  simp only [IsLiteral, takeNumber, takeMinus_signText negative hmantissa.isPlain]
  cases hmantissa with
  | whole hsome hdigits hzero =>
    have hwhole : takeWhole (mantissa ++ exponent) = some (mantissa, exponent) :=
      takeWhole_append (takeWhole_eq_self hsome hdigits hzero) fun c hc => (hmark c hc).1
    have hfraction : takeFraction exponent = some ([], exponent) :=
      takeFraction_append (show takeFraction [] = some ([], []) from rfl) hmark
    simp [hwhole, hfraction, hexponent]
  | @pointed digits fraction hsome hdigits hzero hplaces hfraction =>
    have hwhole : takeWhole (digits ++ '.' :: (fraction ++ exponent)) =
        some (digits, '.' :: (fraction ++ exponent)) :=
      takeWhole_append (takeWhole_eq_self hsome hdigits hzero) (by simp)
    have htake : takeDigits (fraction ++ exponent) = some (fraction, exponent) :=
      takeDigits_append (takeDigits_eq_self hplaces hfraction) fun c hc => (hmark c hc).1
    simp [hwhole, takeFraction, htake, hexponent]

end Parts

/-! ## Significands -/

theorem le_ofDigitChars (digits : Text) (init : Nat) : init ≤ Nat.ofDigitChars 10 digits init := by
  induction digits generalizing init with
  | nil => exact Nat.le_refl init
  | cons digit digits ih =>
    rw [Nat.ofDigitChars_cons]
    exact Nat.le_trans (by omega) (ih _)

theorem withDigit_eq (significand : Nat) (digit : Char) :
    withDigit significand digit = 10 * significand + (digit.toNat - '0'.toNat) := by
  rw [withDigit, Nat.mul_comm]

/-- Digits before the point that find room are all gathered. -/
theorem gatherWhole_eq {significand : Nat} {digits : Text}
    (hroom : Nat.ofDigitChars 10 digits significand < significandLimit) :
    gatherWhole significand digits = ⟨Nat.ofDigitChars 10 digits significand, 0⟩ := by
  induction digits generalizing significand with
  | nil => rfl
  | cons digit digits ih =>
    rw [Nat.ofDigitChars_cons, ← withDigit_eq] at hroom ⊢
    rw [gatherWhole, if_pos (Nat.lt_of_le_of_lt (le_ofDigitChars digits _) hroom), ih hroom]

/-- Digits behind the point that find room are all gathered. -/
theorem gatherFraction_eq {d : Decimal} {digits : Text}
    (hroom : Nat.ofDigitChars 10 digits d.coefficient < significandLimit) :
    gatherFraction d digits =
      ⟨Nat.ofDigitChars 10 digits d.coefficient, d.exponent - digits.length⟩ := by
  induction digits generalizing d with
  | nil => simp [gatherFraction, Nat.ofDigitChars]
  | cons digit digits ih =>
    rw [Nat.ofDigitChars_cons, ← withDigit_eq] at hroom ⊢
    rw [gatherFraction, if_pos (Nat.lt_of_le_of_lt (le_ofDigitChars digits _) hroom), ih hroom]
    simp only [List.length_cons, Decimal.mk.injEq, true_and]
    omega

theorem gather_eq_numeralValue {mantissa : Text} (hplain : IsPlain mantissa)
    (hroom : (numeralValue mantissa).coefficient < significandLimit) :
    gatherFraction (gatherWhole 0 (mantissa.takeWhile Char.isDigit))
      ((mantissa.dropWhile Char.isDigit).drop 1) = numeralValue mantissa := by
  cases hplain with
  | whole _ hdigits =>
    rw [numeralValue_digits hdigits] at hroom ⊢
    rw [List.takeWhile_eq_self_iff.mpr hdigits, List.dropWhile_eq_nil_iff.mpr hdigits,
      gatherWhole_eq hroom]
    rfl
  | @pointed digits fraction _ hdigits hfraction =>
    rw [numeralValue_pointed hdigits hfraction] at hroom ⊢
    simp only [Decimal.ofDigits, Nat.ofDigitChars_append] at hroom ⊢
    have hwhole := Nat.lt_of_le_of_lt (le_ofDigitChars fraction _) hroom
    rw [List.takeWhile_append_of_pos hdigits, List.dropWhile_append_of_pos hdigits]
    rw [show ('.' :: fraction).takeWhile Char.isDigit = [] from rfl, List.append_nil,
      show ('.' :: fraction).dropWhile Char.isDigit = '.' :: fraction from rfl, List.drop_one,
      List.tail_cons, gatherWhole_eq hwhole, gatherFraction_eq hroom, Int.zero_sub]

/-- A literal with room for all its digits stands for what is gathered of it. -/
theorem decimalValue_append {mantissa exponent : Text} (hplain : IsPlain mantissa)
    (hexponent : IsExponent exponent)
    (hroom : (exactDecimal (mantissa ++ exponent)).coefficient < significandLimit) :
    decimalValue (mantissa ++ exponent) = exactDecimal (mantissa ++ exponent) := by
  obtain ⟨htake, hdrop⟩ := span_mark hplain hexponent
  rw [exactDecimal_append hplain hexponent] at hroom ⊢
  simp only [decimalValue, htake, hdrop, gather_eq_numeralValue hplain hroom]

/-! ## Scaling without rounding -/

theorem representable_tenPower :
    ∀ exponent < 23, Representable (Nat.pow 10 exponent * unitsPerOne) := by
  decide +kernel

theorem ofInt_eq {n : Nat} (hn : n < Nat.pow 2 53) :
    Number.ofInt n = .finite false (n * unitsPerOne) (representable_whole hn) := by
  have hsign : decide ((n : Int) < 0) = false := by simp
  rw [Number.ofInt, Int.natAbs_natCast, hsign]
  exact Number.ofRatio_eq_finite (representable_whole hn) (nearestUnits_one (representable_whole hn))

theorem tenPower_eq {exponent : Nat} (hexponent : exponent < 23) :
    tenPower exponent =
      .finite false (Nat.pow 10 exponent * unitsPerOne) (representable_tenPower _ hexponent) := by
  have hpower := representable_tenPower _ hexponent
  have hplaces : (-(exponent : Int)).toNat = 0 := by omega
  rw [tenPower, Decimal.toNumber, Decimal.numerator, Decimal.denominator, Int.toNat_natCast,
    hplaces, Nat.one_mul]
  exact Number.ofRatio_eq_finite hpower (nearestUnits_one hpower)

section Scaling

variable {n exponent : Nat} (hn : n < Nat.pow 2 53) (hexponent : exponent < 23)

include hn hexponent

/-- A product of numbers of the format is rounded once. -/
theorem timesTenPower_ofInt :
    timesTenPower (Number.ofInt n) exponent =
      Number.ofRatio false (n * Nat.pow 10 exponent * unitsPerOne) 1 := by
  rcases Nat.eq_zero_or_pos n with rfl | hpos
  · rw [timesTenPower, ofInt_eq hn, Number.isZero, if_pos (by rw [Nat.zero_mul]; rfl)]
    refine (Number.ofRatio_eq_finite (representable_whole hn) ?_).symm
    simp only [Nat.zero_mul]
    rfl
  have hzero : ¬(n * unitsPerOne == 0) = true := by
    have := Nat.mul_pos hpos unitsPerOne_pos
    simp only [beq_iff_eq]
    omega
  rw [timesTenPower, ofInt_eq hn, Number.isZero, if_neg hzero,
    if_pos (by unfold maxTenExponent; omega), tenPower_eq hexponent, Number.multiply]
  refine Number.ofRatio_congr unitsPerOne_pos Nat.one_pos ?_
  -- the number of units is too large to compute with
  generalize unitsPerOne = scale
  ac_rfl

/-- A quotient of numbers of the format is rounded once. -/
theorem overTenPower_ofInt :
    overTenPower (Number.ofInt n) exponent =
      Number.ofRatio false (n * unitsPerOne) (Nat.pow 10 exponent) := by
  have hten : 0 < Nat.pow 10 exponent := Nat.pow_pos (by decide)
  have hden := Nat.mul_pos hten unitsPerOne_pos
  rw [overTenPower, if_pos (by unfold maxTenExponent; omega), ofInt_eq hn, tenPower_eq hexponent,
    Number.divide, if_neg (Nat.ne_of_gt hden)]
  refine Number.ofRatio_congr hden hten ?_
  generalize unitsPerOne = scale
  ac_rfl

end Scaling

/-- One step of scaling rounds, and nothing before it does. -/
theorem scaled_eq_toNumber {d : Decimal} (hcoefficient : d.coefficient < Nat.pow 2 53)
    (hlow : -22 ≤ d.exponent) (hhigh : d.exponent ≤ 22) : scaled d = d.toNumber false := by
  obtain ⟨coefficient, exponent⟩ := d
  simp only at hcoefficient hlow hhigh
  rw [scaled, Decimal.toNumber, Decimal.numerator, Decimal.denominator]
  simp only
  split
  · next hnonneg =>
    have hplaces : (-exponent).toNat = 0 := by omega
    rw [hplaces, timesTenPower_ofInt hcoefficient (by omega)]
  · next hneg =>
    have hwhole : exponent.toNat = 0 := by omega
    rw [hwhole, overTenPower_ofInt hcoefficient (by omega)]
    simp only [Nat.pow_eq, Nat.pow_zero, Nat.mul_one]

theorem negate_toNumber (d : Decimal) : (d.toNumber false).negate = d.toNumber true := by
  unfold Decimal.toNumber Number.ofRatio
  split <;> rfl

section Reading

variable {mantissa exponent : Text}

/-- **A short literal is read as the nearest number.** -/
theorem numberValue_eq_nearestNumber (negative : Bool) (hplain : IsPlain mantissa)
    (hexponent : IsExponent exponent)
    (hshort : IsShort (Number.signText negative ++ (mantissa ++ exponent))) :
    numberValue (Number.signText negative ++ (mantissa ++ exponent)) =
      nearestNumber (Number.signText negative ++ (mantissa ++ exponent)) := by
  have htake : takeMinus (Number.signText negative ++ (mantissa ++ exponent)) =
      (Number.signText negative, mantissa ++ exponent) := takeMinus_signText negative hplain
  simp only [IsShort, htake] at hshort
  obtain ⟨hcoefficient, hlow, hhigh⟩ := hshort
  have hlimit : Nat.pow 2 53 < significandLimit := by decide
  have hvalue := decimalValue_append hplain hexponent (Nat.lt_trans hcoefficient hlimit)
  have hscaled := scaled_eq_toNumber hcoefficient hlow hhigh
  simp only [numberValue, nearestNumber, htake, hvalue, hscaled]
  cases negative with
  | false => simp [Number.signText]
  | true => simp [Number.signText, negate_toNumber]

end Reading

/-! ## What is written -/

/-- A text without a sign is a literal, and the number nearest to it is that of a decimal. -/
inductive Writes (d : Decimal) : Text → Prop
  | intro {mantissa exponent : Text} (hmantissa : IsMantissa mantissa)
      (hexponent : IsExponent exponent)
      (hvalue : ∀ negative,
        (exactDecimal (mantissa ++ exponent)).toNumber negative = d.toNumber negative) :
      Writes d (mantissa ++ exponent)

section Layouts

variable {d : Decimal}

theorem isExponent_nil : IsExponent [] := rfl

/-- A literal without an exponent has the value of its digits. -/
theorem writes_mantissa {mantissa : Text} (hmantissa : IsMantissa mantissa)
    (hvalue : ∀ negative, (numeralValue mantissa).toNumber negative = d.toNumber negative) :
    Writes d mantissa := by
  rw [← List.append_nil mantissa]
  refine .intro hmantissa isExponent_nil fun negative => ?_
  rw [exactDecimal_append hmantissa.isPlain isExponent_nil, show exponentValue [] = 0 from rfl,
    Int.add_zero]
  exact hvalue negative

/-- Moving a zero from the coefficient to the exponent keeps the value. -/
theorem toNumber_shift (negative : Bool) (coefficient : Nat) (exponent : Int) :
    Decimal.toNumber negative ⟨10 * coefficient, exponent⟩ =
      Decimal.toNumber negative ⟨coefficient, exponent + 1⟩ := by
  simp only [Decimal.toNumber, Number.ofRatio, Decimal.nearestUnits_shift]

theorem isDigit_of_mem_positional (hexponent : 0 ≤ d.exponent) :
    ∀ c ∈ d.positional, c.isDigit = true := by
  have hplaces : (-d.exponent).toNat = 0 := by omega
  intro c hc
  simp only [Decimal.positional, if_pos hplaces] at hc
  rcases List.mem_append.mp hc with hc | hc
  · exact Decimal.isDigit_of_mem_digits hc
  · exact Decimal.isDigit_of_mem_replicate hc

/-- A whole number has a zero behind its point. -/
theorem writes_whole (hzero : d.coefficient = 0 → d.exponent = 0) (hexponent : 0 ≤ d.exponent) :
    Writes d (d.positional ++ ['.', '0']) := by
  have hplaces : (-d.exponent).toNat = 0 := by omega
  have hpositional : d.positional = d.digits ++ List.replicate d.exponent.toNat '0' := by
    simp only [Decimal.positional, if_pos hplaces]
  have hdigits := isDigit_of_mem_positional hexponent
  obtain ⟨first, later, hcons⟩ := List.exists_cons_of_ne_nil
    (show d.digits ≠ [] from Nat.toDigits_ne_nil)
  have hsome : d.positional ≠ [] := by simp [hpositional, hcons]
  -- digits that begin with zero are those of zero, with no other zeros behind them
  have hlone : d.positional.head? = some '0' → d.positional = ['0'] := by
    intro hhead
    have hfirst : d.digits.head? = some '0' := by
      rw [← hhead, hpositional, hcons, List.cons_append, List.head?_cons, List.head?_cons]
    rw [hpositional, hzero (eq_zero_of_head?_toDigits hfirst), Decimal.digits,
      toDigits_eq_zero_of_head? hfirst]
    rfl
  have hplace : ∀ c ∈ ['0'], c.isDigit = true := List.forall_mem_singleton.mpr rfl
  refine writes_mantissa (.pointed hsome hdigits hlone (List.cons_ne_nil _ _) hplace)
    fun negative => ?_
  rw [numeralValue_pointed hdigits hplace, ← Decimal.toNumber_positional negative d,
    numeralValue_digits hdigits, Decimal.ofDigits, Decimal.ofDigits, Nat.ofDigitChars_append]
  exact toNumber_shift negative _ (-1)

/-- A number with digits behind its point. -/
theorem writes_fraction (hexponent : d.exponent < 0) : Writes d d.positional := by
  have hplaces : (-d.exponent).toNat ≠ 0 := by omega
  have hdigits : ∀ c ∈ d.digits, c.isDigit = true := fun c hc => Decimal.isDigit_of_mem_digits hc
  have hne : d.digits ≠ [] := Nat.toDigits_ne_nil
  refine writes_mantissa ?_ fun negative => Decimal.toNumber_positional negative d
  simp only [Decimal.positional, if_neg hplaces]
  split
  -- a point inside the digits, or zeros in front of them
  · next hinside =>
    refine .pointed ?_ (fun c hc => hdigits c (List.mem_of_mem_take hc)) ?_ ?_
      fun c hc => hdigits c (List.mem_of_mem_drop hc)
    · simp only [ne_eq, List.take_eq_nil_iff, hne, or_false]
      omega
    · intro hzero
      rw [List.head?_take, if_neg (by omega)] at hzero
      have hlength := congrArg List.length (toDigits_eq_zero_of_head? hzero)
      rw [← Decimal.digits] at hlength
      simp only [List.length_singleton] at hlength
      omega
    · simp only [ne_eq, List.drop_eq_nil_iff]
      omega
  · refine @IsMantissa.pointed ['0'] _ (by simp) (by simp) (fun _ => rfl) (by simp [hne]) ?_
    intro c hc
    rcases List.mem_append.mp hc with hc | hc
    · exact Decimal.isDigit_of_mem_replicate hc
    · exact hdigits c hc

theorem isExponent_mark (exponent : Int) :
    IsExponent ('e' :: (if exponent < 0 then '-' else '+') ::
      Nat.toDigits 10 exponent.natAbs) := by
  have htake := takeDigits_eq_self Nat.toDigits_ne_nil
    (@isDigit_of_mem_toDigits exponent.natAbs)
  split <;> simp [IsExponent, takeExponent, takeExponentSign, htake]

theorem exponentValue_mark (exponent : Int) :
    exponentValue ('e' :: (if exponent < 0 then '-' else '+') ::
      Nat.toDigits 10 exponent.natAbs) = exponent := by
  split <;>
    simp only [exponentValue, List.drop_succ_cons, List.drop_zero, takeExponentSign,
      Nat.ofDigitChars_ten_toDigits, ↓reduceIte]
  · omega
  · rw [if_neg (by decide)]
    omega

/-- One digit before the point, and the place of that digit as the exponent. -/
theorem writes_withExponent (d : Decimal) : Writes d d.withExponent := by
  have hdigits : ∀ c ∈ d.digits, c.isDigit = true := fun c hc => Decimal.isDigit_of_mem_digits hc
  have hvalue : Nat.ofDigitChars 10 d.digits 0 = d.coefficient := Nat.ofDigitChars_ten_toDigits
  have hexponent := isExponent_mark d.leadingPlace
  have hplace : d.leadingPlace = d.exponent + d.digits.length - 1 := rfl
  unfold Decimal.withExponent
  simp only
  split
  · next hnil => exact absurd hnil Nat.toDigits_ne_nil
  · next digit hdigit =>
    rw [hdigit] at hdigits hvalue hplace
    have hmantissa : IsMantissa [digit] :=
      .whole (List.cons_ne_nil _ _) hdigits fun hzero => by rw [Option.some.inj hzero]
    have hsum : -((0 : Nat) : Int) + d.leadingPlace = d.exponent := by
      rw [List.length_singleton] at hplace
      omega
    have hexact := exactDecimal_append hmantissa.isPlain hexponent
    rw [exponentValue_mark, numeralValue_digits hdigits, Decimal.ofDigits, hvalue, hsum] at hexact
    exact .intro hmantissa hexponent fun negative => congrArg (Decimal.toNumber negative) hexact
  · next digit others hsome hcons =>
    rw [hcons] at hdigits hvalue hplace
    have hvalue : Nat.ofDigitChars 10 ([digit] ++ others) 0 = d.coefficient := hvalue
    obtain ⟨hdigit, hothers⟩ := List.forall_mem_cons.mp hdigits
    have hdigit : ∀ c ∈ [digit], c.isDigit = true := List.forall_mem_singleton.mpr hdigit
    have hmantissa : IsMantissa ([digit] ++ '.' :: others) :=
      .pointed (List.cons_ne_nil _ _) hdigit (fun hzero => by rw [Option.some.inj hzero])
        (fun hnil => hsome hnil) hothers
    have hsum : -(others.length : Int) + d.leadingPlace = d.exponent := by
      rw [List.length_cons] at hplace
      omega
    have hexact := exactDecimal_append hmantissa.isPlain hexponent
    rw [exponentValue_mark, numeralValue_pointed hdigit hothers, Decimal.ofDigits, hvalue,
      hsum] at hexact
    exact .intro hmantissa hexponent fun negative => congrArg (Decimal.toNumber negative) hexact

theorem writes_scientificDigits (hsome : d.coefficient ≠ 0) :
    Writes d (Number.scientificDigits d) := by
  unfold Number.scientificDigits
  split
  · split
    · next hexponent => exact writes_whole (fun hzero => absurd hzero hsome) hexponent
    · next hexponent => exact writes_fraction (by omega)
  · exact writes_withExponent d

end Layouts

/-! ## Numbers read again -/

section Numbers

variable {x : Number} {literal : Text}

/-- What is written for a positive number has a digit other than zero. -/
theorem coefficient_shortest_ne_zero (tie : TieRule) {units : Nat} (hunits : Representable units)
    (hpos : units ≠ 0) : (Decimal.shortest tie units).coefficient ≠ 0 := by
  intro hzero
  have hnearest := Decimal.nearestUnits_shortest tie hunits
  have hden := Decimal.denominator_pos (Decimal.shortest tie units)
  rw [Decimal.numerator, hzero, Nat.zero_mul, Nat.zero_mul,
    nearestUnits_congr hden Nat.one_pos (by rw [Nat.zero_mul, Nat.zero_mul])] at hnearest
  exact hpos hnearest.symm

/-- A number that is written at all is finite, and its literal is one of a decimal to which it is
nearest. -/
theorem exists_writes (hwrite : x.scientific? = some literal) :
    ∃ negative d unsigned, literal = Number.signText negative ++ unsigned ∧ Writes d unsigned ∧
      d.toNumber negative = x := by
  cases x with
  | nan => cases hwrite
  | infinite => cases hwrite
  | finite negative units hunits =>
    obtain rfl := Option.some.inj hwrite
    refine ⟨negative, ?_⟩
    split
    · next hzero =>
      subst hzero
      have hzero : Writes ⟨0, 0⟩ ['0', '.', '0'] :=
        @writes_whole ⟨0, 0⟩ (fun _ => rfl) (Int.le_refl 0)
      exact ⟨_, _, rfl, hzero, Number.ofRatio_eq_finite hunits (by decide +kernel)⟩
    · next hpos =>
      have hsome := coefficient_shortest_ne_zero .even hunits hpos
      exact ⟨_, _, rfl, writes_scientificDigits hsome,
        Number.ofRatio_eq_finite hunits (Decimal.nearestUnits_shortest .even hunits)⟩

theorem isLiteral_scientific? (hwrite : x.scientific? = some literal) : IsLiteral literal := by
  obtain ⟨negative, d, unsigned, rfl, hwrites, -⟩ := exists_writes hwrite
  cases hwrites with
  | intro hmantissa hexponent => exact isLiteral_append negative hmantissa hexponent

/-- **The number nearest to a written literal is the number that was written.** -/
theorem nearestNumber_scientific? (hwrite : x.scientific? = some literal) :
    nearestNumber literal = x := by
  obtain ⟨negative, d, unsigned, rfl, hwrites, hnearest⟩ := exists_writes hwrite
  cases hwrites with
  | intro hmantissa hexponent hvalue =>
    rw [nearestNumber, takeMinus_signText negative hmantissa.isPlain]
    cases negative <;> exact (hvalue _).trans hnearest

/-- A short literal is read as the number that it was written for. -/
theorem numberValue_scientific? (hwrite : x.scientific? = some literal) (hshort : IsShort literal) :
    numberValue literal = x := by
  rw [← nearestNumber_scientific? hwrite]
  obtain ⟨negative, d, unsigned, rfl, hwrites, hnearest⟩ := exists_writes hwrite
  cases hwrites with
  | intro hmantissa hexponent =>
    exact numberValue_eq_nearestNumber negative hmantissa.isPlain hexponent hshort

end Numbers

end Reckoner.Json
