import Reckoner.Proofs.Lexer.Positions
import Reckoner.Proofs.Number.Nearest
import Reckoner.Proofs.Number.ReadBack

/-!
# Numerals are taken at their longest

A numeral is a beginning of the text made of digits, at most one point and at most one separator,
where a comma has to separate a group of three digits in the text (`MayBeNumeral`).  Any beginning
of such a beginning is one too, so the loop that goes on character by character as long as it may
ends behind the longest of them (`isPrefix_takeNumeral`).

If a digit stands in front, what is left of a numeral without its separator is digits with or
without a point (`isPlain_withoutSeparators`).  So it always has a value, `plainValue`, and all that
can be wrong with it is that the value is rounded to an infinite number.
-/

namespace Reckoner

/-! ## Beginnings that may be numerals -/

/-- Whether a character separates groups of digits. -/
def isSeparator (c : Char) : Bool :=
  c == '_' || c == ','

/-- Exactly three digits stand in front of the text: behind them is another character, or the
end. -/
def BeginsWithGroup (text : Text) : Prop :=
  (text.takeWhile Char.isDigit).length = 3

/-- A beginning of a text made of digits, at most so many points and at most so many separators.
A comma in it stands before a group of digits in the text. -/
structure MayBeNumeral (points separators : Nat) (text numeral : Text) : Prop where
  begins : numeral <+: text
  characters : ∀ c ∈ numeral, c.isDigit = true ∨ c = '.' ∨ isSeparator c = true
  count_points : numeral.count '.' ≤ points
  count_separators : numeral.countP isSeparator ≤ separators
  comma : ∀ i, numeral[i]? = some ',' → BeginsWithGroup (text.drop (i + 1))

section

variable {c : Char} {rest text other : Text} {points separators : Nat}

theorem isSeparator_eq_false_of_isDigit (hdigit : c.isDigit = true) : isSeparator c = false := by
  by_contra hseparator
  simp only [isSeparator, Bool.not_eq_false, Bool.or_eq_true, beq_iff_eq] at hseparator
  rcases hseparator with rfl | rfl <;> simp at hdigit

theorem groupsDigits_iff : groupsDigits rest = true ↔ BeginsWithGroup rest := by
  unfold BeginsWithGroup groupsDigits
  split
  · next a b c later =>
    by_cases ha : a.isDigit = true <;> by_cases hb : b.isDigit = true <;>
      by_cases hc : c.isDigit = true <;> simp only [List.takeWhile_cons, ha, hb, hc] <;> simp
    rcases later with _ | ⟨d, later⟩
    · simp
    · by_cases hd : d.isDigit = true <;> simp [hd]
  · next hshort =>
    refine iff_of_false (by simp) fun hgroup => ?_
    have hlength : 3 ≤ rest.length := hgroup ▸ (List.takeWhile_prefix Char.isDigit).length_le
    rcases rest with _ | ⟨a, _ | ⟨b, _ | ⟨c, later⟩⟩⟩
    · simp at hlength
    · simp at hlength
    · simp at hlength
    · exact hshort a b c later rfl

theorem mayBeNumeral_nil : MayBeNumeral points separators text [] :=
  ⟨List.nil_prefix, by simp, by simp, by simp, by simp⟩

/-- A character in front counts for what it is. -/
theorem mayBeNumeral_cons : MayBeNumeral (points + if c == '.' then 1 else 0)
      (separators + if isSeparator c then 1 else 0) (c :: rest) (c :: other) ↔
    (c.isDigit = true ∨ c = '.' ∨ isSeparator c = true) ∧ (c = ',' → BeginsWithGroup rest) ∧
      MayBeNumeral points separators rest other := by
  constructor
  · rintro ⟨hbegins, hcharacters, hpoints, hseparators, hcomma⟩
    rw [List.count_cons] at hpoints
    rw [List.countP_cons] at hseparators
    obtain ⟨hc, hcharacters⟩ := List.forall_mem_cons.mp hcharacters
    refine ⟨hc, fun h => hcomma 0 (by simp [h]), (List.prefix_cons_inj c).mp hbegins, hcharacters,
      by omega, by omega, fun i hi => hcomma (i + 1) hi⟩
  · rintro ⟨hc, hgroup, hbegins, hcharacters, hpoints, hseparators, hcomma⟩
    refine ⟨(List.prefix_cons_inj c).mpr hbegins, List.forall_mem_cons.mpr ⟨hc, hcharacters⟩, ?_,
      ?_, ?_⟩
    · rw [List.count_cons]
      omega
    · rw [List.countP_cons]
      omega
    · rintro (_ | i) hi
      · exact hgroup (Option.some.inj hi)
      · exact hcomma i hi

theorem mayBeNumeral_digit (hdigit : c.isDigit = true) :
    MayBeNumeral points separators (c :: rest) (c :: other) ↔
      MayBeNumeral points separators rest other := by
  have hcomma : c ≠ ',' := by
    rintro rfl
    simp at hdigit
  have hcons := @mayBeNumeral_cons c rest other points separators
  simpa [ne_point_of_isDigit hdigit, isSeparator_eq_false_of_isDigit hdigit, hdigit, hcomma]
    using hcons

theorem mayBeNumeral_point :
    MayBeNumeral (points + 1) separators ('.' :: rest) ('.' :: other) ↔
      MayBeNumeral points separators rest other := by
  have hcons := @mayBeNumeral_cons '.' rest other points separators
  simpa [isSeparator] using hcons

theorem mayBeNumeral_separator (hseparator : isSeparator c = true) :
    MayBeNumeral points (separators + 1) (c :: rest) (c :: other) ↔
      (c = ',' → BeginsWithGroup rest) ∧ MayBeNumeral points separators rest other := by
  have hpoint : c ≠ '.' := by
    rintro rfl
    simp [isSeparator] at hseparator
  have hcons := @mayBeNumeral_cons c rest other points separators
  simpa [hpoint, hseparator] using hcons

/-! ## The longest beginning -/

/-- What continues a numeral may be one, with what has not been there yet. -/
theorem mayBeNumeral_takeNumeral (hasPoint hasSeparator : Bool) (text : Text) :
    MayBeNumeral (!hasPoint).toNat (!hasSeparator).toNat text
      (takeNumeral hasPoint hasSeparator text) := by
  fun_induction takeNumeral hasPoint hasSeparator text with
  | case1 => exact mayBeNumeral_nil
  | case2 hasPoint hasSeparator c rest hdigit ih => exact (mayBeNumeral_digit hdigit).mpr ih
  | case3 hasPoint hasSeparator c rest _ hc ih =>
      obtain ⟨rfl, hpoint⟩ := hc
      rw [hpoint]
      exact mayBeNumeral_point.mpr ih
  | case4 hasPoint hasSeparator c rest _ _ hc ih =>
      obtain ⟨hc, hnone⟩ := hc
      have hseparator : isSeparator c = true := by
        rcases hc with rfl | ⟨rfl, _⟩ <;> rfl
      have hgroup : c = ',' → BeginsWithGroup rest := by
        rintro rfl
        exact groupsDigits_iff.mp (hc.resolve_left (by decide)).2
      rw [hnone]
      exact (mayBeNumeral_separator hseparator).mpr ⟨hgroup, ih⟩
  | case5 => exact mayBeNumeral_nil

/-- **The longest beginning that may be a numeral is taken.** -/
theorem MayBeNumeral.isPrefix_takeNumeral {hasPoint hasSeparator : Bool} {text other : Text}
    (hother : MayBeNumeral (!hasPoint).toNat (!hasSeparator).toNat text other) :
    other <+: takeNumeral hasPoint hasSeparator text := by
  induction text generalizing hasPoint hasSeparator other with
  | nil => exact hother.begins
  | cons c rest ih =>
    rcases other with _ | ⟨c', other⟩
    · exact List.nil_prefix
    obtain rfl : c' = c := (List.cons_prefix_cons.mp hother.begins).1
    rcases hother.characters c' List.mem_cons_self with hdigit | rfl | hseparator
    · rw [takeNumeral, if_pos hdigit]
      exact (List.prefix_cons_inj c').mpr (ih ((mayBeNumeral_digit hdigit).mp hother))
    · cases hasPoint with
      | true => exact absurd hother.count_points (by simp)
      | false => exact (List.prefix_cons_inj '.').mpr (@ih true _ _ (mayBeNumeral_point.mp hother))
    · cases hasSeparator with
      | true => exact absurd hother.count_separators (by simp [hseparator])
      | false =>
        obtain ⟨hgroup, htail⟩ := (mayBeNumeral_separator hseparator).mp hother
        -- the two branches in front, for a digit and for a point, are not for a separator
        have hdigit : ¬ c'.isDigit = true := fun hdigit => by
          simp [isSeparator_eq_false_of_isDigit hdigit] at hseparator
        have hpoint : ¬ (c' = '.' ∧ (!hasPoint) = true) := by
          rintro ⟨rfl, _⟩
          simp [isSeparator] at hseparator
        have hmay : c' = '_' ∨ c' = ',' ∧ groupsDigits rest = true := by
          refine (by simpa [isSeparator] using hseparator : c' = '_' ∨ c' = ',').imp_right ?_
          exact fun hcomma => ⟨hcomma, groupsDigits_iff.mpr (hgroup hcomma)⟩
        rw [takeNumeral, if_neg hdigit, if_neg hpoint, if_pos ⟨hmay, rfl⟩]
        exact (List.prefix_cons_inj c').mpr (@ih _ true _ htail)

end

/-! ## What is left without the separator -/

/-- A numeral without its separators. -/
def withoutSeparators (numeral : Text) : Text :=
  numeral.filter (!isSeparator ·)

theorem dropWhile_withoutSeparators (numeral : Text) :
    (withoutSeparators numeral).dropWhile (· ≠ '.') =
      withoutSeparators (numeral.dropWhile (· ≠ '.')) := by
  induction numeral with
  | nil => rfl
  | cons c numeral ih =>
    by_cases hpoint : c = '.'
    · subst hpoint
      rfl
    · rw [List.dropWhile_cons_of_pos (by simpa using hpoint), ← ih]
      by_cases hseparator : isSeparator c = true
      · rw [withoutSeparators, List.filter_cons_of_neg (by simp [hseparator]), ← withoutSeparators]
      · rw [withoutSeparators, List.filter_cons_of_pos (by simp [hseparator]), ← withoutSeparators,
          List.dropWhile_cons_of_pos (by simpa using hpoint)]

/-- Separators have no part in the value. -/
theorem numeralValue_withoutSeparators (numeral : Text) :
    numeralValue (withoutSeparators numeral) = numeralValue numeral := by
  have hkept : (fun c => c.isDigit && !isSeparator c) = Char.isDigit := by
    funext c
    by_cases hdigit : c.isDigit = true
    · simp [isSeparator_eq_false_of_isDigit hdigit]
    · simp [hdigit]
  simp only [numeralValue, dropWhile_withoutSeparators]
  simp only [withoutSeparators, List.filter_filter, List.countP_filter, hkept]

/-- What begins with a digit is plain without its separator. -/
theorem MayBeNumeral.isPlain_withoutSeparators {c : Char} {text numeral : Text} {separators : Nat}
    (hmay : MayBeNumeral 1 separators text (c :: numeral)) (hdigit : c.isDigit = true) :
    IsPlain (withoutSeparators (c :: numeral)) := by
  have hcount : (withoutSeparators (c :: numeral)).count '.' ≤ 1 :=
    (List.filter_sublist.count_le '.').trans hmay.count_points
  have hcharacters : ∀ d ∈ withoutSeparators (c :: numeral), d ≠ '.' → d.isDigit = true := by
    intro d hd hpoint
    obtain ⟨hd, hseparator⟩ := List.mem_filter.mp hd
    have hseparator : isSeparator d = false := by simpa using hseparator
    simpa [hpoint, hseparator] using hmay.characters d hd
  have hhead : ∃ later, withoutSeparators (c :: numeral) = c :: later :=
    ⟨_, List.filter_cons_of_pos (by simp [isSeparator_eq_false_of_isDigit hdigit])⟩
  generalize withoutSeparators (c :: numeral) = plain at hcount hcharacters hhead
  obtain ⟨later, rfl⟩ := hhead
  by_cases hpoint : '.' ∈ c :: later
  · obtain ⟨digits, fraction, hsplit, hbefore⟩ := List.eq_append_cons_of_mem hpoint
    rw [hsplit] at hcount hcharacters ⊢
    rw [List.count_append, List.count_cons_self] at hcount
    have hbehind : '.' ∉ fraction := List.count_eq_zero.mp (by omega)
    have hsome : digits ≠ [] := by
      rintro rfl
      obtain ⟨rfl, _⟩ := List.cons.inj hsplit
      simp at hdigit
    exact .pointed hsome
      (fun d hd => hcharacters d (by simp [hd]) (ne_of_mem_of_not_mem hd hbefore))
      (fun d hd => hcharacters d (by simp [hd]) (ne_of_mem_of_not_mem hd hbehind))
  · exact .whole (List.cons_ne_nil _ _) fun d hd =>
      hcharacters d hd (ne_of_mem_of_not_mem hd hpoint)

/-! ## Values -/

/-- The value of digits in front of a point and digits behind it. -/
def plainValue (text : Text) : ℚ :=
  let whole := text.takeWhile (· ≠ '.')
  let fraction := (text.dropWhile (· ≠ '.')).tail
  Nat.ofDigitChars 10 whole 0 + Nat.ofDigitChars 10 fraction 0 / 10 ^ fraction.length

theorem Decimal.rounds_ofDigits (digits : Text) (places : Nat) :
    Number.Rounds (Nat.ofDigitChars 10 digits 0 / 10 ^ places)
      ((ofDigits digits places).toNumber false) := by
  have hplaces : (-(-(places : Int))).toNat = places ∧ (-(places : Int)).toNat = 0 := by omega
  refine Number.rounds_ofRatio (denominator_pos _) ?_
  simp only [numerator, denominator, ofDigits, hplaces, Nat.pow_eq]
  push_cast
  ring

/-- **The value of a plain text is rounded.** -/
theorem IsPlain.rounds {text : Text} (hplain : IsPlain text) :
    Number.Rounds (plainValue text) ((numeralValue text).toNumber false) := by
  have hbefore {digits : Text} (hdigits : ∀ c ∈ digits, c.isDigit = true) :
      ∀ c ∈ digits, decide (c ≠ '.') = true := by
    simpa using fun c hc => ne_point_of_isDigit (hdigits c hc)
  cases hplain with
  | whole _ hdigits =>
    have hvalue : plainValue text = Nat.ofDigitChars 10 text 0 / 10 ^ 0 := by
      have hwhole : text.takeWhile (· ≠ '.') = text :=
        List.takeWhile_eq_self_iff.mpr (hbefore hdigits)
      have hnone : text.dropWhile (· ≠ '.') = [] := List.dropWhile_eq_nil_iff.mpr (hbefore hdigits)
      simp only [plainValue, hwhole, hnone]
      simp
    rw [hvalue, numeralValue_digits hdigits]
    exact Decimal.rounds_ofDigits text 0
  | @pointed digits fraction _ hdigits hfraction =>
    have hvalue : plainValue (digits ++ '.' :: fraction) =
        Nat.ofDigitChars 10 (digits ++ fraction) 0 / 10 ^ fraction.length := by
      have hwhole : (digits ++ '.' :: fraction).takeWhile (· ≠ '.') = digits := by
        rw [List.takeWhile_append_of_pos (hbefore hdigits)]
        simp
      have hbehind : (digits ++ '.' :: fraction).dropWhile (· ≠ '.') = '.' :: fraction := by
        rw [List.dropWhile_append_of_pos (hbefore hdigits)]
        simp
      have hscale : (10 : ℚ) ^ fraction.length ≠ 0 := by positivity
      simp only [plainValue, hwhole, hbehind, List.tail_cons]
      rw [Nat.ofDigitChars_append,
        @Nat.ofDigitChars_eq_ofDigitChars_zero fraction (Nat.ofDigitChars 10 digits 0)]
      push_cast
      rw [add_div, mul_div_cancel_left₀ _ hscale]
    rw [hvalue, numeralValue_pointed hdigits hfraction]
    exact Decimal.rounds_ofDigits (digits ++ fraction) fraction.length

/-! ## Numerals -/

/-- The longest beginning of a text that may be a numeral. -/
structure IsNumeral (text numeral : Text) : Prop where
  may : MayBeNumeral 1 1 text numeral
  none_longer : ∀ other, MayBeNumeral 1 1 text other → other.length ≤ numeral.length

theorem isNumeral_takeNumeral (text : Text) : IsNumeral text (takeNumeral false false text) where
  may := mayBeNumeral_takeNumeral false false text
  none_longer _ hother := (@MayBeNumeral.isPrefix_takeNumeral false false _ _ hother).length_le

/-- A text has one longest beginning that may be a numeral. -/
theorem IsNumeral.eq {text numeral other : Text} (hnumeral : IsNumeral text numeral)
    (hother : IsNumeral text other) : numeral = other := by
  have hle := hnumeral.none_longer other hother.may
  have hle' := hother.none_longer numeral hnumeral.may
  have hbegins := List.prefix_of_prefix_length_le hnumeral.may.begins hother.may.begins hle'
  exact hbegins.eq_of_length (by omega)

/-- **Numerals.**  At a digit the longest beginning of the text that may be a numeral is read.
Without its separator it is digits with or without a point, and its value rounds to one number.
If that is infinite, the numeral is invalid, and otherwise it stands for the number. -/
theorem Cursor.readNumeral_longest {cursor : Cursor} {c : Char} {rest : Text}
    (hrest : cursor.rest = c :: rest) (hdigit : c.isDigit = true) :
    ∃ numeral value, IsNumeral cursor.rest numeral ∧ IsPlain (withoutSeparators numeral) ∧
      (∀ x, Number.Rounds (plainValue (withoutSeparators numeral)) x ↔ x = value) ∧
      cursor.readNumeral =
        if value = .infinite false then
          (.error (.invalidNumber numeral (cursor.spanOf numeral)
            ⟨cursor.source, cursor.spanOf numeral⟩), cursor.advance numeral)
        else (.ok ⟨.number value, cursor.spanOf numeral⟩, cursor.advance numeral) := by
  have hnumeral := isNumeral_takeNumeral cursor.rest
  have hplain : IsPlain (withoutSeparators (takeNumeral false false cursor.rest)) := by
    have hmay := hnumeral.may
    rw [hrest, takeNumeral_cons_of_isDigit hdigit] at hmay ⊢
    exact hmay.isPlain_withoutSeparators hdigit
  have hrounds := hplain.rounds
  rw [numeralValue_withoutSeparators] at hrounds
  -- the number itself is never computed
  obtain ⟨value, hvalue⟩ :
      ∃ value, (numeralValue (takeNumeral false false cursor.rest)).toNumber false = value :=
    ⟨_, rfl⟩
  rw [hvalue] at hrounds
  refine ⟨_, value, hnumeral, hplain, fun x => ⟨fun hx => hx.eq hrounds, ?_⟩, ?_⟩
  · rintro rfl
    exact hrounds
  · simp only [readNumeral, hvalue, emit, snippet, hrounds.isFinite_iff, ite_not]

/-- The comma in front of three digits is taken, and the one in front of two is left. -/
theorem Cursor.readNumeral_longest_grouped :
    let cursor : Cursor := ⟨"max(1,234.5,67".toList, 4, "1,234.5,67".toList⟩
    (cursor.rest = '1' :: ",234.5,67".toList ∧ '1'.isDigit = true) ∧
      ∃ value, Number.Rounds (12345 / 10) value ∧
        cursor.readNumeral =
          (.ok ⟨.number value, ⟨4, 11⟩⟩, ⟨"max(1,234.5,67".toList, 11, ",67".toList⟩) := by
  intro cursor
  have hrest : cursor.rest = '1' :: ",234.5,67".toList := by decide +kernel
  have hspan : cursor.spanOf "1,234.5".toList = ⟨4, 11⟩ := by decide +kernel
  have hafter : cursor.advance "1,234.5".toList =
      ⟨"max(1,234.5,67".toList, 11, ",67".toList⟩ := by decide +kernel
  have hplain : plainValue (withoutSeparators "1,234.5".toList) = 12345 / 10 := by decide +kernel
  obtain ⟨numeral, value, hnumeral, -, hvalue, hread⟩ := readNumeral_longest hrest rfl
  obtain rfl : numeral = "1,234.5".toList :=
    (hnumeral.eq (isNumeral_takeNumeral cursor.rest)).trans (by decide +kernel)
  have hok : value ≠ .infinite false := by
    intro hinfinite
    rw [if_pos hinfinite] at hread
    exact absurd (congrArg (·.1.isOk) hread) (by decide +kernel)
  rw [if_neg hok, hspan, hafter] at hread
  exact ⟨⟨hrest, rfl⟩, value, hplain ▸ (hvalue value).mpr rfl, hread⟩

end Reckoner
