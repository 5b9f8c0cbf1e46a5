import Mathlib.Data.List.TakeWhile
import Reckoner.Json.Decode
import Reckoner.Json.Writer

/-!
# Literals read back

The literals that a writer makes are read as what they were written for.

* A number literal goes on as long as characters could continue it.  `takeNumber_append` carries
  a literal that is a whole text (`IsLiteral`) to the beginning of any longer text where no such
  character stands behind it (`EndsLiteral`), one digit run after the other.
* The digits of a whole number do not begin with zero, except for zero itself, so they are a
  literal (`isLiteral_ofInt`), and its value is the number (`asInt?_ofInt`).
* In a string, each character is read back from its own escape (`takePieces_escapeChar`); as no
  escape is half of a pair, nothing is lost when the pieces are joined (`takeString_quoted`).
-/

namespace Reckoner.Json

/-! ## Runs of digits -/

/-- No character at the beginning of a text continues a number literal. -/
def EndsLiteral (text : Text) : Prop :=
  ∀ c ∈ text.head?, c.isDigit = false ∧ c ≠ '.' ∧ c ≠ 'e' ∧ c ≠ 'E'

variable {text digits literal rest behind : Text}

/-- A run of digits ends where no digit stands behind it. -/
theorem span_digits_append (text : Text) (hbehind : ∀ c ∈ behind.head?, c.isDigit = false) :
    (text ++ behind).takeWhile Char.isDigit = text.takeWhile Char.isDigit ∧
      (text ++ behind).dropWhile Char.isDigit = text.dropWhile Char.isDigit ++ behind := by
  induction text with
  | nil =>
    cases behind with
    | nil => exact ⟨rfl, rfl⟩
    | cons c behind => simp [hbehind c rfl]
  | cons c text ih => cases hc : c.isDigit <;> simp [hc, ih]

theorem takeDigits_append (htake : takeDigits text = some (digits, rest))
    (hbehind : ∀ c ∈ behind.head?, c.isDigit = false) :
    takeDigits (text ++ behind) = some (digits, rest ++ behind) := by
  obtain ⟨htaken, hleft⟩ := span_digits_append text hbehind
  simp only [takeDigits, htaken, hleft] at htake ⊢
  split at htake
  · cases htake
  · obtain ⟨rfl, rfl⟩ := Prod.mk.inj (Option.some.inj htake)
    rfl

theorem takeWhole_append (htake : takeWhole text = some (digits, rest))
    (hbehind : ∀ c ∈ behind.head?, c.isDigit = false) :
    takeWhole (text ++ behind) = some (digits, rest ++ behind) := by
  simp only [takeWhole, Option.bind_eq_bind, Option.bind_eq_some_iff] at htake ⊢
  obtain ⟨⟨run, rest'⟩, hrun, hwhole⟩ := htake
  refine ⟨_, takeDigits_append hrun hbehind, ?_⟩
  dsimp only at hwhole ⊢
  split at hwhole
  · cases hwhole
  · obtain ⟨rfl, rfl⟩ := Prod.mk.inj (Option.some.inj hwhole)
    rfl

theorem takeFraction_append (htake : takeFraction text = some (digits, rest))
    (hbehind : ∀ c ∈ behind.head?, c.isDigit = false ∧ c ≠ '.') :
    takeFraction (text ++ behind) = some (digits, rest ++ behind) := by
  unfold takeFraction at htake
  split at htake
  · simp only [Option.bind_eq_bind, Option.bind_eq_some_iff] at htake
    obtain ⟨⟨run, rest'⟩, hrun, hresult⟩ := htake
    obtain ⟨rfl, rfl⟩ := Prod.mk.inj (Option.some.inj hresult)
    simp [takeFraction, takeDigits_append hrun fun c hc => (hbehind c hc).1]
  · next hpoint =>
    obtain ⟨rfl, rfl⟩ := Prod.mk.inj (Option.some.inj htake)
    -- no point, neither at the beginning of the text nor behind it if it is empty
    have hnone : ∀ tail, text ++ behind ≠ '.' :: tail := by
      intro tail heq
      cases text with
      | nil => exact (hbehind '.' (by rw [show behind = _ from heq]; rfl)).2 rfl
      | cons c text => exact hpoint text (by rw [(List.cons.inj heq).1])
    rw [takeFraction.eq_2 _ hnone]

/-- A sign does not end a text in which digits are found behind it. -/
theorem takeExponentSign_append
    (htake : takeDigits (takeExponentSign text).2 = some (digits, rest)) :
    takeExponentSign (text ++ behind) =
      ((takeExponentSign text).1, (takeExponentSign text).2 ++ behind) := by
  cases text with
  | nil => cases htake
  | cons c text => simp only [List.cons_append]; unfold takeExponentSign; split <;> simp_all

theorem takeExponent_append (htake : takeExponent text = some (literal, rest))
    (hbehind : EndsLiteral behind) :
    takeExponent (text ++ behind) = some (literal, rest ++ behind) := by
  cases text with
  | nil =>
    obtain ⟨rfl, rfl⟩ := Prod.mk.inj (Option.some.inj htake)
    cases behind with
    | nil => rfl
    | cons c behind =>
      obtain ⟨-, -, he, hE⟩ := hbehind c rfl
      simp [takeExponent, he, hE]
  | cons c text =>
    simp only [List.cons_append, takeExponent] at htake ⊢
    split_ifs at htake ⊢
    · simp only [Option.bind_eq_bind, Option.bind_eq_some_iff] at htake
      obtain ⟨⟨run, rest'⟩, hrun, hresult⟩ := htake
      obtain ⟨rfl, rfl⟩ := Prod.mk.inj (Option.some.inj hresult)
      simp [takeExponentSign_append hrun, takeDigits_append hrun fun c hc => (hbehind c hc).1]
    · obtain ⟨rfl, rfl⟩ := Prod.mk.inj (Option.some.inj htake)
      rfl

theorem takeMinus_append (htake : takeWhole (takeMinus text).2 = some (digits, rest)) :
    takeMinus (text ++ behind) = ((takeMinus text).1, (takeMinus text).2 ++ behind) := by
  cases text with
  | nil => cases htake
  | cons c text => simp only [List.cons_append]; unfold takeMinus; split <;> simp_all

/-- A number literal is read to its end, whatever does not continue it stands behind it. -/
theorem takeNumber_append (htake : takeNumber text = some (literal, rest))
    (hbehind : EndsLiteral behind) :
    takeNumber (text ++ behind) = some (literal, rest ++ behind) := by
  have hdigits : ∀ c ∈ behind.head?, c.isDigit = false := fun c hc => (hbehind c hc).1
  simp only [takeNumber, Option.bind_eq_bind, Option.bind_eq_some_iff] at htake ⊢
  obtain ⟨⟨whole, afterWhole⟩, hwhole, ⟨fraction, afterFraction⟩, hfraction,
    ⟨exponent, afterExponent⟩, hexponent, hresult⟩ := htake
  obtain ⟨rfl, rfl⟩ := Prod.mk.inj (Option.some.inj hresult)
  rw [takeMinus_append hwhole]
  exact ⟨_, takeWhole_append hwhole hdigits,
    _, takeFraction_append hfraction fun c hc => ⟨(hbehind c hc).1, (hbehind c hc).2.1⟩,
    _, takeExponent_append hexponent hbehind, rfl⟩

/-- A text that is a number literal and nothing else. -/
def IsLiteral (literal : Text) : Prop :=
  takeNumber literal = some (literal, [])

theorem IsLiteral.takeNumber_eq (hliteral : IsLiteral literal) (hbehind : EndsLiteral behind) :
    takeNumber (literal ++ behind) = some (literal, behind) :=
  takeNumber_append hliteral hbehind

/-! ## Whole numbers -/

theorem eq_zero_of_head?_toDigits {n : Nat} (hhead : (Nat.toDigits 10 n).head? = some '0') :
    n = 0 := by
  induction n using Nat.strongRecOn with
  | ind n ih =>
    by_cases hsmall : n < 10
    · rw [Nat.toDigits_of_lt_base hsmall] at hhead
      have hdigit : ∀ d < 10, [Nat.digitChar d].head? = some '0' → d = 0 := by decide
      exact hdigit n hsmall hhead
    · rw [Nat.toDigits_of_base_le (by decide) (by omega),
        List.head?_append, Option.or_eq_some_iff, List.head?_eq_none_iff] at hhead
      have hfirst := hhead.resolve_right fun hnil => Nat.toDigits_ne_nil hnil.1
      have := ih (n / 10) (by omega) hfirst
      omega

theorem isDigit_of_mem_toDigits {n : Nat} : ∀ c ∈ Nat.toDigits 10 n, c.isDigit = true :=
  fun _ hc => Nat.isDigit_of_mem_toDigits (by decide) (by decide) hc

theorem takeDigits_eq_self (hsome : digits ≠ []) (hdigits : ∀ c ∈ digits, c.isDigit = true) :
    takeDigits digits = some (digits, []) := by
  rw [takeDigits, List.takeWhile_eq_self_iff.mpr hdigits, List.dropWhile_eq_nil_iff.mpr hdigits]
  cases digits with
  | nil => exact absurd rfl hsome
  | cons digit digits => rfl

/-- Digits stand before a point if they do not begin with zero, or are a lone zero. -/
theorem takeWhole_eq_self (hsome : digits ≠ []) (hdigits : ∀ c ∈ digits, c.isDigit = true)
    (hzero : digits.head? = some '0' → digits = ['0']) :
    takeWhole digits = some (digits, []) := by
  simp only [takeWhole, takeDigits_eq_self hsome hdigits, Option.bind_eq_bind, Option.bind_some]
  split
  · cases hzero rfl
  · rfl

theorem toDigits_eq_zero_of_head? {n : Nat} (hhead : (Nat.toDigits 10 n).head? = some '0') :
    Nat.toDigits 10 n = ['0'] := by
  obtain rfl := eq_zero_of_head?_toDigits hhead
  rfl

theorem takeWhole_toDigits (n : Nat) :
    takeWhole (Nat.toDigits 10 n) = some (Nat.toDigits 10 n, []) :=
  takeWhole_eq_self Nat.toDigits_ne_nil isDigit_of_mem_toDigits toDigits_eq_zero_of_head?

theorem takeMinus_toDigits (n : Nat) :
    takeMinus (Nat.toDigits 10 n) = ([], Nat.toDigits 10 n) := by
  unfold takeMinus
  split
  · next hminus =>
    have := isDigit_of_mem_toDigits '-' (by rw [hminus]; exact List.mem_cons_self)
    exact absurd this (by decide)
  · rfl

theorem isLiteral_ofInt (i : Int) :
    IsLiteral ((if i < 0 then ['-'] else []) ++ Nat.toDigits 10 i.natAbs) := by
  have hrest : takeFraction [] = some ([], []) ∧ takeExponent [] = some ([], []) := ⟨rfl, rfl⟩
  split
  · simp [IsLiteral, takeNumber, takeMinus, takeWhole_toDigits, hrest]
  · simp [IsLiteral, takeNumber, takeMinus_toDigits, takeWhole_toDigits, hrest]

theorem wholeValue?_ofInt (i : Int) :
    wholeValue? ((if i < 0 then ['-'] else []) ++ Nat.toDigits 10 i.natAbs) = some i := by
  have hall : (Nat.toDigits 10 i.natAbs).all Char.isDigit = true :=
    List.all_eq_true.mpr isDigit_of_mem_toDigits
  split
  · have hne : i.natAbs ≠ 0 := by omega
    simp only [wholeValue?, takeMinus, List.singleton_append, hall,
      Nat.ofDigitChars_ten_toDigits, hne, ↓reduceIte, List.isEmpty_cons, Bool.false_eq_true]
    congr 1
    omega
  · simp only [wholeValue?, takeMinus_toDigits, List.nil_append, hall,
      Nat.ofDigitChars_ten_toDigits, ↓reduceIte, List.isEmpty_nil]
    congr 1
    omega

theorem asInt?_ofInt {least greatest i : Int} (hleast : least ≤ i) (hgreatest : i ≤ greatest) :
    (ofInt i).asInt? least greatest = some i := by
  simp [ofInt, asInt?, wholeValue?_ofInt, hleast, hgreatest]

/-! ## String literals -/

theorem hexValue?_hexDigit : ∀ n < 16, hexValue? (hexDigit n) = some n := by
  decide

/-- A control character is what the four digits of its escape stand for. -/
theorem takeEscape_control {c : Char} (hcontrol : c.toNat < 32) (text : Text) :
    takeEscape ('u' :: '0' :: '0' :: hexDigit (c.toNat / 16) :: hexDigit (c.toNat % 16) :: text) =
      some (.char c, text) := by
  have hcode : ((0 * 16 + 0) * 16 + c.toNat / 16) * 16 + c.toNat % 16 = c.toNat := by omega
  have hchar : Piece.ofCode c.toNat = .char c := by
    rw [Piece.ofCode, if_neg (by omega), Char.ofNat_toNat]
  rw [takeEscape, hexValue?_hexDigit (c.toNat / 16) (by omega),
    hexValue?_hexDigit (c.toNat % 16) (by omega), show hexValue? '0' = some 0 from rfl]
  simp only [Option.bind_eq_bind, Option.bind_some, hcode, hchar]
  rfl

theorem takePieces_backslash {piece : Piece} (hescape : takeEscape text = some (piece, rest))
    (steps : Nat) :
    takePieces (steps + 1) ('\\' :: text) =
      (takePieces steps rest).bind fun (pieces, rest) => some (piece :: pieces, rest) := by
  simp [takePieces, hescape]

/-- A character is read from its own escape. -/
theorem takePieces_escapeChar (c : Char) (steps : Nat) (text : Text) :
    takePieces (steps + 1) (escapeChar c ++ text) =
      (takePieces steps text).bind fun (pieces, rest) => some (.char c :: pieces, rest) := by
  unfold escapeChar
  split_ifs with hquote hbackslash _ _ _ _ _ hcontrol
  -- seven characters with a short escape, the control characters, and all others
  iterate 7 · subst c; exact takePieces_backslash rfl steps
  · exact takePieces_backslash (takeEscape_control hcontrol text) steps
  · simp [takePieces, hquote, hbackslash, hcontrol]

theorem takePieces_quoted (content : Text) (rest : Text) {steps : Nat}
    (hsteps : content.length < steps) :
    takePieces steps (content.flatMap escapeChar ++ '"' :: rest) =
      some (content.map .char, rest) := by
  induction content generalizing steps with
  | nil =>
    obtain ⟨steps, rfl⟩ := Nat.exists_eq_add_one_of_ne_zero (Nat.ne_zero_of_lt hsteps)
    simp [takePieces]
  | cons c content ih =>
    obtain ⟨steps, rfl⟩ := Nat.exists_eq_add_one_of_ne_zero (Nat.ne_zero_of_lt hsteps)
    rw [List.flatMap_cons, List.append_assoc, takePieces_escapeChar,
      ih (Nat.lt_of_succ_lt_succ hsteps)]
    rfl

theorem joinPieces_map_char (content : Text) : joinPieces (content.map .char) = some content := by
  induction content with
  | nil => rfl
  | cons c content ih => simp [joinPieces, ih]

theorem length_escapeChar_pos (c : Char) : 0 < (escapeChar c).length := by
  unfold escapeChar
  split_ifs <;> simp

theorem length_le_length_escaped (content : Text) :
    content.length ≤ (content.flatMap escapeChar).length := by
  induction content with
  | nil => exact Nat.le_refl 0
  | cons c content ih =>
    have := length_escapeChar_pos c
    simp only [List.flatMap_cons, List.length_append, List.length_cons]
    omega

/-- A string literal is read as the text that it was written for. -/
theorem takeString_quoted (content rest : Text) :
    takeString (content.flatMap escapeChar ++ '"' :: rest) = some (some content, rest) := by
  have hsteps : content.length < (content.flatMap escapeChar ++ '"' :: rest).length + 1 := by
    have := length_le_length_escaped content
    rw [List.length_append]
    omega
  rw [takeString, takePieces_quoted content rest hsteps]
  simp [joinPieces_map_char]

end Reckoner.Json
