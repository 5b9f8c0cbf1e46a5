import Reckoner.Lexer.Basic
import Reckoner.Proofs.Registry.Identifiers

/-!
# One lexeme

`Scan registry rest token text` says that the lexer makes `token` of a text
`rest` that begins with no blank, and that `text` is the part it takes.  It has
one rule for each kind of lexeme, so that a proof about lexemes has these cases
and no others; `Cursor.readLexeme_eq_ok_iff` shows that the lexer follows the
rules and nothing else.

Every lexeme but the end of input takes at least one character
(`Scan.text_ne_nil`).  For symbols that rests on the registry, which holds no
empty name.
-/

namespace Reckoner

/-! ## Classes of characters -/

theorem CodeTable.contains_of_lt {first last code : Nat} {later : CodeTable} (hlt : code < first) :
    CodeTable.contains ((first, last) :: later) code = false := by
  rw [CodeTable.contains, if_pos hlt]

theorem isLetter_of_toNat_lt {c : Char} (hlt : c.toNat < 0x41) : isLetter c = false :=
  CodeTable.contains_of_lt hlt

theorem toNat_of_isDigit {c : Char} (hdigit : c.isDigit = true) :
    0x30 ≤ c.toNat ∧ c.toNat ≤ 0x39 := by
  simp only [Char.isDigit, Bool.and_eq_true, decide_eq_true_eq] at hdigit
  exact ⟨UInt32.le_iff_toNat_le.mp hdigit.1, UInt32.le_iff_toNat_le.mp hdigit.2⟩

theorem isLetter_of_isDigit {c : Char} (hdigit : c.isDigit = true) : isLetter c = false :=
  isLetter_of_toNat_lt (Nat.lt_of_le_of_lt (toNat_of_isDigit hdigit).2 (by decide))

theorem isDigit_of_isLetter {c : Char} (hletter : isLetter c = true) : c.isDigit = false := by
  refine Bool.eq_false_iff.mpr fun hdigit => ?_
  simp [isLetter_of_isDigit hdigit] at hletter

theorem isPunctuation_iff {c : Char} : isPunctuation c = true ↔ c = '(' ∨ c = ')' ∨ c = ',' := by
  simp [isPunctuation, or_assoc]

theorem isLetter_of_isPunctuation {c : Char} (hpunctuation : isPunctuation c = true) :
    isLetter c = false := by
  rcases isPunctuation_iff.mp hpunctuation with rfl | rfl | rfl <;> rfl

/-! ## Numerals -/

theorem takeNumeral_isPrefix (hasPoint hasSeparator : Bool) (text : Text) :
    takeNumeral hasPoint hasSeparator text <+: text := by
  induction text generalizing hasPoint hasSeparator with
  | nil => exact List.nil_prefix
  | cons c rest ih =>
      unfold takeNumeral
      split
      · exact List.cons_prefix_cons.mpr ⟨rfl, ih _ _⟩
      split
      · exact List.cons_prefix_cons.mpr ⟨rfl, ih _ _⟩
      split
      · exact List.cons_prefix_cons.mpr ⟨rfl, ih _ _⟩
      · exact List.nil_prefix

theorem takeNumeral_cons_of_isDigit {c : Char} (hdigit : c.isDigit = true) {rest : Text}
    {hasPoint hasSeparator : Bool} :
    takeNumeral hasPoint hasSeparator (c :: rest) =
      c :: takeNumeral hasPoint hasSeparator rest := by
  rw [takeNumeral, if_pos hdigit]

/-! ## The rules -/

/-- What the lexer makes of a text that begins with no blank, and the part of
the text that it takes. -/
inductive Scan (registry : Registry) : Text → Token → Text → Prop
  | ended : Scan registry [] .endOfInput []
  | numeral {c : Char} {rest : Text} {value : Number} (hdigit : c.isDigit = true)
      (hvalue : (numeralValue (takeNumeral false false (c :: rest))).toNumber false = value)
      (hfinite : value.isFinite = true) :
      Scan registry (c :: rest) (.number value) (takeNumeral false false (c :: rest))
  | operatorWord {c : Char} {rest word : Text} (hletter : isLetter c = true)
      (hword : (c :: rest).takeWhile isLetter = word) (hoperator : registry.isOperator word = true) :
      Scan registry (c :: rest) (.operator word) word
  | functionWord {c : Char} {rest word : Text} (hletter : isLetter c = true)
      (hword : (c :: rest).takeWhile isLetter = word)
      (hoperator : registry.isOperator word = false)
      (hfunction : (registry.findFunction? word).isSome = true) :
      Scan registry (c :: rest) (.function word) word
  | leftParen {rest : Text} : Scan registry ('(' :: rest) .leftParen ['(']
  | rightParen {rest : Text} : Scan registry (')' :: rest) .rightParen [')']
  | comma {rest : Text} : Scan registry (',' :: rest) .comma [',']
  | symbol {c : Char} {rest name : Text} (hdigit : c.isDigit = false)
      (hletter : isLetter c = false) (hpunctuation : isPunctuation c = false)
      (hfind : registry.identifiers.find? (·.isPrefixOf (c :: rest)) = some name) :
      Scan registry (c :: rest) (.operator name) name

namespace Scan

variable {registry : Registry} {rest text : Text} {token : Token}

/-- A lexeme is the beginning of what it is read from. -/
theorem text_isPrefix (hscan : Scan registry rest token text) : text <+: rest := by
  cases hscan with
  | ended => exact List.nil_prefix
  | numeral => exact takeNumeral_isPrefix _ _ _
  | operatorWord _ hword => exact hword ▸ List.takeWhile_prefix _
  | functionWord _ hword => exact hword ▸ List.takeWhile_prefix _
  | leftParen => exact List.cons_prefix_cons.mpr ⟨rfl, List.nil_prefix⟩
  | rightParen => exact List.cons_prefix_cons.mpr ⟨rfl, List.nil_prefix⟩
  | comma => exact List.cons_prefix_cons.mpr ⟨rfl, List.nil_prefix⟩
  | symbol _ _ _ hfind => simpa using List.find?_some hfind

/-- Only the end of input takes no character. -/
theorem text_ne_nil (hreach : registry.Reachable) (hscan : Scan registry rest token text)
    (hmore : token ≠ .endOfInput) : text ≠ [] := by
  cases hscan with
  | ended => exact absurd rfl hmore
  | numeral hdigit => simp [takeNumeral_cons_of_isDigit hdigit]
  | operatorWord hletter hword => simp [← hword, hletter]
  | functionWord hletter hword => simp [← hword, hletter]
  | leftParen => simp
  | rightParen => simp
  | comma => simp
  | symbol _ _ _ hfind =>
      have hname := ((Registry.find?_identifiers_eq_some_iff hreach).mp hfind).1
      exact ne_nil_of_operatorNameFault (Registry.operatorNameFault_of_mem hreach hname)

/-- Operators and functions are named as they are written. -/
theorem name_eq_text {name : Text} (hscan : Scan registry rest token text)
    (hname : token = .operator name ∨ token = .function name) : name = text := by
  cases hscan <;> simp_all

/-- The function of a word is known. -/
theorem findFunction?_isSome {name : Text} (hscan : Scan registry rest (.function name) text) :
    (registry.findFunction? name).isSome = true := by
  cases hscan with
  | functionWord _ _ _ hfunction => exact hfunction

end Scan

/-! ## The lexer follows the rules -/

namespace Cursor

variable {registry : Registry} {cursor after : Cursor} {lexeme : Lexeme}

private theorem emit_eq_ok_iff {token : Token} {text : Text} :
    cursor.emit token text = (.ok lexeme, after) ↔
      lexeme = ⟨token, cursor.spanOf text⟩ ∧ after = cursor.advance text := by
  simp [emit, eq_comm]

/-- What the lexer reads of a text without a blank in front, by the rules. -/
theorem readLexeme_eq_ok_iff :
    cursor.readLexeme registry = (.ok lexeme, after) ↔
      ∃ text, Scan registry cursor.rest lexeme.token text ∧
        lexeme.span = cursor.spanOf text ∧ after = cursor.advance text := by
  constructor
  · intro hread
    obtain ⟨source, offset, rest⟩ := cursor
    cases rest with
    | nil =>
        obtain ⟨rfl, rfl⟩ := emit_eq_ok_iff.mp hread
        exact ⟨[], .ended, rfl, rfl⟩
    | cons c rest =>
        simp only [readLexeme] at hread
        -- the tests of the lexer, in its order
        by_cases hdigit : c.isDigit = true
        · simp only [hdigit, if_true, readNumeral] at hread
          split at hread
          · next hfinite =>
              obtain ⟨rfl, rfl⟩ := emit_eq_ok_iff.mp hread
              exact ⟨_, .numeral hdigit rfl hfinite, rfl, rfl⟩
          · simp at hread
        by_cases hletter : isLetter c = true
        · simp only [hdigit, hletter, if_true, readWord] at hread
          by_cases hoperator : registry.isOperator ((c :: rest).takeWhile isLetter) = true
          · simp only [hoperator, if_true] at hread
            obtain ⟨rfl, rfl⟩ := emit_eq_ok_iff.mp hread
            exact ⟨_, .operatorWord hletter rfl hoperator, rfl, rfl⟩
          by_cases hfunction :
              (registry.findFunction? ((c :: rest).takeWhile isLetter)).isSome = true
          · simp only [hoperator, hfunction, if_true] at hread
            obtain ⟨rfl, rfl⟩ := emit_eq_ok_iff.mp hread
            exact ⟨_, .functionWord hletter rfl (Bool.eq_false_iff.mpr hoperator) hfunction,
              rfl, rfl⟩
          · simp [hoperator, hfunction] at hread
        simp only [hdigit, hletter, Bool.false_eq_true, if_false] at hread
        by_cases hleft : c = '('
        · subst hleft
          obtain ⟨rfl, rfl⟩ := emit_eq_ok_iff.mp hread
          exact ⟨_, .leftParen, rfl, rfl⟩
        by_cases hright : c = ')'
        · subst hright
          obtain ⟨rfl, rfl⟩ := emit_eq_ok_iff.mp hread
          exact ⟨_, .rightParen, rfl, rfl⟩
        by_cases hcomma : c = ','
        · subst hcomma
          obtain ⟨rfl, rfl⟩ := emit_eq_ok_iff.mp hread
          exact ⟨_, .comma, rfl, rfl⟩
        have hpunctuation : isPunctuation c = false := by
          simp [isPunctuation, hleft, hright, hcomma]
        rw [if_neg hleft, if_neg hright, if_neg hcomma, readSymbol] at hread
        cases hfind : registry.identifiers.find? (·.isPrefixOf (c :: rest)) with
        | none => simp [hfind] at hread
        | some name =>
            simp only [hfind] at hread
            obtain ⟨rfl, rfl⟩ := emit_eq_ok_iff.mp hread
            exact ⟨_, .symbol (Bool.eq_false_iff.mpr hdigit) (Bool.eq_false_iff.mpr hletter)
              hpunctuation hfind, rfl, rfl⟩
  · rintro ⟨text, hscan, hspan, rfl⟩
    obtain ⟨token, span⟩ := lexeme
    obtain rfl : span = cursor.spanOf text := hspan
    obtain ⟨source, offset, rest⟩ := cursor
    cases hscan with
    | ended => simp [readLexeme, emit]
    | numeral hdigit hvalue hfinite => simp [readLexeme, readNumeral, emit, hdigit, hvalue, hfinite]
    | operatorWord hletter hword hoperator =>
        simp [readLexeme, readWord, emit, isDigit_of_isLetter hletter, hletter, hword, hoperator]
    | functionWord hletter hword hoperator hfunction =>
        simp [readLexeme, readWord, emit, isDigit_of_isLetter hletter, hletter, hword, hoperator,
          hfunction]
    | leftParen => rfl
    | rightParen => rfl
    | comma => rfl
    | symbol hdigit hletter hpunctuation hfind =>
        simp only [isPunctuation, Bool.or_eq_false_iff, beq_eq_false_iff_ne] at hpunctuation
        simp [readLexeme, readSymbol, emit, hdigit, hletter, hpunctuation, hfind]

end Cursor

end Reckoner
