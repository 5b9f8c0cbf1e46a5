import Reckoner.Proofs.Lexer.Tokens
import Reckoner.Proofs.Number.ReadBack

/-!
# Splitting a text that is put together

The lexer as seen by someone who writes a text for it.  `Registry.Splits` says
which tokens a text is split into, wherever it stands, and a text is put together
from the back: a blank in front changes nothing, and a lexeme in front adds its
token (`splits_blank`, `splits_append`).

What must stand behind a lexeme for it to end there depends on its kind:

| lexeme | ends before                                                    |
|--------|----------------------------------------------------------------|
| number | whatever does not go on with a numeral                         |
| word   | whatever is no letter                                          |
| symbol | a character that no symbol holds, so that no longer one begins |

`Registry.Lexical` describes the tokens that the lexer makes, by what their text
is made of.
-/

namespace Reckoner

/-! ## Classes of characters -/

theorem isLetter_of_isBlank {c : Char} (hblank : isBlank c = true) : isLetter c = false := by
  obtain ⟨range, hrange, hfirst, hlast⟩ := CodeTable.exists_of_contains hblank
  have hnone : ∀ range ∈ blankTable, ∀ step < range.2 + 1 - range.1,
      alphabeticTable.contains (range.1 + step) = false := by
    decide +kernel
  have hstep := hnone range hrange (c.toNat - range.1) (by omega)
  rwa [Nat.add_sub_cancel' hfirst] at hstep

theorem isBlank_of_isLetter {c : Char} (hletter : isLetter c = true) : isBlank c = false := by
  refine Bool.eq_false_iff.mpr fun hblank => ?_
  simp [isLetter_of_isBlank hblank] at hletter

theorem isBlank_of_isDigit {c : Char} (hdigit : c.isDigit = true) : isBlank c = false := by
  refine Bool.eq_false_iff.mpr fun hblank => ?_
  obtain ⟨range, hrange, hfirst, hlast⟩ := CodeTable.exists_of_contains hblank
  have hnone : ∀ range ∈ blankTable, range.2 < 0x30 ∨ 0x39 < range.1 := by
    decide
  have houtside := hnone range hrange
  have hdigit := toNat_of_isDigit hdigit
  omega

/-! ## Texts and their tokens -/

/-- Wherever it stands, a text up to the end of input is split into the tokens. -/
def Registry.Splits (registry : Registry) (text : Text) (tokens : List Token) : Prop :=
  ∀ source offset, ∃ lexemes, Cursor.Lexes registry ⟨source, offset, text⟩ lexemes ∧
    lexemes.map (·.token) = tokens

namespace Registry

variable {registry : Registry} {text later : Text} {token : Token} {tokens : List Token}

theorem splits_nil : registry.Splits [] [] :=
  fun _ _ => ⟨[], .ended (Cursor.next_eq_ok_iff.mpr ⟨[], .ended, rfl, rfl⟩), rfl⟩

/-- A blank in front has no part in any lexeme. -/
theorem splits_blank {c : Char} (hblank : isBlank c = true) (hlater : registry.Splits later tokens) :
    registry.Splits (c :: later) tokens := by
  intro source offset
  obtain ⟨lexemes, hlexes, hmap⟩ := hlater source (offset + Text.byteLength [c])
  have hblanks : ∀ b ∈ [c], isBlank b = true := by simpa using hblank
  exact ⟨lexemes, (Cursor.lexes_blanks_append_iff hblanks).mpr hlexes, hmap⟩

/-- A lexeme in front of a text adds its token. -/
theorem splits_append {c : Char} {rest : Text} (htext : text ++ later = c :: rest)
    (hblank : isBlank c = false) (hscan : Scan registry (text ++ later) token text)
    (hmore : token ≠ .endOfInput) (hlater : registry.Splits later tokens) :
    registry.Splits (text ++ later) (token :: tokens) := by
  intro source offset
  obtain ⟨lexemes, hlexes, hmap⟩ := hlater source (offset + text.byteLength)
  have hskip : Cursor.skipBlanks ⟨source, offset, text ++ later⟩ =
      ⟨source, offset, text ++ later⟩ := by
    simp [Cursor.skipBlanks, Cursor.advance, htext, hblank]
  have hafter : Cursor.advance ⟨source, offset, text ++ later⟩ text =
      ⟨source, offset + text.byteLength, later⟩ := by
    simp [Cursor.advance]
  refine ⟨⟨token, Cursor.spanOf ⟨source, offset, text ++ later⟩ text⟩ :: lexemes, ?_,
    by simp [hmap]⟩
  refine .lexeme (Cursor.next_eq_ok_iff.mpr ?_) hmore hlexes
  rw [hskip]
  exact ⟨text, hscan, rfl, hafter.symm⟩

theorem tokenizes_of_splits (hsplits : registry.Splits text tokens) :
    ∃ lexemes, registry.Tokenizes text lexemes ∧ lexemes.map (·.token) = tokens :=
  hsplits text 0

/-! ## Punctuation -/

theorem splits_leftParen (hlater : registry.Splits later tokens) :
    registry.Splits ('(' :: later) (.leftParen :: tokens) :=
  @splits_append _ ['('] _ _ _ _ _ rfl rfl .leftParen (by simp) hlater

theorem splits_rightParen (hlater : registry.Splits later tokens) :
    registry.Splits (')' :: later) (.rightParen :: tokens) :=
  @splits_append _ [')'] _ _ _ _ _ rfl rfl .rightParen (by simp) hlater

theorem splits_comma (hlater : registry.Splits later tokens) :
    registry.Splits (',' :: later) (.comma :: tokens) :=
  @splits_append _ [','] _ _ _ _ _ rfl rfl .comma (by simp) hlater

/-! ## Numbers -/

theorem splits_number {value : Number} (hplain : IsPlain text)
    (hvalue : (numeralValue text).toNumber false = value) (hfinite : value.isFinite = true)
    (hends : EndsNumeral later) (hlater : registry.Splits later tokens) :
    registry.Splits (text ++ later) (.number value :: tokens) := by
  obtain ⟨c, rest, htext, hdigit⟩ := hplain.exists_cons
  have happend : text ++ later = c :: (rest ++ later) := by rw [htext, List.cons_append]
  have htake := hplain.takeNumeral_append hends
  refine splits_append happend (isBlank_of_isDigit hdigit) ?_ (by simp) hlater
  rw [happend] at htake ⊢
  have hscan := @Scan.numeral registry c (rest ++ later) value hdigit (htake.symm ▸ hvalue) hfinite
  rwa [htake] at hscan

/-! ## Words -/

/-- A letter does not follow. -/
def EndsWord (text : Text) : Prop :=
  ∀ c ∈ text.head?, isLetter c = false

theorem takeWhile_isLetter_append (hletters : ∀ c ∈ text, isLetter c = true)
    (hends : EndsWord later) : (text ++ later).takeWhile isLetter = text := by
  rw [List.takeWhile_append_of_pos hletters]
  cases later with
  | nil => simp
  | cons c rest => simp [hends c rfl]

theorem splits_operatorWord (hsome : text ≠ []) (hletters : ∀ c ∈ text, isLetter c = true)
    (hoperator : registry.isOperator text = true) (hends : EndsWord later)
    (hlater : registry.Splits later tokens) :
    registry.Splits (text ++ later) (.operator text :: tokens) := by
  obtain ⟨c, rest, rfl⟩ := List.exists_cons_of_ne_nil hsome
  have hletter := hletters c List.mem_cons_self
  refine splits_append rfl (isBlank_of_isLetter hletter) ?_ (by simp) hlater
  exact .operatorWord hletter (takeWhile_isLetter_append hletters hends) hoperator

theorem splits_functionWord (hsome : text ≠ []) (hletters : ∀ c ∈ text, isLetter c = true)
    (hoperator : registry.isOperator text = false)
    (hfunction : (registry.findFunction? text).isSome = true) (hends : EndsWord later)
    (hlater : registry.Splits later tokens) :
    registry.Splits (text ++ later) (.function text :: tokens) := by
  obtain ⟨c, rest, rfl⟩ := List.exists_cons_of_ne_nil hsome
  have hletter := hletters c List.mem_cons_self
  refine splits_append rfl (isBlank_of_isLetter hletter) ?_ (by simp) hlater
  exact .functionWord hletter (takeWhile_isLetter_append hletters hends) hoperator hfunction

/-! ## Symbols -/

/-- No operator that begins with no letter holds the character. -/
def EndsSymbols (registry : Registry) (c : Char) : Prop :=
  ∀ first rest, first :: rest ∈ registry.operatorNames → isLetter first = false →
    c ∉ first :: rest

/-- What registration checks of a symbol's first character. -/
theorem class_of_symbol (hreach : registry.Reachable) {first : Char} {rest : Text}
    (hname : first :: rest ∈ registry.operatorNames) :
    (∀ c ∈ first :: rest, isBlank c = false ∧ isPunctuation c = false) ∧ first.isDigit = false := by
  obtain ⟨hblank, hpunctuation, hdigit, _⟩ :=
    operatorNameFault_cons_eq_none_iff.mp (operatorNameFault_of_mem hreach hname)
  exact ⟨fun c hc => ⟨hblank c hc, hpunctuation c hc⟩, hdigit⟩

theorem splits_symbol (hreach : registry.Reachable) {first : Char} {rest : Text}
    (hname : first :: rest ∈ registry.operatorNames) (hletter : isLetter first = false)
    {c : Char} (hends : registry.EndsSymbols c)
    (hlater : registry.Splits (c :: later) tokens) :
    registry.Splits (first :: rest ++ c :: later) (.operator (first :: rest) :: tokens) := by
  obtain ⟨hclass, hdigit⟩ := class_of_symbol hreach hname
  obtain ⟨hblank, hpunctuation⟩ := hclass first List.mem_cons_self
  have hfind : registry.identifiers.find? (·.isPrefixOf (first :: rest ++ c :: later)) =
      some (first :: rest) := by
    refine (find?_identifiers_eq_some_iff hreach).mpr ⟨hname, List.prefix_append _ _, ?_⟩
    intro other hother hbegins
    refine Nat.not_lt.mp fun hlonger => ?_
    -- a longer name goes on with the character behind
    obtain ⟨more, hmore⟩ :=
      List.prefix_of_prefix_length_le (List.prefix_append _ _) hbegins (Nat.le_of_lt hlonger)
    obtain ⟨behind, hbehind⟩ := hbegins
    cases more with
    | nil => simp [← hmore] at hlonger
    | cons d more =>
        rw [← hmore, List.append_assoc, List.append_cancel_left_eq, List.cons_append,
          List.cons.injEq] at hbehind
        obtain ⟨rfl, _⟩ := hbehind
        subst hmore
        exact hends first (rest ++ d :: more) hother hletter (by simp)
  exact splits_append rfl hblank (.symbol hdigit hletter hpunctuation hfind) (by simp) hlater

end Registry

end Reckoner
