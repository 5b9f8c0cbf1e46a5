import Reckoner.Lexer.Stream
import Reckoner.Proofs.Lexer.Scan

/-!
# The tokens of a text

`Registry.Tokenizes registry source lexemes` says that the lexer, asked again
and again, yields `lexemes` and then the end of input: it is the lexer's own
run, one request after the other.  The parser is fed from a stream that is
unfolded beforehand, with a bound on the number of answers.  The two agree
(`tokens_ofText_eq_iff`): every answer but the last takes a character, so the
bound is never reached.

The tokens of a stream end where its first error stands, so a stream without
errors is one whose tokens end with the end of input.
-/

namespace Reckoner

/-! ## The run of the lexer -/

/-- The lexemes that the lexer yields from a position on, before the end of
input. -/
inductive Cursor.Lexes (registry : Registry) : Cursor → List Lexeme → Prop
  | ended {cursor after : Cursor} {span : Span}
      (hnext : cursor.next registry = (.ok ⟨.endOfInput, span⟩, after)) :
      Lexes registry cursor []
  | lexeme {cursor after : Cursor} {first : Lexeme} {later : List Lexeme}
      (hnext : cursor.next registry = (.ok first, after)) (hmore : first.token ≠ .endOfInput)
      (hlater : Lexes registry after later) : Lexes registry cursor (first :: later)

/-- The lexer splits a text into lexemes without an error. -/
def Registry.Tokenizes (registry : Registry) (source : Text) (lexemes : List Lexeme) : Prop :=
  Cursor.Lexes registry (Cursor.start source) lexemes

namespace Cursor

variable {registry : Registry} {cursor after : Cursor} {lexeme : Lexeme}

theorem next_eq_ok_iff :
    cursor.next registry = (.ok lexeme, after) ↔
      ∃ text, Scan registry cursor.skipBlanks.rest lexeme.token text ∧
        lexeme.span = cursor.skipBlanks.spanOf text ∧ after = cursor.skipBlanks.advance text :=
  readLexeme_eq_ok_iff

/-- Blanks in front are skipped. -/
theorem skipBlanks_append {source blanks later : Text} {offset : Nat}
    (hblanks : ∀ c ∈ blanks, isBlank c = true) :
    skipBlanks ⟨source, offset, blanks ++ later⟩ =
      skipBlanks ⟨source, offset + blanks.byteLength, later⟩ := by
  have htake : (blanks ++ later).takeWhile isBlank = blanks ++ later.takeWhile isBlank :=
    List.takeWhile_append_of_pos hblanks
  simp [skipBlanks, advance, htake, Nat.add_assoc]

/-- Blanks in front have no part in any lexeme. -/
theorem lexes_blanks_append_iff {source blanks later : Text} {offset : Nat}
    {lexemes : List Lexeme} (hblanks : ∀ c ∈ blanks, isBlank c = true) :
    Lexes registry ⟨source, offset, blanks ++ later⟩ lexemes ↔
      Lexes registry ⟨source, offset + blanks.byteLength, later⟩ lexemes := by
  have hnext : next registry ⟨source, offset, blanks ++ later⟩ =
      next registry ⟨source, offset + blanks.byteLength, later⟩ :=
    congrArg (readLexeme registry) (skipBlanks_append hblanks)
  constructor
  · intro hlexes
    cases hlexes with
    | ended h => exact .ended (hnext.symm.trans h)
    | lexeme h hmore hlater => exact .lexeme (hnext.symm.trans h) hmore hlater
  · intro hlexes
    cases hlexes with
    | ended h => exact .ended (hnext.trans h)
    | lexeme h hmore hlater => exact .lexeme (hnext.trans h) hmore hlater

theorem length_rest_skipBlanks_le (cursor : Cursor) :
    cursor.skipBlanks.rest.length ≤ cursor.rest.length := by
  simp [skipBlanks, advance]

/-- A text that is taken makes the rest shorter. -/
theorem length_rest_advance_lt {text : Text} (hsome : text ≠ [])
    (hbegins : text <+: cursor.skipBlanks.rest) :
    (cursor.skipBlanks.advance text).rest.length < cursor.rest.length := by
  have htext := List.length_pos_iff.mpr hsome
  have hle := hbegins.length_le
  have hskip := length_rest_skipBlanks_le cursor
  simp only [advance, List.length_drop]
  omega

/-- A lexeme takes at least one character. -/
theorem length_rest_lt_of_next (hreach : registry.Reachable)
    (hnext : cursor.next registry = (.ok lexeme, after)) (hmore : lexeme.token ≠ .endOfInput) :
    after.rest.length < cursor.rest.length := by
  obtain ⟨text, hscan, _, rfl⟩ := next_eq_ok_iff.mp hnext
  exact length_rest_advance_lt (hscan.text_ne_nil hreach hmore) hscan.text_isPrefix

end Cursor

/-! ## The tokens of a stream -/

namespace LexemeStream

/-- The tokens of a stream before its first error, up to the end of input. -/
def tokens : LexemeStream → List Token
  | ended _ => [.endOfInput]
  | stuck _ => []
  | fault _ _ => []
  | lexeme first later =>
    if first.token = .endOfInput then [.endOfInput] else first.token :: later.tokens

variable {registry : Registry} {steps : Nat} {cursor after : Cursor}

theorem unfold_of_next_ended {span : Span}
    (hnext : cursor.next registry = (.ok ⟨.endOfInput, span⟩, after)) :
    unfold registry (steps + 1) cursor = ended span := by
  rw [unfold, hnext]

theorem unfold_of_next_lexeme {first : Lexeme}
    (hnext : cursor.next registry = (.ok first, after)) (hmore : first.token ≠ .endOfInput) :
    unfold registry (steps + 1) cursor = lexeme first (unfold registry steps after) := by
  obtain ⟨token, span⟩ := first
  rw [unfold, hnext]
  cases token <;> first | rfl | exact absurd rfl hmore

theorem tokens_unfold_of_next_error {error : LexError}
    (hnext : cursor.next registry = (.error error, after)) :
    (unfold registry (steps + 1) cursor).tokens = [] := by
  rw [unfold, hnext]
  cases error <;> rfl

/-- Unfolded far enough, a stream answers as its lexer does, and goes on with what stands behind. -/
theorem next_unfold (hreach : registry.Reachable) {answer : Except LexError Lexeme}
    (hsteps : cursor.rest.length < steps) (hnext : cursor.next registry = (answer, after)) :
    (unfold registry steps cursor).next.1 = answer ∧
      ∀ first, answer = .ok first → first.token ≠ .endOfInput →
        ∃ fewer, after.rest.length < fewer ∧
          (unfold registry steps cursor).next.2 = unfold registry fewer after := by
  obtain ⟨steps, rfl⟩ := Nat.exists_eq_add_one_of_ne_zero (Nat.ne_zero_of_lt hsteps)
  cases answer with
  | error error =>
      refine ⟨?_, fun first h => by cases h⟩
      rw [unfold, hnext]
      cases error <;> rfl
  | ok lexeme =>
      by_cases hmore : lexeme.token = .endOfInput
      · obtain ⟨token, span⟩ := lexeme
        obtain rfl : token = .endOfInput := hmore
        rw [unfold_of_next_ended hnext]
        refine ⟨rfl, ?_⟩
        rintro _ ⟨⟩ hne
        exact absurd rfl hne
      · have hshorter := Cursor.length_rest_lt_of_next hreach hnext hmore
        rw [unfold_of_next_lexeme hnext hmore]
        exact ⟨rfl, fun _ _ _ => ⟨steps, by omega, rfl⟩⟩

/-- Unfolded far enough, a stream has the lexemes of the lexer's run. -/
theorem tokens_unfold_of_lexes (hreach : registry.Reachable) {lexemes : List Lexeme}
    (hlexes : Cursor.Lexes registry cursor lexemes) (hsteps : cursor.rest.length < steps) :
    (unfold registry steps cursor).tokens = lexemes.map (·.token) ++ [.endOfInput] := by
  induction hlexes generalizing steps with
  | @ended cursor after span hnext =>
      obtain ⟨steps, rfl⟩ := Nat.exists_eq_add_one_of_ne_zero (Nat.ne_of_gt (Nat.zero_lt_of_lt hsteps))
      rw [unfold_of_next_ended hnext]
      rfl
  | @lexeme cursor after first later hnext hmore _ ih =>
      obtain ⟨steps, rfl⟩ := Nat.exists_eq_add_one_of_ne_zero (Nat.ne_of_gt (Nat.zero_lt_of_lt hsteps))
      have hshorter := Cursor.length_rest_lt_of_next hreach hnext hmore
      rw [unfold_of_next_lexeme hnext hmore, tokens, if_neg hmore, ih (by omega)]
      rfl

/-- A stream that is unfolded far enough and reaches the end of input comes from
a run of the lexer without an error. -/
theorem lexes_of_tokens_unfold (hreach : registry.Reachable) {used : List Token}
    (htokens : (unfold registry steps cursor).tokens = used ++ [.endOfInput])
    (hsteps : cursor.rest.length < steps) :
    ∃ lexemes, Cursor.Lexes registry cursor lexemes ∧ lexemes.map (·.token) = used := by
  induction steps generalizing cursor used with
  | zero => exact absurd hsteps (Nat.not_lt_zero _)
  | succ steps ih =>
      rcases hnext : cursor.next registry with ⟨error | first, after⟩
      · rw [tokens_unfold_of_next_error hnext] at htokens
        simp at htokens
      by_cases hmore : first.token = .endOfInput
      · obtain ⟨token, span⟩ := first
        obtain rfl : token = .endOfInput := hmore
        rw [unfold_of_next_ended hnext, tokens] at htokens
        have hused : used = [] := by
          simpa using (congrArg List.length htokens).symm
        exact ⟨[], .ended hnext, by simp [hused]⟩
      · rw [unfold_of_next_lexeme hnext hmore, tokens, if_neg hmore] at htokens
        cases used with
        | nil => simp [hmore] at htokens
        | cons token used =>
            obtain ⟨htoken, hlater⟩ := List.cons.inj htokens
            have hshorter := Cursor.length_rest_lt_of_next hreach hnext hmore
            obtain ⟨later, hlexes, hmap⟩ := ih hlater (by omega)
            exact ⟨first :: later, .lexeme hnext hmore hlexes, by simp [htoken, hmap]⟩

/-- **The stream of a text is the run of the lexer on it.** -/
theorem tokens_ofText_eq_iff (hreach : registry.Reachable) {source : Text} {used : List Token} :
    (ofText registry source).tokens = used ++ [.endOfInput] ↔
      ∃ lexemes, registry.Tokenizes source lexemes ∧ lexemes.map (·.token) = used := by
  constructor
  · intro htokens
    exact lexes_of_tokens_unfold hreach htokens (Nat.lt_succ_self _)
  · rintro ⟨lexemes, hlexes, rfl⟩
    exact tokens_unfold_of_lexes hreach hlexes (Nat.lt_succ_self _)

end LexemeStream

end Reckoner
