import Mathlib.Data.List.DropRight
import Mathlib.Data.List.TakeWhile
import Reckoner.Proofs.Lexer.Tokens

/-!
# Positions in a text

A lexer keeps a position: its text, a number of bytes, and what stands behind them.
The three belong together if the position is one of a text (`Cursor.Within`), which
then has exactly as many bytes before it; so it stands between two characters.

A request first skips blanks and then either takes a text, which begins what stands
there, or stays.  `next_eq_ok_iff` opens a request that yields a lexeme,
`next_eq_error` one that fails; in both cases the answer speaks of a text that only
blanks separate from the position (`Cursor.Meets`).  The snippet of an error marks
this text in the text of the position (`snippet_of_next`).

What a request does not take it leaves as it is.  So a request at a position that it
would only move past blanks is repeated for ever (`next_skipBlanks`).
-/

namespace Reckoner

/-! ## The texts of errors -/

namespace LexError

/-- The text that cannot be read. -/
def text : LexError → Text
  | invalidNumber text _ _ => text
  | unknownWord text _ _ => text
  | unknownCharacter character _ _ => [character]

/-- Whether the lexer goes on behind the text. -/
def passes : LexError → Bool
  | unknownCharacter _ _ _ => false
  | _ => true

end LexError

/-! ## Positions -/

namespace Cursor

/-- The position is one of the text: it stands behind as many bytes as it counts. -/
def Within (source : Text) (cursor : Cursor) : Prop :=
  cursor.source = source ∧
    ∃ before, source = before ++ cursor.rest ∧ cursor.offset = before.byteLength

/-- Behind the position stand blanks and then the text, which has the span. -/
def Meets (source : Text) (cursor : Cursor) (span : Span) (text : Text) : Prop :=
  ∃ before blanks later,
    source = before ++ (blanks ++ (text ++ later)) ∧ cursor.offset = before.byteLength ∧
      (∀ c ∈ blanks, isBlank c = true) ∧ span.start = (before ++ blanks).byteLength ∧
      span.stop = (before ++ (blanks ++ text)).byteLength

variable {registry : Registry} {source text : Text} {cursor after : Cursor} {lexeme : Lexeme}
  {error : LexError}

theorem within_start : (start source).Within source :=
  ⟨rfl, [], rfl, rfl⟩

theorem rest_advance {later : Text} (hrest : cursor.rest = text ++ later) :
    (cursor.advance text).rest = later := by
  simp [advance, hrest]

@[simp] theorem advance_nil (cursor : Cursor) : cursor.advance [] = cursor := by
  simp [advance]

theorem Within.advance (hwithin : cursor.Within source) (hbegins : text <+: cursor.rest) :
    (cursor.advance text).Within source := by
  obtain ⟨hwhole, before, hsource, hoffset⟩ := hwithin
  obtain ⟨later, hrest⟩ := hbegins
  refine ⟨hwhole, before ++ text, ?_, ?_⟩
  · rw [rest_advance hrest.symm, hsource, ← hrest, List.append_assoc]
  · rw [Cursor.advance, Text.byteLength_append, hoffset]

/-- A position with nothing behind it is the end of the text. -/
theorem Within.offset_of_rest_eq_nil (hwithin : cursor.Within source) (hrest : cursor.rest = []) :
    cursor.offset = source.byteLength := by
  obtain ⟨_, before, hsource, hoffset⟩ := hwithin
  rw [hrest, List.append_nil] at hsource
  rw [hoffset, hsource]

/-! ## Blanks -/

theorem rest_eq_blanks_append (cursor : Cursor) :
    cursor.rest = cursor.rest.takeWhile isBlank ++ cursor.skipBlanks.rest := by
  have hprefix : cursor.rest.takeWhile isBlank <+: cursor.rest := List.takeWhile_prefix _
  exact (List.prefix_iff_eq_append.mp hprefix).symm

theorem rest_skipBlanks (cursor : Cursor) :
    cursor.skipBlanks.rest = cursor.rest.dropWhile isBlank := by
  have hsplit := List.takeWhile_append_dropWhile (p := isBlank) (l := cursor.rest)
  exact List.append_cancel_left ((rest_eq_blanks_append cursor).symm.trans hsplit.symm)

theorem rest_skipBlanks_eq_nil_iff :
    cursor.skipBlanks.rest = [] ↔ ∀ c ∈ cursor.rest, isBlank c = true := by
  rw [rest_skipBlanks, List.dropWhile_eq_nil_iff]

theorem Within.skipBlanks (hwithin : cursor.Within source) : cursor.skipBlanks.Within source :=
  hwithin.advance (List.takeWhile_prefix _)

/-- There are no blanks behind the blanks. -/
theorem skipBlanks_skipBlanks (cursor : Cursor) :
    cursor.skipBlanks.skipBlanks = cursor.skipBlanks := by
  have hnone : cursor.skipBlanks.rest.takeWhile isBlank = [] := by
    have hsplit := List.takeWhile_append_dropWhile (p := isBlank) (l := cursor.skipBlanks.rest)
    rw [rest_skipBlanks, List.dropWhile_idempotent] at hsplit
    rw [rest_skipBlanks]
    exact List.append_left_eq_self.mp hsplit
  rw [skipBlanks.eq_1 cursor.skipBlanks, hnone, advance_nil]

/-- Only blanks are skipped in vain. -/
theorem next_skipBlanks (cursor : Cursor) :
    cursor.skipBlanks.next registry = cursor.next registry := by
  unfold next
  rw [skipBlanks_skipBlanks]

theorem Within.meets (hwithin : cursor.Within source) (hbegins : text <+: cursor.skipBlanks.rest) :
    cursor.Meets source (cursor.skipBlanks.spanOf text) text := by
  obtain ⟨_, before, hsource, hoffset⟩ := hwithin
  obtain ⟨later, hrest⟩ := hbegins
  have hblanks : ∀ c ∈ cursor.rest.takeWhile isBlank, isBlank c = true :=
    List.all_eq_true.mp List.all_takeWhile
  refine ⟨before, cursor.rest.takeWhile isBlank, later, ?_, hoffset, hblanks, ?_, ?_⟩
  · rw [hrest, ← rest_eq_blanks_append, hsource]
  · simp [spanOf, Cursor.skipBlanks, Cursor.advance, hoffset]
  · simp [spanOf, Cursor.skipBlanks, Cursor.advance, hoffset, Nat.add_assoc]

/-- The span of a text with characters is not empty. -/
theorem Meets.start_lt_stop {span : Span} (hmeets : cursor.Meets source span text)
    (hsome : text ≠ []) : span.start < span.stop := by
  obtain ⟨before, blanks, later, _, _, _, hstart, hstop⟩ := hmeets
  obtain ⟨c, rest, rfl⟩ := List.exists_cons_of_ne_nil hsome
  have hsize := c.utf8Size_pos
  simp only [Text.byteLength_append, Text.byteLength_cons] at hstart hstop
  omega

/-! ## Requests that fail -/

/-- What is wrong with a text without a blank in front stands at its beginning, is
marked in the snippet, and is passed over unless it is an unknown character. -/
theorem readLexeme_eq_error (hread : cursor.readLexeme registry = (.error error, after)) :
    error.text <+: cursor.rest ∧ error.text ≠ [] ∧ error.span = cursor.spanOf error.text ∧
      error.snippet = ⟨cursor.source, error.span⟩ ∧
      after = if error.passes then cursor.advance error.text else cursor := by
  obtain ⟨source, offset, rest⟩ := cursor
  cases rest with
  | nil => simp [readLexeme, emit] at hread
  | cons c rest =>
      simp only [readLexeme] at hread
      split at hread
      · next hdigit =>
          simp only [readNumeral] at hread
          split at hread
          · simp [emit] at hread
          · obtain ⟨⟨⟩, ⟨⟩⟩ := hread
            exact ⟨takeNumeral_isPrefix _ _ _,
              by simp [LexError.text, takeNumeral_cons_of_isDigit hdigit], rfl, rfl, rfl⟩
      split at hread
      · next hletter =>
          simp only [readWord] at hread
          split at hread
          · simp [emit] at hread
          split at hread
          · simp [emit] at hread
          · obtain ⟨⟨⟩, ⟨⟩⟩ := hread
            exact ⟨List.takeWhile_prefix _, by simp [LexError.text, hletter], rfl, rfl, rfl⟩
      -- parentheses and commas are read without fail
      split at hread
      · simp [emit] at hread
      split at hread
      · simp [emit] at hread
      split at hread
      · simp [emit] at hread
      simp only [readSymbol] at hread
      split at hread
      · simp [emit] at hread
      · obtain ⟨⟨⟩, ⟨⟩⟩ := hread
        exact ⟨List.cons_prefix_cons.mpr ⟨rfl, List.nil_prefix⟩, List.cons_ne_nil _ _, rfl, rfl,
          rfl⟩

theorem next_eq_error (hnext : cursor.next registry = (.error error, after)) :
    error.text <+: cursor.skipBlanks.rest ∧ error.text ≠ [] ∧
      error.span = cursor.skipBlanks.spanOf error.text ∧
      after = if error.passes then cursor.skipBlanks.advance error.text else cursor.skipBlanks := by
  obtain ⟨hbegins, hsome, hspan, _, hafter⟩ := readLexeme_eq_error hnext
  exact ⟨hbegins, hsome, hspan, hafter⟩

/-- The snippet of an error is made of the text that is read and the span of the
error. -/
theorem snippet_of_next (hnext : cursor.next registry = (.error error, after)) :
    error.snippet = ⟨cursor.source, error.span⟩ := by
  obtain ⟨_, _, _, hsnippet, _⟩ := readLexeme_eq_error hnext
  exact hsnippet

/-! ## One request -/

/-- The end of input is yielded where only blanks stand, and nothing else is. -/
theorem next_eq_ended_iff {span : Span} :
    cursor.next registry = (.ok ⟨.endOfInput, span⟩, after) ↔
      (∀ c ∈ cursor.rest, isBlank c = true) ∧ span = cursor.skipBlanks.spanOf [] ∧
        after = cursor.skipBlanks := by
  rw [next_eq_ok_iff, ← rest_skipBlanks_eq_nil_iff]
  constructor
  · rintro ⟨text, hscan, hspan, hafter⟩
    generalize hrest : cursor.skipBlanks.rest = rest at hscan
    cases hscan with
    | ended => exact ⟨rfl, hspan, hafter.trans (advance_nil _)⟩
  · rintro ⟨hrest, rfl, rfl⟩
    have hscan : Scan registry cursor.skipBlanks.rest .endOfInput [] := by
      rw [hrest]
      exact .ended
    exact ⟨[], hscan, rfl, (advance_nil _).symm⟩

/-- A request does not change the text that is read. -/
theorem source_next : (cursor.next registry).2.source = cursor.source := by
  rcases hnext : cursor.next registry with ⟨error | lexeme, after⟩
  · obtain ⟨_, _, _, rfl⟩ := next_eq_error hnext
    show (if error.passes then cursor.skipBlanks.advance error.text
      else cursor.skipBlanks).source = cursor.source
    split <;> rfl
  · obtain ⟨_, _, _, rfl⟩ := next_eq_ok_iff.mp hnext
    rfl

/-- A request leads from a position of a text to a position of the text. -/
theorem Within.next (hwithin : cursor.Within source) :
    (cursor.next registry).2.Within source := by
  rcases hnext : cursor.next registry with ⟨error | lexeme, after⟩
  · obtain ⟨hbegins, _, _, rfl⟩ := next_eq_error hnext
    show (if error.passes then cursor.skipBlanks.advance error.text
      else cursor.skipBlanks).Within source
    split
    · exact hwithin.skipBlanks.advance hbegins
    · exact hwithin.skipBlanks
  · obtain ⟨text, hscan, _, rfl⟩ := next_eq_ok_iff.mp hnext
    exact hwithin.skipBlanks.advance hscan.text_isPrefix

end Cursor

end Reckoner
