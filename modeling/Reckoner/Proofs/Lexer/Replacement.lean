import Reckoner.Proofs.Lexer.Context
import Reckoner.Proofs.Text.Columns

/-!
# A lexeme in parentheses

If the text of a lexeme is replaced by a text in parentheses, then all the other lexemes
stay (`splits_replace`).  What stands before the lexeme is cut in front of it, and so it
is in front of the opening parenthesis; the text in parentheses is cut in front of the
closing one; and what stands behind the lexeme is read from there on, whatever its offset.
Of the opening parenthesis only that every lexeme ends there is used, so that a blank does as
well (`splits_replace_delimited`).

A span counts bytes, and a text is a list of characters.  Between the two stands
`Text.column`, the number of characters before a byte (`column_append`).
-/

namespace Reckoner

/-! ## Replacing a part of a text -/

namespace Text

/-- A text with another one in the place of a span. -/
def replace (source : Text) (span : Span) (text : Text) : Text :=
  source.take (column source span.start) ++ (text ++ source.drop (column source span.stop))

theorem replace_append (before old text after : Text) :
    replace (before ++ (old ++ after)) ⟨before.byteLength, (before ++ old).byteLength⟩ text =
      before ++ (text ++ after) := by
  have hstart := column_append before (old ++ after)
  have hstop := column_append (before ++ old) after
  rw [List.append_assoc] at hstop
  simp only [replace, hstart, hstop]
  rw [List.take_left, ← List.append_assoc before old after, List.drop_left]

end Text

/-- A text that begins with a delimiter can stand in the place of a lexeme, and all the other
lexemes stay, if it is split before every text as it is here. -/
theorem Registry.splits_replace_delimited {registry : Registry} (hreach : registry.Reachable)
    {source text : Text} {before after : List Lexeme} {old : Lexeme} {tokens : List Token}
    {d : Char}
    (hsource : registry.Tokenizes source (before ++ old :: after)) (hdelimits : Delimits d)
    (htext : ∀ {behind : Text} {later : List Token}, registry.Splits behind later →
      registry.Splits (d :: (text ++ behind)) (tokens ++ later)) :
    registry.Splits (source.replace old.span (d :: text))
      (before.map (·.token) ++ (tokens ++ after.map (·.token))) := by
  obtain ⟨front, middle, hfront, hbefore, hoffset, hmiddle⟩ :=
    Cursor.exists_splitsBefore hreach hsource
  cases hmiddle with
  | @lexeme _ reached _ _ hnext hmore hafter =>
      obtain ⟨blanks, c, word, hrest, hblanks, hblank, hscan, hspan, hreached⟩ :=
        Cursor.exists_scan_of_next hreach hnext hmore
      -- the text is what stands before the lexeme, the lexeme and what stands behind it
      have hcut : source = (front ++ blanks) ++ (c :: word ++ reached.rest) := by
        have hstart : source = front ++ middle.rest := hfront
        rw [hstart, hrest]
        simp
      have hplace : old.span = ⟨Text.byteLength (front ++ blanks),
          Text.byteLength (front ++ blanks ++ c :: word)⟩ := by
        rw [hspan, hreached, hoffset]
        simp [Cursor.start]
      rw [hcut, hplace, Text.replace_append]
      -- from the back to the front
      have hbehind := (splitsBefore_of_lexes hreach hafter).splits splits_nil
      rw [List.append_nil, List.append_nil] at hbehind
      rw [hrest] at hbefore
      have houter := (hbefore.append_blanks hblanks).before_delimiter hreach hdelimits
        (text ++ reached.rest)
      exact houter.splits (htext hbehind)

/-- **A lexeme in parentheses.**  If the text of a lexeme is replaced by a text in
parentheses, then all the other lexemes stay, and the lexemes of the text stand between
those of the parentheses. -/
theorem Registry.splits_replace {registry : Registry} (hreach : registry.Reachable)
    {source text : Text} {before after lexemes : List Lexeme} {old : Lexeme}
    (hsource : registry.Tokenizes source (before ++ old :: after))
    (htext : registry.Tokenizes text lexemes) :
    registry.Splits (source.replace old.span ('(' :: (text ++ [')'])))
      (before.map (·.token) ++
        .leftParen :: (lexemes.map (·.token) ++ .rightParen :: after.map (·.token))) := by
  have hdelimited := @splits_replace_delimited registry hreach source (text ++ [')']) before after
    old (.leftParen :: (lexemes.map (·.token) ++ [.rightParen])) '(' hsource .leftParen
  have hsplits := hdelimited fun {behind later} hbehind => by
    have hinner := (splitsBefore_of_lexes hreach htext).before_delimiter hreach .rightParen behind
    have hgroup := splits_leftParen (hinner.splits (splits_rightParen hbehind))
    simpa [Cursor.start] using hgroup
  simpa using hsplits

end Reckoner
