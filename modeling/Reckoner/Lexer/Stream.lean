import Reckoner.Lexer.Basic

/-!
# Lexeme streams

All that a lexer yields from a position on.  A lexer that has reached the end
of the text, or a character that begins no name, yields the same answer again
and again; every other answer is followed by later ones.
-/

namespace Reckoner

/-- The answers of a lexer, in turn. -/
inductive LexemeStream
  /-- The end of input at a span, forever. -/
  | ended (span : Span)
  /-- The same error, forever. -/
  | stuck (error : LexError)
  /-- A lexeme and what follows it. -/
  | lexeme (first : Lexeme) (later : LexemeStream)
  /-- An error and what follows the text it passes over. -/
  | fault (error : LexError) (later : LexemeStream)
  deriving DecidableEq

namespace LexemeStream

/-- The first answer of a stream, and the stream behind it. -/
def next : LexemeStream → Except LexError Lexeme × LexemeStream
  | ended span => (.ok ⟨.endOfInput, span⟩, ended span)
  | stuck error => (.error error, stuck error)
  | lexeme first later => (.ok first, later)
  | fault error later => (.error error, later)

/-- The number of answers of a stream before the one that repeats. -/
def size : LexemeStream → Nat
  | ended _ => 0
  | stuck _ => 0
  | lexeme _ later => later.size + 1
  | fault _ later => later.size + 1

/-- The answers of the lexer from a position on, of which at most `steps` stand
before the one that repeats. -/
def unfold (registry : Registry) : (steps : Nat) → Cursor → LexemeStream
  | 0, cursor => ended ⟨cursor.offset, cursor.offset⟩
  | steps + 1, cursor =>
    match cursor.next registry with
    | (.ok ⟨.endOfInput, span⟩, _) => ended span
    | (.ok first, after) => lexeme first (unfold registry steps after)
    | (.error (.unknownCharacter character span snippet), _) =>
      stuck (.unknownCharacter character span snippet)
    | (.error error, after) => fault error (unfold registry steps after)

/-- The answers of the lexer for a text.  Each answer before the one that
repeats takes a character, so there are no more of them than characters. -/
def ofText (registry : Registry) (source : Text) : LexemeStream :=
  unfold registry (source.length + 1) (Cursor.start source)

end LexemeStream

end Reckoner
