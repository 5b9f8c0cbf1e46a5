import Reckoner.Lexer.Numeral
import Reckoner.Registry.Basic
import Reckoner.Snippet
import Reckoner.Token

/-!
# The lexer

Splits a text into lexemes.  After blanks, the next character decides what is
read:

* at the end of the text, the end of input;
* a digit begins a numeral;
* a letter begins a word, a run of letters that names an operator or else a
  function;
* parentheses and the comma stand for themselves;
* any other character begins the longest registered name that the text goes on
  with.

A faulty numeral or word is passed over.  A character that begins no name is
not, so the lexer is stuck there.  An error names its span and holds a snippet
of the whole text in which it is marked.
-/

namespace Reckoner

/-! ## Errors -/

/-- Why a text cannot be split. -/
inductive LexError
  /-- The numeral is too large for a finite number. -/
  | invalidNumber (text : Text) (span : Span) (snippet : Snippet)
  /-- The word names neither an operator nor a function. -/
  | unknownWord (text : Text) (span : Span) (snippet : Snippet)
  /-- No name begins with the character. -/
  | unknownCharacter (character : Char) (span : Span) (snippet : Snippet)
  deriving DecidableEq

namespace LexError

def span : LexError → Span
  | invalidNumber _ span _ => span
  | unknownWord _ span _ => span
  | unknownCharacter _ span _ => span

def snippet : LexError → Snippet
  | invalidNumber _ _ snippet => snippet
  | unknownWord _ _ snippet => snippet
  | unknownCharacter _ _ snippet => snippet

/-- What is wrong, without the snippet. -/
def sentence : LexError → String
  | invalidNumber text span _ =>
    "invalid number '" ++ String.ofList text ++ "' at " ++ span.describe
  | unknownWord text span _ =>
    "unexpected operator or function '" ++ String.ofList text ++ "' at " ++ span.describe
  | unknownCharacter character span _ =>
    "unexpected character '" ++ String.ofList [character] ++ "' at " ++ span.describe

def message (error : LexError) : String :=
  error.snippet.caption error.sentence

end LexError

/-! ## Positions -/

/-- A position in a text: the number of bytes before it and what stands behind it. -/
structure Cursor where
  /-- The whole text. -/
  source : Text
  offset : Nat
  rest : Text
  deriving DecidableEq

namespace Cursor

def start (source : Text) : Cursor := ⟨source, 0, source⟩

/-- The position behind a text that stands at a position. -/
def advance (cursor : Cursor) (text : Text) : Cursor :=
  { cursor with
    offset := cursor.offset + text.byteLength
    rest := cursor.rest.drop text.length }

/-- The span of a text that stands at a position. -/
def spanOf (cursor : Cursor) (text : Text) : Span :=
  ⟨cursor.offset, cursor.offset + text.byteLength⟩

/-- The whole text with a span of it marked. -/
def snippet (cursor : Cursor) (span : Span) : Snippet :=
  ⟨cursor.source, span⟩

/-- The position behind the blanks that stand at a position. -/
def skipBlanks (cursor : Cursor) : Cursor :=
  cursor.advance (cursor.rest.takeWhile isBlank)

/-- The lexeme of a text that stands at a position, and the position behind
it. -/
def emit (cursor : Cursor) (token : Token) (text : Text) : Except LexError Lexeme × Cursor :=
  (.ok ⟨token, cursor.spanOf text⟩, cursor.advance text)

/-! ## Reading one lexeme -/

def readNumeral (cursor : Cursor) : Except LexError Lexeme × Cursor :=
  let text := takeNumeral false false cursor.rest
  let value := (numeralValue text).toNumber false
  if value.isFinite then cursor.emit (.number value) text
  else
    let span := cursor.spanOf text
    (.error (.invalidNumber text span (cursor.snippet span)), cursor.advance text)

def readWord (registry : Registry) (cursor : Cursor) : Except LexError Lexeme × Cursor :=
  let text := cursor.rest.takeWhile isLetter
  if registry.isOperator text then cursor.emit (.operator text) text
  else if (registry.findFunction? text).isSome then cursor.emit (.function text) text
  else
    let span := cursor.spanOf text
    (.error (.unknownWord text span (cursor.snippet span)), cursor.advance text)

/-- Reads the symbol at a position, whose first character is given. -/
def readSymbol (registry : Registry) (cursor : Cursor) (first : Char) :
    Except LexError Lexeme × Cursor :=
  match registry.identifiers.find? (·.isPrefixOf cursor.rest) with
  | some name => cursor.emit (.operator name) name
  | none =>
    let span := cursor.spanOf [first]
    (.error (.unknownCharacter first span (cursor.snippet span)), cursor)

/-- Reads the lexeme at a position that no blank follows. -/
def readLexeme (registry : Registry) (cursor : Cursor) : Except LexError Lexeme × Cursor :=
  match cursor.rest with
  | [] => cursor.emit .endOfInput []
  | c :: _ =>
    if c.isDigit then cursor.readNumeral
    else if isLetter c then cursor.readWord registry
    else if c = '(' then cursor.emit .leftParen [c]
    else if c = ')' then cursor.emit .rightParen [c]
    else if c = ',' then cursor.emit .comma [c]
    else cursor.readSymbol registry c

/-- Reads the next lexeme, past any blanks, and the position that is reached. -/
def next (registry : Registry) (cursor : Cursor) : Except LexError Lexeme × Cursor :=
  cursor.skipBlanks.readLexeme registry

end Cursor

end Reckoner
