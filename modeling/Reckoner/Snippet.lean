import Reckoner.Span
import Reckoner.Text.Basic

/-!
# Source snippets

A snippet shows a source text and, on a line below it, a marker under one span
of it.  Spans count bytes and markers count characters, so that a marker stays
under its text whatever the width of the characters before it.
-/

namespace Reckoner

namespace Text

/-- The number of characters of a text that begin before a byte offset, where
the text itself begins at the byte `offset`. -/
def startsBefore (limit : Nat) : (offset : Nat) → Text → Nat
  | _, [] => 0
  | offset, c :: rest =>
    if offset < limit then startsBefore limit (offset + c.utf8Size) rest + 1 else 0

/-- The column of a byte offset, counted in characters.  An offset beyond the
text has the column of its end. -/
def column (source : Text) (offset : Nat) : Nat :=
  startsBefore (min offset (byteLength source)) 0 source

end Text

/-- A source text and a span to mark in it. -/
structure Snippet where
  source : Text
  span : Span
  deriving DecidableEq

namespace Snippet

/-- The number of characters under which the marker stands. -/
def width (snippet : Snippet) : Nat :=
  Text.column snippet.source snippet.span.stop - Text.column snippet.source snippet.span.start

/-- The marker line: blanks up to the first character of the span, and then
`~` under each of several characters or one `^` under a single one. -/
def marker (snippet : Snippet) : Text :=
  List.replicate (Text.column snippet.source snippet.span.start) ' ' ++
    (if 1 < snippet.width then List.replicate snippet.width '~' else ['^'])

/-- The source with the marker line below it. -/
def render (snippet : Snippet) : Text :=
  snippet.source ++ '\n' :: snippet.marker

/-- A sentence with the snippet below it. -/
def caption (snippet : Snippet) (sentence : String) : String :=
  sentence ++ "\n" ++ String.ofList snippet.render

end Snippet

end Reckoner
