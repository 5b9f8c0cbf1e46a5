import Mathlib.Data.List.DropRight
import Reckoner.Proofs.Lexer.Replacement
import Reckoner.Proofs.Parser.Resolution
import Reckoner.Proofs.Parser.Reuse

/-!
# The column of the marker

A snippet ends with the marker line, and the first mark on that line has a column.  The text that
an error is about has one too: the number of characters between the last newline in front of it
and the text itself (`Text.ownColumn`).  A marker that stands under its text has the same column.

The marker counts the characters of the whole source in front of the span.  This is the column in
the line of the span, and as many characters more as there are up to the last newline
(`Snippet.markColumn_eq_add`).  So the marker stands under its text exactly when the text stands on
the first line, however wide the characters in front of it are.

Spans count bytes, so one has to know that an error begins between two characters, and that the
source of its snippet is the text.  This holds of all errors, those of the lexer, of a parse, and of
a parse with a parser that was used before (`Registry.Reports`).
-/

namespace Reckoner

/-! ## Lines -/

namespace Text

/-- What stands behind the last newline of a text. -/
def lastLine (text : Text) : Text :=
  text.rtakeWhile (· ≠ '\n')

/-- A text up to its last newline, which is included. -/
def earlierLines (text : Text) : Text :=
  text.rdropWhile (· ≠ '\n')

/-- The column behind a text, in its last line. -/
def ownColumn (before : Text) : Nat :=
  (lastLine before).length

variable {text line : Text}

theorem length_eq_add (text : Text) :
    text.length = (earlierLines text).length + ownColumn text := by
  rw [ownColumn, ← List.length_append, earlierLines, lastLine, List.rdropWhile_append_rtakeWhile]

theorem earlierLines_eq_nil_iff : earlierLines text = [] ↔ '\n' ∉ text := by
  simp only [earlierLines, List.rdropWhile_eq_nil_iff, decide_eq_true_eq]
  exact ⟨fun hall hmem => hall _ hmem rfl, fun hnone c hc hnewline => hnone (hnewline ▸ hc)⟩

theorem lastLine_append (hline : '\n' ∉ line) : lastLine (text ++ '\n' :: line) = line := by
  have hall : ∀ c ∈ line.reverse, decide (c ≠ '\n') = true := by
    intro c hc
    exact decide_eq_true fun hnewline => hline (hnewline ▸ List.mem_reverse.mp hc)
  simp only [lastLine, List.rtakeWhile, List.reverse_append, List.reverse_cons, List.append_assoc]
  rw [List.takeWhile_append_of_pos hall]
  simp

end Text

/-! ## Marker lines -/

namespace Snippet

def isMark (c : Char) : Bool :=
  c = '~' || c = '^'

/-- The column of the first mark on the last line. -/
def markColumn (snippet : Snippet) : Nat :=
  (Text.lastLine snippet.render).findIdx isMark

variable {snippet : Snippet}

theorem newline_not_mem_marker (snippet : Snippet) : '\n' ∉ snippet.marker := by
  unfold marker
  split <;> simp [List.mem_replicate]

theorem lastLine_render (snippet : Snippet) : Text.lastLine snippet.render = snippet.marker :=
  Text.lastLine_append snippet.newline_not_mem_marker

theorem findIdx_blanks_append (blanks : Nat) {mark : Char} {marks : Text}
    (hmark : isMark mark = true) :
    (List.replicate blanks ' ' ++ mark :: marks).findIdx isMark = blanks := by
  induction blanks with
  | zero => simp [List.findIdx_cons, hmark]
  | succ blanks ih =>
      have hblank : isMark ' ' = false := by decide
      simp [List.replicate_succ, List.findIdx_cons, hblank, ih]

/-- The first mark stands under the first character of the span. -/
theorem markColumn_eq (snippet : Snippet) :
    snippet.markColumn = Text.column snippet.source snippet.span.start := by
  rw [markColumn, lastLine_render, marker]
  split
  · next hwide =>
      obtain ⟨more, hmore⟩ := Nat.exists_eq_add_of_lt hwide
      rw [hmore, Nat.add_assoc, Nat.add_comm, List.replicate_succ]
      exact findIdx_blanks_append _ rfl
  · exact findIdx_blanks_append _ rfl

end Snippet

/-! ## Where errors begin -/

/-- A snippet of the text in which the span is marked, which begins between two characters. -/
def Snippet.Marks (source : Text) (span : Span) (snippet : Snippet) : Prop :=
  snippet = ⟨source, span⟩ ∧ source.IsBoundary span.start

namespace Registry

variable {registry : Registry} {source : Text}

/-- A lexeme that begins between two characters of the text, and names no unknown function. -/
def BeginsIn (registry : Registry) (source : Text) (lexeme : Lexeme) : Prop :=
  registry.Recognizes lexeme ∧ source.IsBoundary lexeme.span.start

theorem beginsIn_of_next {cursor after : Cursor} {lexeme : Lexeme}
    (hwithin : cursor.Within source) (hnext : cursor.next registry = (.ok lexeme, after)) :
    registry.BeginsIn source lexeme := by
  obtain ⟨text, hscan, hspan, _⟩ := Cursor.next_eq_ok_iff.mp hnext
  refine ⟨recognizes_of_next hnext, ?_⟩
  rw [hspan]
  exact (hwithin.meets hscan.text_isPrefix).slice.start_isBoundary

/-- Every answer from a position of the text on begins between two of its characters, and errors
show the text. -/
theorem all_beginsIn {cursor : Cursor} (hwithin : cursor.Within source) (steps : Nat) :
    (LexemeStream.unfold registry steps cursor).All (registry.BeginsIn source)
      fun error => error.snippet.Marks source error.span := by
  refine LexemeStream.all_unfold ?_ ?_ ?_ steps cursor hwithin
  · intro cursor ⟨_, before, hsource, hoffset⟩
    exact ⟨nofun, before, cursor.rest, hsource, hoffset⟩
  · intro cursor lexeme after hwithin hnext
    refine ⟨beginsIn_of_next hwithin hnext, ?_⟩
    have hafter : (cursor.next registry).2.Within source := hwithin.next
    rwa [hnext] at hafter
  · intro cursor error after hwithin hnext
    have hafter : (cursor.next registry).2.Within source := hwithin.next
    rw [hnext] at hafter
    obtain ⟨hbegins, _, hspan, _⟩ := Cursor.next_eq_error hnext
    have hsnippet : error.snippet = ⟨source, error.span⟩ := by
      rw [Cursor.snippet_of_next hnext, hwithin.1]
    have hboundary : source.IsBoundary error.span.start := by
      rw [hspan]
      exact (hwithin.meets hbegins).slice.start_isBoundary
    exact ⟨⟨hsnippet, hboundary⟩, hafter⟩

/-- An error begins where one of the lexemes begins that it is about, and shows the text. -/
theorem explains_marks (limit : Nat) :
    Parser.Explains registry limit source (registry.BeginsIn source)
      (fun error => error.snippet.Marks source error.span)
      fun error => error.snippet.Marks source error.span where
  known hgood hname := hgood.1 _ hname
  lexical hfaulty := hfaulty
  unexpected hgood _ := ⟨rfl, hgood.2⟩
  arity hfirst hlast := ⟨rfl, min_rec' source.IsBoundary hfirst.2 hlast.2⟩
  unmatched _ hgood := ⟨rfl, hgood.2⟩
  trailing hgood := ⟨rfl, hgood.2⟩
  tooDeep hgood := ⟨rfl, hgood.2⟩
  callTooDeep hfirst hlast := ⟨rfl, min_rec' source.IsBoundary hfirst.2 hlast.2⟩

theorem ahead_of_tracks {s : ParserState} (htracks : s.Tracks registry source) :
    s.Ahead source (registry.BeginsIn source)
      fun error => error.snippet.Marks source error.span where
  source_eq := htracks.source_eq
  current := by
    obtain ⟨request, _, hanswer, _⟩ := htracks.current
    exact beginsIn_of_next (within_position request) (next_position_of_answer hanswer)
  upcoming := by
    rw [htracks.upcoming]
    exact all_beginsIn (within_position s.drawn) _

/-- The lexer reports an error with the span and the snippet, or a parser of the text does at one
of its parses. -/
inductive Reports (registry : Registry) (source : Text) : Span → Snippet → Prop
  | lexer {n : Nat} {error : LexError} (hanswer : registry.answer source n = .error error) :
      Reports registry source error.span error.snippet
  | parse {limit : Nat} {error : ParseError} (hparse : registry.parse limit source = .error error) :
      Reports registry source error.span error.snippet
  | reply {limit n : Nat} {start : ParserState} {error : ParseError}
      (hstart : ParserState.start registry source = .ok start)
      (hreply : registry.reply limit start n = .error error) :
      Reports registry source error.span error.snippet

theorem Reports.marks {span : Span} {snippet : Snippet} (hreach : registry.Reachable)
    (hreports : registry.Reports source span snippet) : snippet.Marks source span := by
  cases hreports with
  | lexer hanswer =>
      exact ⟨snippet_of_answer hanswer, (slice_of_answer_error hanswer).start_isBoundary⟩
  | @parse limit error hparse =>
      exact explained_of_parse (explains_marks limit) (all_beginsIn Cursor.within_start _) hparse
  | @reply limit n start error hstart hreply =>
      have hahead := ahead_of_tracks (tracks_reused hreach hstart limit n)
      have hkeeps := (explains_marks limit).keeps_parse _ hahead
      rw [run_reused, hreply] at hkeeps
      exact hkeeps

end Registry

/-! ## The result -/

/-- A snippet of a source whose span begins between two characters, and where its marker
stands. -/
structure Snippet.StandsAt (source : Text) (span : Span) (snippet : Snippet)
    (before after : Text) : Prop where
  snippet_eq : snippet = ⟨source, span⟩
  source_eq : source = before ++ after
  start_eq : span.start = before.byteLength
  /-- The marker counts the characters of all lines. -/
  markColumn_eq_add : snippet.markColumn = before.earlierLines.length + before.ownColumn
  markColumn_eq_iff : snippet.markColumn = before.ownColumn ↔ '\n' ∉ before

theorem Snippet.Marks.standsAt {source : Text} {span : Span} {snippet : Snippet}
    (hmarks : snippet.Marks source span) :
    ∃ before after, StandsAt source span snippet before after := by
  obtain ⟨rfl, before, after, rfl, hstart⟩ := hmarks
  have hmark : markColumn ⟨before ++ after, span⟩ =
      before.earlierLines.length + before.ownColumn := by
    rw [markColumn_eq, hstart, Text.column_append, Text.length_eq_add]
  refine ⟨before, after, rfl, rfl, hstart, hmark, ?_⟩
  rw [hmark, Nat.add_eq_right, List.length_eq_zero_iff, Text.earlierLines_eq_nil_iff]

/-- **The marker of an error stands under its text exactly if that begins on the first line.**
On a later line the marker is off by the characters up to the newline in front. -/
theorem Registry.Reports.exists_standsAt {registry : Registry} (hreach : registry.Reachable)
    {source : Text} {span : Span} {snippet : Snippet}
    (hreports : registry.Reports source span snippet) :
    ∃ before after, Snippet.StandsAt source span snippet before after :=
  (hreports.marks hreach).standsAt

/-- A blank of two bytes on the first line, and an operand that is missing at its end. -/
theorem Registry.Reports.exists_standsAt_wide :
    let source := '\u00A0' :: "1 +".toList
    let span : Span := ⟨5, 5⟩
    let snippet : Snippet := ⟨source, span⟩
    standard.parse 256 source = .error (.unexpected .endOfInput .operand span snippet) ∧
      snippet.markColumn = 4 ∧
      ∃ before after, Snippet.StandsAt source span snippet before after := by
  intro source span snippet
  have hparse : standard.parse 256 source =
      .error (.unexpected .endOfInput .operand span snippet) := by
    decide +kernel
  exact ⟨hparse, by decide +kernel, Reports.exists_standsAt reachable_standard (.parse hparse)⟩

/-- The marker of an error on the second line stands where the first line would go on. -/
theorem Snippet.markColumn_ne_ownColumn :
    let source := "1 +\n$".toList
    let snippet : Snippet := ⟨source, ⟨4, 5⟩⟩
    Registry.standard.parse 256 source =
        .error (.lexical (.unknownCharacter '$' ⟨4, 5⟩ snippet)) ∧
      source = "1 +\n".toList ++ "$".toList ∧ Text.byteLength "1 +\n".toList = 4 ∧
      Text.ownColumn "1 +\n".toList = 0 ∧ snippet.markColumn = 4 := by
  decide +kernel

end Reckoner
