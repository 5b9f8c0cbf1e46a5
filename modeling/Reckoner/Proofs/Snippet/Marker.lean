import Reckoner.Proofs.Lexer.Requests
import Reckoner.Proofs.Text.Columns

/-!
# What the marker shows

A marker line is a number of blanks and then the marks of a number of characters.  Both numbers are
told here by the places where the characters of the source begin, for every span: the blanks stand
for the characters that begin in front of the span, the marks for those that begin in it.

That the width of a marker, a difference of two columns, has this meaning for all spans is
`Text.column_sub_column`.  If a span covers a part of the source, then the characters in front of it
and in it are those of two parts, whatever the sizes of the characters
(`Text.Slice.startsIn_eq_length`).
-/

namespace Reckoner

/-! ## Spans that cover a part -/

namespace Span.PointsInto

variable {source : Text} {span : Span}

/-- A span whose ends do not split a character covers a part of the text. -/
theorem exists_slice (hpoints : span.PointsInto source) : ∃ text, source.Slice span text := by
  obtain ⟨before, rest, hsource, hstart⟩ := hpoints.start_isBoundary
  obtain ⟨front, after, hfront, hstop⟩ := hpoints.stop_isBoundary
  have hbegins : before <+: front := by
    rcases List.prefix_or_prefix_of_prefix ⟨rest, hsource.symm⟩ ⟨after, hfront.symm⟩ with h | h
    · exact h
    · have hle : before.byteLength ≤ front.byteLength := by
        rw [← hstart, ← hstop]
        exact hpoints.start_le_stop
      have hsame := Text.eq_of_isPrefix_of_byteLength_le h hle
      exact hsame ▸ List.prefix_rfl
  obtain ⟨text, rfl⟩ := hbegins
  exact ⟨text, before, after, by rw [hfront, List.append_assoc], hstart, hstop⟩

/-- What stands in front of the span is such a part too. -/
theorem inFront (hpoints : span.PointsInto source) : PointsInto ⟨0, span.start⟩ source where
  start_le_stop := Nat.zero_le _
  stop_le_end := hpoints.start_isBoundary.le
  start_isBoundary := ⟨[], source, rfl, rfl⟩
  stop_isBoundary := hpoints.start_isBoundary

end Span.PointsInto

theorem Text.Slice.startsIn_eq_length {source text : Text} {span : Span}
    (hslice : source.Slice span text) : source.startsIn span.start span.stop = text.length := by
  obtain ⟨before, after, rfl, hstart, hstop⟩ := hslice
  rw [hstart, hstop, Text.startsIn_part]

/-! ## Marker lines -/

namespace Snippet

/-- A line of a number of blanks and of marks for a number of characters: a `~` for each of several
characters, and one `^` if there are no more than one. -/
structure IsMarkerLine (line : Text) (blanks marked : Nat) : Prop where
  several : 1 < marked → line = List.replicate blanks ' ' ++ List.replicate marked '~'
  single : marked ≤ 1 → line = List.replicate blanks ' ' ++ ['^']

theorem isMarkerLine_marker (snippet : Snippet) :
    IsMarkerLine snippet.marker (Text.column snippet.source snippet.span.start) snippet.width where
  several hseveral := by rw [marker, if_pos hseveral]
  single hsingle := by rw [marker, if_neg (Nat.not_lt.mpr hsingle)]

theorem width_eq_startsIn (snippet : Snippet) :
    snippet.width = snippet.source.startsIn snippet.span.start snippet.span.stop :=
  Text.column_sub_column _ _ _

/-- **The marker has a blank for each character that begins in front of the span, and marks those
that begin in it.**  If the span covers a part of the source, these are the characters in front of
the part and those of the part. -/
theorem marker_counts_characters (snippet : Snippet) :
    IsMarkerLine snippet.marker (snippet.source.startsIn 0 snippet.span.start)
        (snippet.source.startsIn snippet.span.start snippet.span.stop) ∧
      (snippet.span.PointsInto snippet.source →
        ∃ before text, snippet.source.Slice ⟨0, snippet.span.start⟩ before ∧
          snippet.source.Slice snippet.span text ∧
          snippet.source.startsIn 0 snippet.span.start = before.length ∧
          snippet.source.startsIn snippet.span.start snippet.span.stop = text.length) := by
  constructor
  · have hmarker := isMarkerLine_marker snippet
    rwa [Text.column_eq_startsIn, width_eq_startsIn] at hmarker
  · intro hpoints
    obtain ⟨before, hbefore⟩ := hpoints.inFront.exists_slice
    obtain ⟨text, htext⟩ := hpoints.exists_slice
    exact ⟨before, text, hbefore, htext, hbefore.startsIn_eq_length, htext.startsIn_eq_length⟩

/-- Behind a character of two bytes, one of three bytes and one of four are marked. -/
theorem marker_counts_characters_wide :
    let source : Text := "é€😀 + $".toList
    Span.PointsInto ⟨2, 9⟩ source ∧ marker ⟨source, ⟨2, 9⟩⟩ = " ~~".toList ∧
      IsMarkerLine (marker ⟨source, ⟨2, 9⟩⟩) (source.startsIn 0 2) (source.startsIn 2 9) ∧
      ∃ before text, source.Slice ⟨0, 2⟩ before ∧ source.Slice ⟨2, 9⟩ text ∧
        source.startsIn 0 2 = before.length ∧ source.startsIn 2 9 = text.length := by
  intro source
  have hpoints : Span.PointsInto ⟨2, 9⟩ source :=
    { start_le_stop := by decide
      stop_le_end := by decide
      start_isBoundary := ⟨['é'], "€😀 + $".toList, by decide, by decide⟩
      stop_isBoundary := ⟨"é€😀".toList, " + $".toList, by decide, by decide⟩ }
  obtain ⟨hline, hparts⟩ := marker_counts_characters ⟨source, ⟨2, 9⟩⟩
  exact ⟨hpoints, by decide, hline, hparts hpoints⟩

-- a span from inside a character to beyond the source, and a reversed one
example : marker ⟨"é + $".toList, ⟨1, 40⟩⟩ = " ~~~~".toList := by decide
example : marker ⟨"1 + $".toList, ⟨4, 2⟩⟩ = "    ^".toList := by decide

end Snippet

end Reckoner
