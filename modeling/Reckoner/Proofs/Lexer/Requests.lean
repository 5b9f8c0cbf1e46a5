import Reckoner.Proofs.Lexer.Tiling

/-!
# The first requests for a text

The parser draws lexemes from a stream; `Registry.answer` tells what the lexer answers to each
request for a text.  Request by request both are the same (`LexemeStream.request_ofText`), so
what the parser has drawn are the first answers for its text (`Registry.Begins`).

The answers stand in the text where their spans say (`slice_of_answer_lexeme`,
`slice_of_answer_error`), each at its place in the order (`Begins.ordered`): the lexer never
goes back, and the end of input stands behind everything.
-/

namespace Reckoner

/-! ## Parts of a text -/

namespace Text

/-- A place between two characters of a text, or at one of its ends. -/
def IsBoundary (source : Text) (offset : Nat) : Prop :=
  ∃ before after, source = before ++ after ∧ offset = before.byteLength

/-- The part of a text that a span covers. -/
def Slice (source : Text) (span : Span) (text : Text) : Prop :=
  ∃ before after, source = before ++ (text ++ after) ∧ span.start = before.byteLength ∧
    span.stop = (before ++ text).byteLength

end Text

/-- A span that covers a part of a text. -/
structure Span.PointsInto (span : Span) (source : Text) : Prop where
  start_le_stop : span.start ≤ span.stop
  stop_le_end : span.stop ≤ source.byteLength
  start_isBoundary : source.IsBoundary span.start
  stop_isBoundary : source.IsBoundary span.stop

namespace Text

variable {source text : Text} {span : Span}

theorem IsBoundary.le {offset : Nat} (hboundary : source.IsBoundary offset) :
    offset ≤ source.byteLength := by
  obtain ⟨before, after, rfl, rfl⟩ := hboundary
  rw [byteLength_append]
  exact Nat.le_add_right _ _

theorem Slice.start_isBoundary (hslice : source.Slice span text) :
    source.IsBoundary span.start := by
  obtain ⟨before, after, hsource, hstart, _⟩ := hslice
  exact ⟨before, text ++ after, hsource, hstart⟩

theorem Slice.stop_isBoundary (hslice : source.Slice span text) : source.IsBoundary span.stop := by
  obtain ⟨before, after, hsource, _, hstop⟩ := hslice
  exact ⟨before ++ text, after, by rw [hsource, List.append_assoc], hstop⟩

theorem Slice.pointsInto (hslice : source.Slice span text) : span.PointsInto source where
  start_le_stop := by
    obtain ⟨before, after, _, hstart, hstop⟩ := hslice
    rw [hstart, hstop, byteLength_append]
    exact Nat.le_add_right _ _
  stop_le_end := hslice.stop_isBoundary.le
  start_isBoundary := hslice.start_isBoundary
  stop_isBoundary := hslice.stop_isBoundary

end Text

theorem Cursor.Meets.slice {source text : Text} {cursor : Cursor} {span : Span}
    (hmeets : cursor.Meets source span text) : source.Slice span text := by
  obtain ⟨before, blanks, later, hsource, _, _, hstart, hstop⟩ := hmeets
  refine ⟨before ++ blanks, later, ?_, hstart, ?_⟩
  · rw [hsource, List.append_assoc]
  · rw [hstop, List.append_assoc]

/-! ## Requests to a stream -/

namespace LexemeStream

/-- The answer of a stream to a request, of which the first one has the number 0. -/
def request : LexemeStream → Nat → Except LexError Lexeme
  | stream, 0 => stream.next.1
  | stream, n + 1 => stream.next.2.request n

theorem request_ended (span : Span) (n : Nat) :
    (ended span).request n = .ok ⟨.endOfInput, span⟩ := by
  induction n with
  | zero => rfl
  | succ n ih => exact ih

theorem request_stuck (error : LexError) (n : Nat) : (stuck error).request n = .error error := by
  induction n with
  | zero => rfl
  | succ n ih => exact ih

variable {registry : Registry} {source : Text}

theorem request_unfold (hreach : registry.Reachable) {steps n : Nat}
    (hsteps : (registry.position source n).rest.length < steps) (k : Nat) :
    (unfold registry steps (registry.position source n)).request k =
      registry.answer source (n + k) := by
  induction steps generalizing n k with
  | zero => exact absurd hsteps (Nat.not_lt_zero _)
  | succ steps ih =>
      -- behind a request that takes a character the stream goes on with the next position
      have hlater (hshorter : (registry.position source (n + 1)).rest.length <
          (registry.position source n).rest.length) (k : Nat) :
          (unfold registry steps (registry.position source (n + 1))).request k =
            registry.answer source (n + (k + 1)) := by
        rw [ih (by omega), Nat.add_assoc, Nat.add_comm 1 k]
      cases hanswer : registry.answer source n with
      | ok lexeme =>
          have hnext := Registry.next_position_of_answer hanswer
          by_cases hmore : lexeme.token = .endOfInput
          · obtain ⟨token, span⟩ := lexeme
            obtain rfl : token = .endOfInput := hmore
            rw [unfold_of_next_ended hnext, request_ended]
            exact ((Registry.ended_of_answer hanswer).2 _ (Nat.le_add_right n k)).symm
          · rw [unfold_of_next_lexeme hnext hmore]
            cases k with
            | zero => exact hanswer.symm
            | succ k => exact hlater (Cursor.length_rest_lt_of_next hreach hnext hmore) k
      | error error =>
          have hnext := Registry.next_position_of_answer hanswer
          obtain ⟨hbegins, hsome, _, hafter⟩ := Cursor.next_eq_error hnext
          have hfault (hpasses : error.passes = true) (k : Nat) :
              (fault error (unfold registry steps (registry.position source (n + 1)))).request k =
                registry.answer source (n + k) := by
            rw [if_pos hpasses] at hafter
            have hshorter := Cursor.length_rest_advance_lt hsome hbegins
            rw [← hafter] at hshorter
            cases k with
            | zero => exact hanswer.symm
            | succ k => exact hlater hshorter k
          rw [unfold, hnext]
          cases error with
          | unknownCharacter =>
              rw [request_stuck, ← hanswer]
              exact (Registry.answer_eq_of_settled hafter (Nat.le_add_right n k)).symm
          | invalidNumber => exact hfault rfl k
          | unknownWord => exact hfault rfl k

/-- **The requests to the stream of a text are those to its lexer.** -/
theorem request_ofText (hreach : registry.Reachable) (source : Text) (n : Nat) :
    (ofText registry source).request n = registry.answer source n := by
  have hsteps : (registry.position source 0).rest.length < source.length + 1 := Nat.lt_succ_self _
  have hrequest := request_unfold hreach hsteps n
  rwa [Nat.zero_add] at hrequest

end LexemeStream

/-! ## The first answers -/

/-- Lexemes that begin one after the other and end one after the other. -/
def Lexeme.Ordered (lexemes : List Lexeme) : Prop :=
  lexemes.Pairwise fun lexeme later =>
    lexeme.span.start ≤ later.span.start ∧ lexeme.span.stop ≤ later.span.stop

/-- The first requests for a text are answered with these lexemes. -/
def Registry.Begins (registry : Registry) (source : Text) (lexemes : List Lexeme) : Prop :=
  ∀ n lexeme, lexemes[n]? = some lexeme → registry.answer source n = .ok lexeme

namespace Registry

variable {registry : Registry} {source : Text} {n : Nat} {lexeme : Lexeme} {lexemes : List Lexeme}

/-- A lexeme stands between the positions before and after the request. -/
theorem span_of_answer (hanswer : registry.answer source n = .ok lexeme) :
    (registry.position source n).offset ≤ lexeme.span.start ∧
      lexeme.span.start ≤ lexeme.span.stop ∧
      lexeme.span.stop = (registry.position source (n + 1)).offset := by
  obtain ⟨text, _, hspan, hafter⟩ := Cursor.next_eq_ok_iff.mp (next_position_of_answer hanswer)
  rw [hafter, hspan]
  exact ⟨Nat.le_add_right _ _, Nat.le_add_right _ _, rfl⟩

theorem slice_of_answer_lexeme (hanswer : registry.answer source n = .ok lexeme) :
    ∃ text, source.Slice lexeme.span text := by
  obtain ⟨text, hscan, hspan, _⟩ := Cursor.next_eq_ok_iff.mp (next_position_of_answer hanswer)
  refine ⟨text, ?_⟩
  rw [hspan]
  exact ((within_position n).meets hscan.text_isPrefix).slice

theorem slice_of_answer_error {error : LexError}
    (hanswer : registry.answer source n = .error error) : source.Slice error.span error.text := by
  obtain ⟨hbegins, _, hspan, _⟩ := Cursor.next_eq_error (next_position_of_answer hanswer)
  rw [hspan]
  exact ((within_position n).meets hbegins).slice

/-- The snippet of an error shows the whole text. -/
theorem snippet_of_answer {error : LexError} (hanswer : registry.answer source n = .error error) :
    error.snippet = ⟨source, error.span⟩ := by
  have hsnippet := Cursor.snippet_of_next (next_position_of_answer hanswer)
  rwa [(within_position n).1] at hsnippet

theorem offset_position_mono {m : Nat} (hle : m ≤ n) :
    (registry.position source m).offset ≤ (registry.position source n).offset := by
  induction hle with
  | refl => exact Nat.le_refl _
  | step _ ih => exact Nat.le_trans ih (offset_position_le _)

theorem begins_nil : registry.Begins source [] := by
  intro n lexeme hlexeme
  simp at hlexeme

theorem Begins.of_append {later : List Lexeme}
    (hbegins : registry.Begins source (lexemes ++ later)) :
    registry.Begins source lexemes := by
  intro n lexeme hlexeme
  obtain ⟨hlt, _⟩ := List.getElem?_eq_some_iff.mp hlexeme
  exact hbegins n lexeme ((List.getElem?_append_left hlt).trans hlexeme)

theorem Begins.answer {before later : List Lexeme}
    (hbegins : registry.Begins source (before ++ lexeme :: later)) :
    registry.answer source before.length = .ok lexeme :=
  hbegins _ lexeme (by simp)

theorem Begins.concat (hbegins : registry.Begins source lexemes)
    (hanswer : registry.answer source lexemes.length = .ok lexeme) :
    registry.Begins source (lexemes ++ [lexeme]) := by
  intro n found hfound
  rcases Nat.lt_trichotomy n lexemes.length with hlt | rfl | hgt
  · rw [List.getElem?_append_left hlt] at hfound
    exact hbegins n found hfound
  · rw [List.getElem?_concat_length] at hfound
    exact Option.some.inj hfound ▸ hanswer
  · obtain ⟨hlt, _⟩ := List.getElem?_eq_some_iff.mp hfound
    rw [List.length_append, List.length_singleton] at hlt
    omega

theorem Begins.ordered (hbegins : registry.Begins source lexemes) : Lexeme.Ordered lexemes := by
  refine List.pairwise_iff_getElem.mpr fun i j hi hj hlt => ?_
  obtain ⟨hstart, hle, hstop⟩ := span_of_answer (hbegins i _ (List.getElem?_eq_getElem hi))
  obtain ⟨hstart', hle', hstop'⟩ := span_of_answer (hbegins j _ (List.getElem?_eq_getElem hj))
  have hbehind : (registry.position source (i + 1)).offset ≤ (registry.position source j).offset :=
    offset_position_mono hlt
  omega

end Registry

end Reckoner
