import Reckoner.Proofs.Lexer.Positions
import Reckoner.Registry.Standard

/-!
# Tilings of a text

The lexer, asked again and again, goes through a text from its beginning.  What it
takes in turn tiles the text: only blanks stand between one piece and the next, and
no piece is taken twice.

`Registry.position` and `Registry.answer` follow the requests, errors included, and
`Registry.Tiles` says what is true of all of them.  Two facts carry it.

* A request either takes at least one character or only skips blanks
  (`position_succ_cases`).  That it does one of these is where the registry comes in:
  a symbol without characters would be taken again and again.
* A request that only skips blanks is answered in the same way ever after
  (`answer_eq_of_settled`).  These are the requests at the end of the text and at a
  character that begins no name.

So each answer before the one that repeats takes a character of its own, and there
are no more of them than characters (`exists_settled`).
-/

namespace Reckoner

namespace Registry

/-! ## Requests in turn -/

/-- The position after a number of requests. -/
def position (registry : Registry) (source : Text) : (requests : Nat) → Cursor
  | 0 => Cursor.start source
  | requests + 1 => ((registry.position source requests).next registry).2

/-- The answer to a request, of which the first one has the number 0. -/
def answer (registry : Registry) (source : Text) (request : Nat) : Except LexError Lexeme :=
  ((registry.position source request).next registry).1

/-- What is true of the requests for a text. -/
structure Tiles (registry : Registry) (source : Text) : Prop where
  /-- The lexer stands between two characters of the text, or at one of its ends. -/
  within (n : Nat) : (registry.position source n).Within source
  mono (n : Nat) : (registry.position source n).offset ≤ (registry.position source (n + 1)).offset
  /-- A lexeme is not empty, stands behind blanks only, and is taken as a whole.  A name
  in it is the text of its span. -/
  lexeme {n : Nat} {lexeme : Lexeme} (hanswer : registry.answer source n = .ok lexeme)
    (hmore : lexeme.token ≠ .endOfInput) :
    lexeme.span.start < lexeme.span.stop ∧
      (registry.position source (n + 1)).offset = lexeme.span.stop ∧
      ∃ text, (registry.position source n).Meets source lexeme.span text ∧
        ∀ name, lexeme.token = .operator name ∨ lexeme.token = .function name → name = text
  /-- The end of input is yielded if only blanks are left. -/
  ended_iff (n : Nat) :
    (∃ span, registry.answer source n = .ok ⟨.endOfInput, span⟩) ↔
      ∀ c ∈ (registry.position source n).rest, isBlank c = true
  /-- The end of input is empty and stands at the end of the text, now and later. -/
  ended {n : Nat} {span : Span} (hanswer : registry.answer source n = .ok ⟨.endOfInput, span⟩) :
    span = ⟨source.byteLength, source.byteLength⟩ ∧
      ∀ later ≥ n, registry.answer source later = .ok ⟨.endOfInput, span⟩
  /-- The text of an error is not empty and stands behind blanks only. -/
  error {n : Nat} {error : LexError} (hanswer : registry.answer source n = .error error) :
    error.span.start < error.span.stop ∧
      (registry.position source n).Meets source error.span error.text
  /-- A faulty numeral or word is passed over. -/
  passed {n : Nat} {error : LexError} (hanswer : registry.answer source n = .error error)
    (hpasses : error.passes = true) :
    (registry.position source (n + 1)).offset = error.span.stop
  /-- An unknown character is not passed over, so that it is found again. -/
  stuck {n : Nat} {character : Char} {span : Span} {snippet : Snippet}
    (hanswer : registry.answer source n = .error (.unknownCharacter character span snippet)) :
    (registry.position source (n + 1)).offset = span.start ∧
      ∀ later ≥ n,
        registry.answer source later = .error (.unknownCharacter character span snippet)
  /-- One of the first answers is repeated for ever. -/
  settles : ∃ n ≤ source.length,
    ∀ later ≥ n, registry.answer source later = registry.answer source n

variable {registry : Registry} {source : Text} {n : Nat}

theorem next_position :
    (registry.position source n).next registry =
      (registry.answer source n, registry.position source (n + 1)) :=
  rfl

theorem next_position_of_answer {answer : Except LexError Lexeme}
    (hanswer : registry.answer source n = answer) :
    (registry.position source n).next registry = (answer, registry.position source (n + 1)) := by
  rw [next_position, hanswer]

theorem within_position (n : Nat) : (registry.position source n).Within source := by
  induction n with
  | zero => exact Cursor.within_start
  | succ n ih => exact ih.next

theorem offset_position_le (n : Nat) :
    (registry.position source n).offset ≤ (registry.position source (n + 1)).offset := by
  have hskip : (registry.position source n).offset ≤
      (registry.position source n).skipBlanks.offset := Nat.le_add_right _ _
  cases hanswer : registry.answer source n with
  | ok lexeme =>
      obtain ⟨text, _, _, hafter⟩ := Cursor.next_eq_ok_iff.mp (next_position_of_answer hanswer)
      exact hafter ▸ Nat.le_trans hskip (Nat.le_add_right _ _)
  | error error =>
      obtain ⟨_, _, _, hafter⟩ := Cursor.next_eq_error (next_position_of_answer hanswer)
      rw [hafter]
      split
      · exact Nat.le_trans hskip (Nat.le_add_right _ _)
      · exact hskip

/-! ## Requests that only skip blanks -/

/-- A request only skips blanks. -/
def Settled (registry : Registry) (source : Text) (n : Nat) : Prop :=
  registry.position source (n + 1) = (registry.position source n).skipBlanks

theorem answer_eq_of_settled (hsettled : registry.Settled source n) {later : Nat}
    (hlater : n ≤ later) : registry.answer source later = registry.answer source n := by
  -- behind the blanks nothing moves any more
  have hposition : ∀ more, registry.position source (n + 1 + more) =
      (registry.position source n).skipBlanks := by
    intro more
    induction more with
    | zero => exact hsettled
    | succ more ih =>
        calc registry.position source (n + 1 + more + 1)
            = ((registry.position source (n + 1 + more)).next registry).2 := rfl
          _ = ((registry.position source n).next registry).2 := by rw [ih, Cursor.next_skipBlanks]
          _ = (registry.position source n).skipBlanks := hsettled
  rcases Nat.eq_or_lt_of_le hlater with rfl | hlt
  · rfl
  · obtain ⟨more, rfl⟩ := Nat.exists_eq_add_of_le (Nat.succ_le_of_lt hlt)
    unfold answer
    rw [hposition, Cursor.next_skipBlanks]

/-- The end of input stands behind the text, now and later. -/
theorem ended_of_answer {span : Span}
    (hanswer : registry.answer source n = .ok ⟨.endOfInput, span⟩) :
    span = ⟨source.byteLength, source.byteLength⟩ ∧
      ∀ later ≥ n, registry.answer source later = .ok ⟨.endOfInput, span⟩ := by
  obtain ⟨hblank, hspan, hafter⟩ :=
    Cursor.next_eq_ended_iff.mp (next_position_of_answer hanswer)
  have hend : (registry.position source n).skipBlanks.offset = source.byteLength :=
    (within_position n).skipBlanks.offset_of_rest_eq_nil
      (Cursor.rest_skipBlanks_eq_nil_iff.mpr hblank)
  refine ⟨?_, fun later hlater => (answer_eq_of_settled hafter hlater).trans hanswer⟩
  rw [hspan, Cursor.spanOf, hend]
  rfl

/-! ## Progress -/

/-- **Progress.**  A request takes at least one character, or it only skips blanks. -/
theorem position_succ_cases (hreach : registry.Reachable) (source : Text) (n : Nat) :
    registry.Settled source n ∨
      (registry.position source (n + 1)).rest.length <
        (registry.position source n).rest.length := by
  cases hanswer : registry.answer source n with
  | ok lexeme =>
      have hnext := next_position_of_answer hanswer
      by_cases hmore : lexeme.token = .endOfInput
      · obtain ⟨token, span⟩ := lexeme
        obtain rfl : token = .endOfInput := hmore
        exact Or.inl (Cursor.next_eq_ended_iff.mp hnext).2.2
      · exact Or.inr (Cursor.length_rest_lt_of_next hreach hnext hmore)
  | error error =>
      obtain ⟨hbegins, hsome, _, hafter⟩ := Cursor.next_eq_error (next_position_of_answer hanswer)
      split at hafter
      · exact Or.inr (hafter ▸ Cursor.length_rest_advance_lt hsome hbegins)
      · exact Or.inl hafter

/-- From any request on, one only skips blanks before the characters run out. -/
theorem exists_settled (hreach : registry.Reachable) {left : Nat}
    (hleft : (registry.position source n).rest.length ≤ left) :
    ∃ settled ≤ n + left, registry.Settled source settled := by
  induction left generalizing n with
  | zero =>
      rcases position_succ_cases hreach source n with hsettled | hshorter
      · exact ⟨n, Nat.le_refl _, hsettled⟩
      · omega
  | succ left ih =>
      rcases position_succ_cases hreach source n with hsettled | hshorter
      · exact ⟨n, Nat.le_add_right _ _, hsettled⟩
      · obtain ⟨settled, hle, hsettled⟩ := ih (n := n + 1) (by omega)
        exact ⟨settled, by omega, hsettled⟩

/-! ## All requests -/

/-- **Tiling, progress and stuck requests.**  This is true of every text under a
reachable registry. -/
theorem tiles (hreach : registry.Reachable) (source : Text) : registry.Tiles source where
  within := within_position
  mono := offset_position_le
  lexeme := by
    intro n lexeme hanswer hmore
    obtain ⟨text, hscan, hspan, hafter⟩ :=
      Cursor.next_eq_ok_iff.mp (next_position_of_answer hanswer)
    have hmeets : (registry.position source n).Meets source lexeme.span text :=
      hspan ▸ (within_position n).meets hscan.text_isPrefix
    have hstop : (registry.position source (n + 1)).offset = lexeme.span.stop := by
      rw [hafter, hspan]
      rfl
    exact ⟨hmeets.start_lt_stop (hscan.text_ne_nil hreach hmore), hstop, text, hmeets,
      fun name hname => hscan.name_eq_text hname⟩
  ended_iff := by
    intro n
    constructor
    · rintro ⟨span, hanswer⟩
      exact (Cursor.next_eq_ended_iff.mp (next_position_of_answer hanswer)).1
    · intro hblank
      exact ⟨_, congrArg Prod.fst (Cursor.next_eq_ended_iff.mpr ⟨hblank, rfl, rfl⟩)⟩
  ended := ended_of_answer
  error := by
    intro n error hanswer
    obtain ⟨hbegins, hsome, hspan, _⟩ := Cursor.next_eq_error (next_position_of_answer hanswer)
    have hmeets : (registry.position source n).Meets source error.span error.text :=
      hspan ▸ (within_position n).meets hbegins
    exact ⟨hmeets.start_lt_stop hsome, hmeets⟩
  passed := by
    intro n error hanswer hpasses
    obtain ⟨_, _, hspan, hafter⟩ := Cursor.next_eq_error (next_position_of_answer hanswer)
    rw [hpasses, if_pos rfl] at hafter
    rw [hafter, hspan]
    rfl
  stuck := by
    intro n character span snippet hanswer
    obtain ⟨_, _, hspan, hafter⟩ := Cursor.next_eq_error (next_position_of_answer hanswer)
    refine ⟨?_, fun later hlater => (answer_eq_of_settled hafter hlater).trans hanswer⟩
    have hstart : span.start = (registry.position source n).skipBlanks.offset :=
      congrArg Span.start hspan
    rw [hstart, hafter]
    rfl
  settles := by
    have hleft : (registry.position source 0).rest.length ≤ source.length := Nat.le_refl _
    obtain ⟨settled, hle, hsettled⟩ := exists_settled hreach hleft
    exact ⟨settled, by simpa using hle, fun later hlater => answer_eq_of_settled hsettled hlater⟩

/-- A numeral, a word that names nothing and takes two bytes, and a character that
begins no name. -/
theorem tiles_number_sign :
    standard.Tiles "2 é #".toList ∧
      standard.answer "2 é #".toList 1 =
        .error (.unknownWord ['é'] ⟨2, 4⟩ ⟨"2 é #".toList, 2, 4⟩) ∧
      ∀ later ≥ 2, standard.answer "2 é #".toList later =
        .error (.unknownCharacter '#' ⟨5, 6⟩ ⟨"2 é #".toList, 5, 6⟩) := by
  have htiles := tiles reachable_standard "2 é #".toList
  exact ⟨htiles, by decide +kernel, (htiles.stuck (by decide +kernel)).2⟩

end Registry

end Reckoner
