import Reckoner.Proofs.Lexer.Requests
import Reckoner.Proofs.Parser.Nesting
import Reckoner.Proofs.Parser.Spacing

/-!
# One parser, many parses

A parser may be asked for an expression again, whatever became of the parse before.  It
goes on from the lexeme at which it stopped, with the nesting counter and the lexer as they
were left.  `Registry.Reusable` says what can be relied on, over any number of calls.

A parse ends at any of its steps, and an error leaves every loop and every nested call at
once.  Two observations make all these ends alike.

* The parser changes its state by `advance` only.  So a property that `advance` keeps is
  kept by each part, with or without an error (`ParserM.Maintains`).  The one that matters
  is `ParserState.Tracks`: the stream ahead is that of the lexer at its position, and the
  current lexeme is the latest one that the lexer has yielded, errors after it left out.
* The nesting is counted by the watched parser, which returns with as many calls under way
  as it began with.

The stream ahead then depends on the position alone, and the parser makes no use of the
number of requests.  So a parse is determined by the current lexeme and the position
(`ParserState.Tracks.run_eq_resume`).
-/

namespace Reckoner

/-! ## Streams at a position -/

namespace LexemeStream

variable {registry : Registry} {source : Text} {steps n : Nat} {cursor : Cursor}

/-- More steps than characters make no difference. -/
theorem unfold_succ (hreach : registry.Reachable) (hsteps : cursor.rest.length < steps) :
    unfold registry (steps + 1) cursor = unfold registry steps cursor := by
  induction steps generalizing cursor with
  | zero => exact absurd hsteps (Nat.not_lt_zero _)
  | succ steps ih =>
      rcases hnext : cursor.next registry with ⟨error | first, after⟩
      · obtain ⟨hbegins, hsome, _, hafter⟩ := Cursor.next_eq_error hnext
        have hlater (hpasses : error.passes = true) :
            unfold registry (steps + 1) after = unfold registry steps after := by
          rw [if_pos hpasses] at hafter
          have hshorter := Cursor.length_rest_advance_lt hsome hbegins
          rw [← hafter] at hshorter
          exact ih (by omega)
        rw [unfold, hnext, unfold, hnext]
        cases error with
        | unknownCharacter character span snippet => rfl
        | invalidNumber text span snippet => exact congrArg _ (hlater rfl)
        | unknownWord text span snippet => exact congrArg _ (hlater rfl)
      · by_cases hmore : first.token = .endOfInput
        · obtain ⟨token, span⟩ := first
          obtain rfl : token = .endOfInput := hmore
          rw [unfold_of_next_ended hnext, unfold_of_next_ended hnext]
        · have hshorter := Cursor.length_rest_lt_of_next hreach hnext hmore
          rw [unfold_of_next_lexeme hnext hmore, unfold_of_next_lexeme hnext hmore,
            ih (by omega)]

/-- Blanks in front have no part in a stream. -/
theorem unfold_skipBlanks :
    unfold registry (steps + 1) cursor.skipBlanks = unfold registry (steps + 1) cursor := by
  rw [unfold, unfold, Cursor.next_skipBlanks]

/-- The answers of the lexer from its position after a number of requests on. -/
def behind (registry : Registry) (source : Text) (requests : Nat) : LexemeStream :=
  unfold registry (source.length + 1) (registry.position source requests)

/-- A stream goes on as the lexer does, also where an answer repeats. -/
theorem next_behind (hreach : registry.Reachable) :
    (behind registry source n).next =
      (registry.answer source n, behind registry source (n + 1)) := by
  have hlength : (registry.position source n).rest.length ≤ source.length := by
    obtain ⟨_, before, hsource, _⟩ : (registry.position source n).Within source :=
      Registry.within_position n
    calc (registry.position source n).rest.length
        ≤ (before ++ (registry.position source n).rest).length := by simp
      _ = source.length := by rw [← hsource]
  -- where the request takes a character, one step less is still enough
  have hlater (hshorter : (registry.position source (n + 1)).rest.length <
      (registry.position source n).rest.length) :
      unfold registry source.length (registry.position source (n + 1)) =
        behind registry source (n + 1) :=
    (unfold_succ hreach (by omega)).symm
  -- where it only skips blanks, the stream stays
  have hstays (hsettled : registry.Settled source n) :
      behind registry source (n + 1) = behind registry source n := by
    unfold behind
    rw [hsettled, unfold_skipBlanks]
  cases hanswer : registry.answer source n with
  | ok lexeme =>
      have hnext := Registry.next_position_of_answer hanswer
      by_cases hmore : lexeme.token = .endOfInput
      · obtain ⟨token, span⟩ := lexeme
        obtain rfl : token = .endOfInput := hmore
        rw [hstays (Cursor.next_eq_ended_iff.mp hnext).2.2, behind, unfold_of_next_ended hnext]
        rfl
      · rw [behind, unfold_of_next_lexeme hnext hmore,
          hlater (Cursor.length_rest_lt_of_next hreach hnext hmore)]
        rfl
  | error error =>
      have hnext := Registry.next_position_of_answer hanswer
      obtain ⟨hbegins, hsome, _, hafter⟩ := Cursor.next_eq_error hnext
      have hpassed (hpasses : error.passes = true) :
          unfold registry source.length (registry.position source (n + 1)) =
            behind registry source (n + 1) := by
        rw [if_pos hpasses] at hafter
        have hshorter := Cursor.length_rest_advance_lt hsome hbegins
        rw [← hafter] at hshorter
        exact hlater hshorter
      cases error with
      | unknownCharacter character span snippet =>
          rw [hstays hafter, behind, unfold, hnext]
          rfl
      | invalidNumber text span snippet =>
          rw [behind, unfold, hnext, ← hpassed rfl]
          rfl
      | unknownWord text span snippet =>
          rw [behind, unfold, hnext, ← hpassed rfl]
          rfl

end LexemeStream

/-! ## Steps that change the state by advancing only -/

/-- A step keeps a property of the state, whether it succeeds or not. -/
def ParserM.Maintains (invariant : ParserState → Prop) {α : Type} (m : ParserM α) : Prop :=
  ∀ s, invariant s → invariant (m.run s).2

namespace ParserM.Maintains

variable {invariant : ParserState → Prop} {α β : Type} {m : ParserM α} {f : α → ParserM β}

theorem bind (hfirst : m.Maintains invariant) (hnext : ∀ a, (f a).Maintains invariant) :
    (m >>= f).Maintains invariant := by
  intro s hs
  have hmiddle := hfirst s hs
  rw [run_bind]
  rcases hrun : m.run s with ⟨error | a, t⟩
  · rw [hrun] at hmiddle
    exact hmiddle
  · rw [hrun] at hmiddle
    exact hnext a t hmiddle

theorem pure {a : α} : (pure a : ParserM α).Maintains invariant :=
  fun _ hs => hs

theorem snippet_throw {span : Span} {error : Snippet → ParseError} :
    (Parser.snippet span >>= fun snippet => (throw (error snippet) : ParserM α)).Maintains
      invariant :=
  fun _ hs => hs

theorem peek : Parser.peek.Maintains invariant :=
  fun _ hs => hs

theorem roundsLeft : Parser.roundsLeft.Maintains invariant :=
  fun _ hs => hs

theorem reject {expected : Expectation} :
    (Parser.reject expected : ParserM α).Maintains invariant :=
  fun _ hs => hs

theorem wrap {limit height : Nat} {expr : Expr} {span : Span} :
    (Parser.wrap limit expr height span).Maintains invariant := by
  unfold Parser.wrap
  split
  · exact snippet_throw
  · exact pure

end ParserM.Maintains

namespace Parser

open ParserM

variable {registry : Registry} {limit : Nat} {invariant : ParserState → Prop}
  {operand : Int → ParserM Node} (hadvance : advance.Maintains invariant)

include hadvance

theorem maintains_closing (opening : Span) : (closing opening).Maintains invariant := by
  refine Maintains.peek.bind fun current => ?_
  split
  · exact hadvance.bind fun _ => .pure
  · exact .snippet_throw

theorem maintains_postfixChain (rounds : Nat) (node : Node) :
    (postfixChain registry limit rounds node).Maintains invariant := by
  induction rounds generalizing node with
  | zero => exact .pure
  | succ rounds ih =>
      refine Maintains.peek.bind fun current => ?_
      split
      · split
        · exact hadvance.bind fun _ => Maintains.wrap.bind fun wrapped => ih wrapped
        · exact .pure
      · exact .pure

section Operands

variable (hoperand : ∀ minimum, (operand minimum).Maintains invariant)

include hoperand

theorem maintains_arguments (rounds : Nat) (args : List Node) :
    (arguments operand rounds args).Maintains invariant := by
  induction rounds generalizing args with
  | zero => exact .pure
  | succ rounds ih =>
      refine Maintains.peek.bind fun current => ?_
      split
      · exact hadvance.bind fun _ => (hoperand 0).bind fun arg => ih (args ++ [arg])
      · exact .pure

theorem maintains_argumentList : (argumentList operand).Maintains invariant := by
  refine Maintains.peek.bind fun current => ?_
  split
  · exact .pure
  · refine (hoperand 0).bind fun first => Maintains.roundsLeft.bind fun rounds => ?_
    exact maintains_arguments hadvance hoperand rounds [first]

theorem maintains_call (name : Text) :
    (call registry limit operand name).Maintains invariant := by
  refine Maintains.peek.bind fun current => ?_
  split
  · exact .reject
  · refine hadvance.bind fun _ => Maintains.peek.bind fun opening => ?_
    split
    · exact .reject
    · refine hadvance.bind fun _ => ?_
      refine (maintains_argumentList hadvance hoperand).bind fun args => ?_
      refine (maintains_closing hadvance opening.span).bind fun close => ?_
      split
      · exact .snippet_throw
      · exact .wrap

theorem maintains_atom : (atom registry limit operand).Maintains invariant := by
  refine Maintains.peek.bind fun current => ?_
  split
  · exact hadvance.bind fun _ => .pure
  · refine hadvance.bind fun _ => (hoperand 0).bind fun inner => ?_
    exact (maintains_closing hadvance current.span).bind fun _ => .pure
  · split
    · exact .reject
    · exact hadvance.bind fun _ => (hoperand _).bind fun inner => .wrap
  · next name _ => exact maintains_call hadvance hoperand name
  · exact .reject

theorem maintains_primary : (primary registry limit operand).Maintains invariant := by
  refine (maintains_atom hadvance hoperand).bind fun node => ?_
  exact Maintains.roundsLeft.bind fun rounds => maintains_postfixChain hadvance rounds node

theorem maintains_binaryChain (minimum : Int) (rounds : Nat) (left : Node) :
    (binaryChain registry limit operand minimum rounds left).Maintains invariant := by
  induction rounds generalizing left with
  | zero => exact .pure
  | succ rounds ih =>
      refine Maintains.peek.bind fun current => ?_
      split
      · split
        · exact .pure
        · split
          · exact .pure
          · refine hadvance.bind fun _ => (hoperand _).bind fun right => ?_
            exact Maintains.wrap.bind fun joined => ih joined
      · exact .pure

end Operands

theorem maintains_expression (budget : Nat) (minimum : Int) :
    (expression registry limit budget minimum).Maintains invariant := by
  induction budget generalizing minimum with
  | zero => exact Maintains.peek.bind fun current => .snippet_throw
  | succ budget ih =>
      refine (maintains_primary hadvance ih).bind fun left => ?_
      refine Maintains.roundsLeft.bind fun rounds => ?_
      exact maintains_binaryChain hadvance ih minimum rounds left

/-- What `advance` keeps, a parse keeps, at whatever step it ends. -/
theorem maintains_parse : (parse registry limit).Maintains invariant := by
  refine (maintains_expression hadvance limit 0).bind fun node => ?_
  refine Maintains.peek.bind fun current => ?_
  split
  · exact .pure
  · exact .snippet_throw

end Parser

/-! ## What a parser knows of its text -/

/-- The parser knows the text.  The stream ahead is that of the lexer at its position, and the
current lexeme is the latest that the lexer has yielded: all answers after it were errors. -/
structure ParserState.Tracks (registry : Registry) (source : Text) (s : ParserState) : Prop where
  source_eq : s.source = source
  upcoming : s.upcoming = LexemeStream.behind registry source s.drawn
  current : ∃ request < s.drawn, registry.answer source request = .ok s.current ∧
    ∀ failed, request < failed → failed < s.drawn →
      ∃ error, registry.answer source failed = .error error

/-- The number of bytes before the position of the lexer. -/
def ParserState.offset (registry : Registry) (source : Text) (s : ParserState) : Nat :=
  (registry.position source s.drawn).offset

section Tracks

variable {registry : Registry} {source : Text} {s : ParserState}

theorem ParserState.tracks_of_start (hreach : registry.Reachable)
    (hstart : ParserState.start registry source = .ok s) : s.Tracks registry source := by
  have hstream : LexemeStream.ofText registry source = LexemeStream.behind registry source 0 := rfl
  unfold start at hstart
  rw [hstream, LexemeStream.next_behind hreach] at hstart
  cases hanswer : registry.answer source 0 with
  | error error =>
      rw [hanswer] at hstart
      cases hstart
  | ok first =>
      rw [hanswer] at hstart
      obtain rfl := Except.ok.inj hstart
      refine ⟨rfl, rfl, 0, Nat.one_pos, hanswer, fun failed hafter hbefore => ?_⟩
      exact absurd hbefore (Nat.not_lt.mpr hafter)

/-- An advance that fails leaves the current lexeme. -/
theorem Parser.current_of_advance_error {error : ParseError} {t : ParserState}
    (hadvance : Parser.advance.run s = (.error error, t)) : t.current = s.current := by
  rw [ParserM.run_advance] at hadvance
  split at hadvance
  · cases hadvance
  · cases hadvance
    rfl

theorem ParserState.maintains_tracks (hreach : registry.Reachable) :
    Parser.advance.Maintains (ParserState.Tracks registry source) := by
  intro s htracks
  obtain ⟨request, hlt, hcurrent, hfailed⟩ := htracks.current
  rw [ParserM.run_advance, htracks.upcoming, LexemeStream.next_behind hreach]
  cases hanswer : registry.answer source s.drawn with
  | ok first =>
      refine ⟨htracks.source_eq, rfl, s.drawn, Nat.lt_succ_self _, hanswer,
        fun failed hafter hbefore => ?_⟩
      exact absurd hbefore (Nat.not_lt.mpr hafter)
  | error fault =>
      refine ⟨htracks.source_eq, rfl, request, Nat.lt_succ_of_lt hlt, hcurrent,
        fun failed hafter hbefore => ?_⟩
      by_cases hlatest : failed = s.drawn
      · exact ⟨fault, hlatest ▸ hanswer⟩
      · exact hfailed failed hafter (Nat.lt_of_le_of_ne (Nat.le_of_lt_succ hbefore) hlatest)

/-- The lexer does not go back. -/
theorem ParserState.maintains_offset {bytes : Nat} :
    Parser.advance.Maintains (bytes ≤ ·.offset registry source) := by
  intro s hle
  have hforward : bytes ≤ (registry.position source (s.drawn + 1)).offset :=
    Nat.le_trans hle (Registry.offset_position_mono (Nat.le_succ s.drawn))
  rw [ParserM.run_advance]
  rcases s.upcoming.next with ⟨fault | first, later⟩
  · exact hforward
  · exact hforward

end Tracks

/-! ## What a parse depends on -/

/-- The text behind so many bytes. -/
def Text.dropBytes : (text : Text) → (bytes : Nat) → Text
  | text, 0 => text
  | [], _ + 1 => []
  | c :: text, bytes + 1 => dropBytes text (bytes + 1 - c.utf8Size)

/-- The result of a parse that begins with a current lexeme and a position of the lexer. -/
def Registry.resume (registry : Registry) (limit : Nat) (source : Text) (current : Lexeme)
    (offset : Nat) : Except ParseError Expr :=
  let cursor : Cursor := ⟨source, offset, source.dropBytes offset⟩
  let upcoming := LexemeStream.unfold registry (source.length + 1) cursor
  ((Parser.parse registry limit).run ⟨source, current, upcoming, 0⟩).1

theorem Text.dropBytes_append (before after : Text) :
    dropBytes (before ++ after) (byteLength before) = after := by
  induction before with
  | nil => rw [List.nil_append, byteLength_nil, dropBytes]
  | cons c before ih =>
      obtain ⟨bytes, hbytes⟩ := Nat.exists_eq_add_one_of_ne_zero (Nat.ne_of_gt c.utf8Size_pos)
      have hsum : byteLength (c :: before) = bytes + byteLength before + 1 := by
        rw [byteLength_cons, hbytes]
        omega
      have hrest : bytes + byteLength before + 1 - c.utf8Size = byteLength before := by
        rw [hbytes]
        omega
      rw [List.cons_append, hsum, dropBytes, hrest, ih]

/-- A position of a text is determined by its offset. -/
theorem Cursor.Within.eq_dropBytes {source : Text} {cursor : Cursor}
    (hwithin : cursor.Within source) :
    cursor = ⟨source, cursor.offset, source.dropBytes cursor.offset⟩ := by
  obtain ⟨hwhole, before, hsource, hoffset⟩ := hwithin
  have hrest : source.dropBytes cursor.offset = cursor.rest := by
    rw [hoffset, hsource, Text.dropBytes_append]
  rw [hrest, ← hwhole]

/-- The parser makes no use of the number of requests. -/
theorem Parser.run_parse_drawn (registry : Registry) (limit : Nat) (source : Text)
    (current : Lexeme) (upcoming : LexemeStream) (drawn drawn' : Nat) :
    ((Parser.parse registry limit).run ⟨source, current, upcoming, drawn⟩).1 =
      ((Parser.parse registry limit).run ⟨source, current, upcoming, drawn'⟩).1 := by
  have hlikens : registry.Likens Eq Eq Eq registry :=
    .refl (fun hstart hstop => hstart ▸ hstop ▸ rfl) registry
  have hstates : ParserState.Alike Eq Eq source source ⟨source, current, upcoming, drawn⟩
      ⟨source, current, upcoming, drawn'⟩ :=
    ⟨rfl, rfl, ⟨.refl (fun _ => rfl) _, rfl⟩, .refl (fun _ => rfl) (fun _ => rfl) _⟩
  have hinStep : ParserM.InStep Eq Eq source source (Expr.Alike Eq)
      (Parser.parse registry limit) (Parser.parse registry limit) := Parser.inStep_parse hlikens
  have hends := hinStep _ _ hstates
  generalize (Parser.parse registry limit).run ⟨source, current, upcoming, drawn⟩ = run
    at hends ⊢
  generalize (Parser.parse registry limit).run ⟨source, current, upcoming, drawn'⟩ = run'
    at hends ⊢
  cases hends with
  | ok hvalue _ => rw [Expr.Alike.eq hvalue]
  | error herror => rw [ParseError.Alike.eq herror]

/-- A parse is determined by the current lexeme and the position of the lexer. -/
theorem ParserState.Tracks.run_eq_resume {registry : Registry} {source : Text} {s : ParserState}
    (htracks : s.Tracks registry source) (limit : Nat) :
    ((Parser.parse registry limit).run s).1 =
      registry.resume limit source s.current (s.offset registry source) := by
  obtain ⟨whole, current, upcoming, drawn⟩ := s
  obtain rfl : whole = source := htracks.source_eq
  obtain rfl : upcoming = LexemeStream.behind registry whole drawn := htracks.upcoming
  have hwithin : (registry.position whole drawn).Within whole := Registry.within_position drawn
  calc ((Parser.parse registry limit).run
          ⟨whole, current, LexemeStream.behind registry whole drawn, drawn⟩).1
      = ((Parser.parse registry limit).run
          ⟨whole, current, LexemeStream.behind registry whole drawn, 0⟩).1 :=
        Parser.run_parse_drawn ..
    _ = registry.resume limit whole current (registry.position whole drawn).offset := by
        unfold Registry.resume LexemeStream.behind
        rw [← hwithin.eq_dropBytes]

/-- At the end of input there is no operand, and the parser stays there. -/
theorem Parser.run_parse_of_ended {registry : Registry} {limit : Nat} {s : ParserState}
    (hlimit : 0 < limit) (hended : s.current.token = .endOfInput) :
    (Parser.parse registry limit).run s =
      (.error (.unexpected .endOfInput .operand s.current.span ⟨s.source, s.current.span⟩), s) := by
  obtain ⟨budget, rfl⟩ := Nat.exists_eq_add_one_of_ne_zero (Nat.ne_of_gt hlimit)
  obtain ⟨source, ⟨token, span⟩, upcoming, drawn⟩ := s
  obtain rfl : token = .endOfInput := hended
  rfl

/-- With a limit of zero there is no expression. -/
theorem Parser.limit_pos_of_run {registry : Registry} {limit : Nat} {s t : ParserState} {e : Expr}
    (hrun : (Parser.parse registry limit).run s = (.ok e, t)) : 0 < limit := by
  obtain ⟨height, hnode, _⟩ := Parser.run_parse_eq_ok.mp hrun
  cases limit with
  | zero => exact absurd hnode run_expression_zero_ne_ok
  | succ limit => exact Nat.succ_pos limit

/-! ## One parse after the other -/

namespace Registry

/-- A parser after a number of parses, whatever they gave, and what has been seen of it. -/
def reused (registry : Registry) (limit : Nat) (start : ParserState) :
    (parses : Nat) → ParserState × Watch
  | 0 => (start, .start)
  | parses + 1 =>
    let (s, watch) := registry.reused limit start parses
    ((Watched.parse registry limit).run s watch).2

/-- The result of a parse, of which the first one has the number 0. -/
def reply (registry : Registry) (limit : Nat) (start : ParserState) (parse : Nat) :
    Except ParseError Expr :=
  let (s, watch) := registry.reused limit start parse
  ((Watched.parse registry limit).run s watch).1

/-- What can be relied on when a parser is asked again and again. -/
structure Reusable (registry : Registry) (limit : Nat) (source : Text) (start : ParserState) :
    Prop where
  /-- No call is under way between two parses. -/
  nesting (n : Nat) : (registry.reused limit start n).2.nesting = 0
  /-- Each parse is one with the whole limit to spend. -/
  parse (n : Nat) :
    (Parser.parse registry limit).run (registry.reused limit start n).1 =
      (registry.reply limit start n, (registry.reused limit start (n + 1)).1)
  /-- What is left by a parse belongs together. -/
  tracks (n : Nat) : (registry.reused limit start n).1.Tracks registry source
  /-- The lexer never goes back. -/
  position_mono (n : Nat) :
    (registry.reused limit start n).1.offset registry source ≤
      (registry.reused limit start (n + 1)).1.offset registry source
  /-- Nor does it at any advance within a parse. -/
  advance_mono {s t : ParserState} {result : Except ParseError Unit}
    (hadvance : Parser.advance.run s = (result, t)) :
    s.offset registry source ≤ t.offset registry source
  /-- An advance that fails leaves the current lexeme. -/
  advance_failed {s t : ParserState} {error : ParseError}
    (hadvance : Parser.advance.run s = (.error error, t)) : t.current = s.current
  /-- The current lexeme and the position of the lexer are all that a parse depends on. -/
  resume (n : Nat) :
    registry.reply limit start n =
      registry.resume limit source (registry.reused limit start n).1.current
        ((registry.reused limit start n).1.offset registry source)
  /-- Behind an expression there is only the end of the input. -/
  ended {n later : Nat} {e : Expr} (hreply : registry.reply limit start n = .ok e)
    (hlater : n < later) :
    registry.reply limit start later =
      .error (.unexpected .endOfInput .operand ⟨source.byteLength, source.byteLength⟩
        ⟨source, ⟨source.byteLength, source.byteLength⟩⟩)

section Reused

variable {registry : Registry} {limit : Nat} {source : Text} {start : ParserState}

/-- Between two parses no call is under way, and no count was ever above the limit. -/
theorem idle_reused (registry : Registry) (limit : Nat) (start : ParserState) (n : Nat) :
    (registry.reused limit start n).2.nesting = 0 ∧
      (registry.reused limit start n).2.InOrder limit := by
  induction n with
  | zero => exact ⟨rfl, .start⟩
  | succ n ih =>
      obtain ⟨hnesting, horder⟩ := ih
      have hfollows : WatchM.Follows limit 0 [] (Watched.parse registry limit)
          (Parser.parse registry limit) _ := Parser.follows_parse
      obtain ⟨seen, hrun, hseen, hseenOrder, _⟩ :=
        hfollows (s := (registry.reused limit start n).1) hnesting horder (List.nil_subset _)
      simp only [reused, hrun]
      exact ⟨hseen, hseenOrder⟩

/-- The watch changes no result and no state. -/
theorem run_reused (registry : Registry) (limit : Nat) (start : ParserState) (n : Nat) :
    (Parser.parse registry limit).run (registry.reused limit start n).1 =
      (registry.reply limit start n, (registry.reused limit start (n + 1)).1) := by
  obtain ⟨hnesting, horder⟩ := idle_reused registry limit start n
  have hfollows : WatchM.Follows limit 0 [] (Watched.parse registry limit)
      (Parser.parse registry limit) _ := Parser.follows_parse
  obtain ⟨seen, hrun, _⟩ :=
    hfollows (s := (registry.reused limit start n).1) hnesting horder (List.nil_subset _)
  simp only [reply, reused, hrun]

/-- What `advance` keeps holds between any two parses. -/
theorem reused_of_maintains {invariant : ParserState → Prop}
    (hadvance : Parser.advance.Maintains invariant) {n : Nat}
    (hbefore : invariant (registry.reused limit start n).1) {later : Nat} (hlater : n ≤ later) :
    invariant (registry.reused limit start later).1 := by
  induction hlater with
  | refl => exact hbefore
  | @step later _ ih =>
      have hparse : (Parser.parse registry limit).Maintains invariant :=
        Parser.maintains_parse hadvance
      have hafter := hparse _ ih
      rwa [run_reused] at hafter

theorem tracks_reused (hreach : registry.Reachable)
    (hstart : ParserState.start registry source = .ok start) (limit n : Nat) :
    (registry.reused limit start n).1.Tracks registry source :=
  reused_of_maintains (ParserState.maintains_tracks hreach)
    (ParserState.tracks_of_start hreach hstart) (Nat.zero_le n)

/-- A parser at the end of input is there for ever. -/
theorem reused_of_ended (hlimit : 0 < limit) {n : Nat}
    (hended : (registry.reused limit start n).1.current.token = .endOfInput) {later : Nat}
    (hlater : n ≤ later) :
    (registry.reused limit start later).1 = (registry.reused limit start n).1 := by
  induction hlater with
  | refl => rfl
  | @step later _ ih =>
      have hparse := run_reused registry limit start later
      rw [ih, Parser.run_parse_of_ended hlimit hended] at hparse
      exact (congrArg Prod.snd hparse).symm

theorem reply_of_ended (hlimit : 0 < limit) {n : Nat}
    (hended : (registry.reused limit start n).1.current.token = .endOfInput) {later : Nat}
    (hlater : n ≤ later) :
    registry.reply limit start later =
      .error (.unexpected .endOfInput .operand (registry.reused limit start n).1.current.span
        ⟨(registry.reused limit start n).1.source,
          (registry.reused limit start n).1.current.span⟩) := by
  have hparse := run_reused registry limit start later
  rw [reused_of_ended hlimit hended hlater, Parser.run_parse_of_ended hlimit hended] at hparse
  exact (congrArg Prod.fst hparse).symm

/-- **A parser can be used again**, under every reachable registry, for every text and every
limit, after whatever the parses before have given. -/
theorem reusable (hreach : registry.Reachable)
    (hstart : ParserState.start registry source = .ok start) (limit : Nat) :
    registry.Reusable limit source start where
  nesting n := (idle_reused registry limit start n).1
  parse n := run_reused registry limit start n
  tracks n := tracks_reused hreach hstart limit n
  position_mono n :=
    reused_of_maintains ParserState.maintains_offset (Nat.le_refl _) (Nat.le_succ n)
  advance_mono := by
    intro s t result hadvance
    have hforward := ParserState.maintains_offset s (Nat.le_refl (s.offset registry source))
    rwa [hadvance] at hforward
  advance_failed := Parser.current_of_advance_error
  resume n := by
    have hresume := (tracks_reused hreach hstart limit n).run_eq_resume limit
    rwa [run_reused] at hresume
  ended := by
    intro n later e hreply hlater
    have hparse := run_reused registry limit start n
    rw [hreply] at hparse
    obtain ⟨_, _, hended⟩ := Parser.run_parse_eq_ok.mp hparse
    -- the lexer yields the end of input behind the text only
    have hspan : (registry.reused limit start (n + 1)).1.current.span =
        ⟨source.byteLength, source.byteLength⟩ := by
      obtain ⟨request, _, hanswer, _⟩ := (tracks_reused hreach hstart limit (n + 1)).current
      generalize (registry.reused limit start (n + 1)).1.current = current at hanswer hended
      obtain ⟨token, span⟩ := current
      obtain rfl : token = .endOfInput := hended
      exact (ended_of_answer hanswer).1
    have hsource := (tracks_reused hreach hstart limit (n + 1)).source_eq
    rw [reply_of_ended (Parser.limit_pos_of_run hparse) hended hlater, hspan, hsource]

end Reused

/-- A parse that stops in front of a second operand, one that reads on from there, and one at
the end. -/
theorem reusable_second_operand :
    ∃ start, ParserState.start standard "2 3 + 4".toList = .ok start ∧
      standard.Reusable 2 "2 3 + 4".toList start ∧
      standard.reply 2 start 0 = .error (.trailing (.number (.ofInt 3)) ⟨2, 3⟩
        ⟨"2 3 + 4".toList, ⟨2, 3⟩⟩) ∧
      standard.reply 2 start 1 =
        .ok (.binary (.number (.ofInt 3)) "+".toList (.number (.ofInt 4))) ∧
      standard.reply 2 start 2 = .error (.unexpected .endOfInput .operand ⟨7, 7⟩
        ⟨"2 3 + 4".toList, ⟨7, 7⟩⟩) := by
  have hstart : ParserState.start standard "2 3 + 4".toList =
      .ok ⟨"2 3 + 4".toList, ⟨.number (.ofInt 2), ⟨0, 1⟩⟩,
        .behind standard "2 3 + 4".toList 1, 1⟩ := by
    decide +kernel
  have hreusable := reusable reachable_standard hstart 2
  have hreply : standard.reply 2 ⟨"2 3 + 4".toList, ⟨.number (.ofInt 2), ⟨0, 1⟩⟩,
      .behind standard "2 3 + 4".toList 1, 1⟩ 1 =
        .ok (.binary (.number (.ofInt 3)) "+".toList (.number (.ofInt 4))) := by
    decide +kernel
  exact ⟨_, hstart, hreusable, by decide +kernel, hreply, hreusable.ended hreply (by decide)⟩

end Registry

end Reckoner
