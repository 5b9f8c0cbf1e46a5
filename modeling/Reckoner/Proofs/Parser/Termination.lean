import Reckoner.Expr.Equality
import Reckoner.Proofs.Parser.Execution
import Reckoner.Proofs.Parser.Pacing

/-!
# Termination

The unbounded parser comes to an end on every text, with the result of the parser
(`Registry.parseUnbounded_ends`).

Its loops are compared with those of the parser, whose rounds are one more than the lexemes to come:
each round takes a token, and where none is left the loop stops by itself.  Its calls are compared
by induction on the tokens ahead, since each nested call stands behind a token that was taken for
it.  So the limit of nesting has no part in the argument, and the requests are no more than the
tokens.  That tokens run out at all is the progress of the lexer: no name of an operator is empty.
-/

namespace Reckoner

/-! ## The parts of the parser -/

namespace Unbounded

open UnboundedM

variable {parser : Unbounded} {nesting bound : Nat} {operand : Int → ParserM Node}
  {s : ParserState} {w : UnboundedState}

/-- Where fewer tokens than a bound are ahead, a function for operands is followed by the calls
under so many others. -/
def OperandFollows (parser : Unbounded) (nesting bound : Nat)
    (operand : Int → ParserM Node) : Prop :=
  ∀ ⦃minimum : Int⦄ ⦃s : ParserState⦄ ⦃w : UnboundedState⦄, s.Mirrors parser.registry w →
    s.pending < bound → Follows parser.registry Continues (operand minimum)
      (parser.expression nesting minimum) s w

section Parts

variable (hreach : parser.registry.Reachable)

include hreach

theorem follows_closing (hmirrors : s.Mirrors parser.registry w) (opening : Span) :
    Follows parser.registry Paced (Parser.closing opening) (closing parser.registry opening)
      s w := by
  refine .peek_bind hmirrors (.ite (fun htoken => ?_) fun _ => .snippet_throw hmirrors)
  refine (Follows.advance_bind hreach hmirrors (by simp [htoken]) fun t x ht _ => ?_).paced
  exact (Follows.pure ht).continues

/-- The rounds of the parser last until the loop stops by itself. -/
theorem follows_postfixChain (rounds : Nat) {node : Node} (hmirrors : s.Mirrors parser.registry w)
    (hrounds : s.pending ≤ rounds) :
    Follows parser.registry Paced (Parser.postfixChain parser.registry parser.limit rounds node)
      (parser.postfixChain node) s w := by
  induction rounds generalizing node s w with
  | zero =>
    rw [postfixChain]
    exact .peek_ended hmirrors hrounds fun htoken => by rw [htoken]
  | succ rounds ih =>
    rw [postfixChain]
    refine .peek_bind hmirrors ?_
    cases htoken : s.current.token with
    | operator name =>
      refine .ite (fun _ => ?_) fun _ => .pure hmirrors
      refine .round hmirrors fun w' hw => ?_
      refine .advance_bind hreach hw (by simp [htoken]) fun t x ht hpending => ?_
      refine ((Follows.wrap ht).andThen fun wrapped u y hu _ => ?_).continues
      exact ih hu (by omega)
    | _ => exact .pure hmirrors

variable (hoperand : parser.OperandFollows nesting bound operand)

include hoperand

theorem follows_binaryChain (minimum : Int) (rounds : Nat) {left : Node}
    (hmirrors : s.Mirrors parser.registry w) (hbound : s.pending ≤ bound)
    (hrounds : s.pending ≤ rounds) :
    Follows parser.registry Paced
      (Parser.binaryChain parser.registry parser.limit operand minimum rounds left)
      (parser.binaryChain nesting minimum left) s w := by
  induction rounds generalizing left s w with
  | zero =>
    rw [binaryChain]
    exact .peek_ended hmirrors hrounds fun htoken => by rw [htoken]
  | succ rounds ih =>
    rw [binaryChain]
    refine .peek_bind hmirrors ?_
    cases htoken : s.current.token with
    | operator name =>
      dsimp only
      cases parser.registry.findBinary? name with
      | none => exact .pure hmirrors
      | some operator =>
        refine .ite (fun _ => .pure hmirrors) fun _ => .round hmirrors fun w' hw => ?_
        refine .advance_bind hreach hw (by simp [htoken]) fun t x ht hpending => ?_
        refine (hoperand ht (by omega)).goOn fun right u y hu _ => ?_
        refine (Follows.wrap hu).andThen fun joined v z hv _ => ?_
        exact ih hv (by omega) (by omega)
    | _ => exact .pure hmirrors

theorem follows_arguments (rounds : Nat) {args : List Node} (hmirrors : s.Mirrors parser.registry w)
    (hbound : s.pending ≤ bound) (hrounds : s.pending ≤ rounds) :
    Follows parser.registry Paced (Parser.arguments operand rounds args)
      (parser.arguments nesting args) s w := by
  induction rounds generalizing args s w with
  | zero =>
    rw [arguments]
    exact .peek_ended hmirrors hrounds fun htoken => by simp [htoken]
  | succ rounds ih =>
    rw [arguments]
    refine .peek_bind hmirrors (.ite (fun htoken => ?_) fun _ => .pure hmirrors)
    refine .round hmirrors fun w' hw => ?_
    refine .advance_bind hreach hw (by simp [htoken]) fun t x ht hpending => ?_
    refine (hoperand ht (by omega)).goOn fun arg u y hu _ => ?_
    exact ih hu (by omega) (by omega)

theorem follows_argumentList (hmirrors : s.Mirrors parser.registry w)
    (hbound : s.pending < bound) :
    Follows parser.registry Continues (Parser.argumentList operand) (parser.argumentList nesting)
      s w := by
  rw [argumentList]
  refine .peek_bind hmirrors (.ite (fun _ => (Follows.pure hmirrors).continues) fun _ => ?_)
  refine (hoperand hmirrors hbound).goOn fun first t x ht _ => .roundsLeft_bind ?_
  exact follows_arguments hreach hoperand _ ht (by omega) t.pending_le

theorem follows_call (name : Text) (hmirrors : s.Mirrors parser.registry w)
    (hbound : s.pending ≤ bound) (htoken : s.current.token = .function name) :
    Follows parser.registry Paced (Parser.call parser.registry parser.limit operand name)
      (parser.call nesting name) s w := by
  rw [call]
  refine .peek_bind hmirrors ?_
  cases parser.registry.findFunction? name with
  | none => exact .reject hmirrors
  | some f =>
    refine (Follows.advance_bind hreach hmirrors (by simp [htoken]) fun t x ht hpending => ?_).paced
    refine .peek_bind ht (.ite (fun _ => (Follows.reject ht).continues) fun hopening => ?_)
    have hmore : t.current.token ≠ .endOfInput := by simp [Decidable.not_not.mp hopening]
    refine (Follows.advance_bind hreach ht hmore fun u y hu hpending' => ?_).paced.continues
    refine (follows_argumentList hreach hoperand hu (by omega)).goOn fun args v z hv _ => ?_
    refine (follows_closing hreach hv _).andThen fun close v' z' hv' _ => ?_
    exact .ite (fun _ => .snippet_throw hv') fun _ => .wrap hv'

theorem follows_atom (hmirrors : s.Mirrors parser.registry w) (hbound : s.pending ≤ bound) :
    Follows parser.registry Paced (Parser.atom parser.registry parser.limit operand)
      (parser.atom nesting) s w := by
  rw [atom]
  refine .peek_bind hmirrors ?_
  cases htoken : s.current.token with
  | number value =>
    refine (Follows.advance_bind hreach hmirrors (by simp [htoken]) fun t x ht _ => ?_).paced
    exact (Follows.pure ht).continues
  | leftParen =>
    refine (Follows.advance_bind hreach hmirrors (by simp [htoken]) fun t x ht hpending => ?_).paced
    refine (hoperand ht (by omega)).goOn fun inner u y hu _ => ?_
    exact (follows_closing hreach hu _).andThen fun _ v z hv _ => .pure hv
  | operator name =>
    dsimp only
    cases parser.registry.findUnary? .prefixed name with
    | none => exact .reject hmirrors
    | some operator =>
      refine (Follows.advance_bind hreach hmirrors (by simp [htoken])
        fun t x ht hpending => ?_).paced
      exact (hoperand ht (by omega)).goOn fun inner u y hu _ => .wrap hu
  | function name => exact follows_call hreach hoperand name hmirrors hbound htoken
  | _ => exact .reject hmirrors

theorem follows_primary (hmirrors : s.Mirrors parser.registry w) (hbound : s.pending ≤ bound) :
    Follows parser.registry Paced (Parser.primary parser.registry parser.limit operand)
      (parser.primary nesting) s w := by
  rw [primary]
  refine (follows_atom hreach hoperand hmirrors hbound).andThen fun node t x ht _ => ?_
  exact .roundsLeft_bind (follows_postfixChain hreach _ ht t.pending_le)

omit hoperand in
/-- **Every call of `expression` comes to an end.**  The tokens ahead decide, and not the limit of
nesting: each call inside stands behind a token more. -/
theorem operandFollows_expression {budget : Nat} (hlimit : nesting + budget = parser.limit) :
    parser.OperandFollows nesting bound
      (Parser.expression parser.registry parser.limit budget) := by
  induction bound generalizing nesting budget with
  | zero => exact fun _ _ _ _ hpending => absurd hpending (Nat.not_lt_zero _)
  | succ bound ih =>
    intro minimum s w hmirrors hpending
    rw [expression]
    refine .call hmirrors fun w' hw => ?_
    cases budget with
    | zero =>
      rw [if_pos (by omega)]
      exact .peek_bind hw (.snippet_throw hw)
    | succ budget =>
      rw [if_neg (by omega)]
      have hoperand : parser.OperandFollows (nesting + 1) bound
          (Parser.expression parser.registry parser.limit budget) := ih (by omega)
      have hbound : s.pending ≤ bound := Nat.le_of_lt_succ hpending
      refine (follows_primary hreach hoperand hw hbound).andThen fun left t x ht hle => ?_
      exact .roundsLeft_bind
        (follows_binaryChain hreach hoperand minimum _ ht (by omega) t.pending_le)

omit hoperand in
theorem follows_parse (hmirrors : s.Mirrors parser.registry w) :
    Follows parser.registry Continues (Parser.parse parser.registry parser.limit) parser.parse
      s w := by
  have hoperand : parser.OperandFollows 0 (s.pending + 1)
      (Parser.expression parser.registry parser.limit parser.limit) :=
    operandFollows_expression hreach (Nat.zero_add _)
  refine (hoperand hmirrors (Nat.lt_succ_self _)).goOn fun node t x ht _ => ?_
  exact .peek_bind ht (.ite (fun _ => .pure ht) fun _ => .snippet_throw ht)

end Parts

end Unbounded

/-! ## Whole texts -/

namespace Registry

variable {registry : Registry} {source : Text}

theorem start_of_next_error (hreach : registry.Reachable) {error : LexError} {after : Cursor}
    (hnext : (Cursor.start source).next registry = (.error error, after)) :
    ParserState.start registry source = .error (.lexical error) := by
  have hsame := (LexemeStream.next_unfold hreach (Nat.lt_succ_self _) hnext).1
  rcases hstream : (LexemeStream.ofText registry source).next with ⟨answer, later⟩
  obtain rfl : answer = .error error := (congrArg Prod.fst hstream).symm.trans hsame
  rw [ParserState.start, hstream]

/-- Both parsers begin at the same place. -/
theorem start_of_next_ok (hreach : registry.Reachable) {lexeme : Lexeme} {after : Cursor}
    (hnext : (Cursor.start source).next registry = (.ok lexeme, after)) (log : List Event) :
    ∃ s, ParserState.start registry source = .ok s ∧ s.drawn = 1 ∧
      s.Mirrors registry ⟨lexeme, after, log⟩ := by
  obtain ⟨hsame, hlater⟩ := LexemeStream.next_unfold hreach (Nat.lt_succ_self _) hnext
  rcases hstream : (LexemeStream.ofText registry source).next with ⟨answer, later⟩
  obtain rfl : answer = .ok lexeme := (congrArg Prod.fst hstream).symm.trans hsame
  have hsource : after.source = source := by
    rw [← congrArg (fun result => result.2.source) hnext, Cursor.source_next]
    rfl
  refine ⟨⟨source, lexeme, later, 1⟩, by rw [ParserState.start, hstream], rfl, hsource, rfl,
    fun hmore => ?_⟩
  obtain ⟨fewer, hfewer, hupcoming⟩ := hlater lexeme rfl hmore
  exact ⟨fewer, hfewer, (congrArg Prod.snd hstream).symm.trans hupcoming⟩

/-- The two parsers side by side on a whole text, from the first request on. -/
theorem exists_log (hreach : registry.Reachable) (limit : Nat) (source : Text) :
    ∃ log, registry.parseUnbounded limit source = some (registry.parse limit source, log) ∧
      Paced log ∧ (∀ n, registry.YieldsFirst source n → Event.requests log ≤ n + 1) ∧
      ∀ s, ParserState.start registry source = .ok s →
        ((Parser.parse registry limit).run s).2.drawn = Event.requests log := by
  rcases hanswer : (Cursor.start source).next registry with ⟨error | lexeme, after⟩
  · have hstart := start_of_next_error hreach hanswer
    have hparse : registry.parse limit source = .error (.lexical error) := by
      rw [Registry.parse, hstart]
    refine ⟨[.request none false], ?_, .request (by simp) .done, by simp, by simp [hstart]⟩
    rw [parseUnbounded, hanswer, hparse]
  · obtain ⟨s, hstart, hone, hmirrors⟩ :=
      start_of_next_ok hreach hanswer [.request none true]
    have hfollows : UnboundedM.Follows registry Continues (Parser.parse registry limit)
        (Unbounded.parse ⟨registry, limit⟩) s _ :=
      @Unbounded.follows_parse ⟨registry, limit⟩ _ _ hreach hmirrors
    obtain ⟨x, events, hrun, hlog, hcontinues, hdrawn, hpending⟩ := hfollows.exists_run
    have hparse : registry.parse limit source = ((Parser.parse registry limit).run s).1 := by
      rw [Registry.parse, hstart]
      rfl
    refine ⟨x.log, ?_, ?_, fun n hyields => ?_, fun t ht => ?_⟩
    · unfold UnboundedM.run at hrun
      rw [parseUnbounded, hanswer, hparse]
      simp only [hrun, Option.map_some]
    · rw [hlog]
      exact hcontinues none (by simp)
    · have hahead : s.pending = n := by
        rw [ParserState.pending, ParserState.start_eq_ok hstart,
          countP_tokens_ofText hreach hyields]
      rw [hlog, Event.requests_append]
      simp only [Event.requests_request, Event.requests_nil]
      omega
    · obtain rfl : s = t := Except.ok.inj (hstart.symm.trans ht)
      rw [hdrawn, hone, hlog, Event.requests_append]
      rfl

/-- **Termination.**  Whatever the limit, the unbounded parser comes to an end on every text, with
the result of the parser.  Each round of a loop begins with a request to the lexer, each call of
`expression` stands directly behind one that was answered, and none is made at the end of input.
There is at most one request more than there are lexemes before the first end of input or error, and
the parser makes as many. -/
theorem parseUnbounded_ends (hreach : registry.Reachable) (limit : Nat) (source : Text) :
    ∃ log, registry.parseUnbounded limit source = some (registry.parse limit source, log) ∧
      Paced log ∧ (∃ n ≤ source.length, registry.YieldsFirst source n) ∧
      (∀ n, registry.YieldsFirst source n →
        Event.requests log ≤ n + 1 ∧ log.length ≤ 3 * (n + 1)) ∧
      ∀ s, ParserState.start registry source = .ok s →
        ((Parser.parse registry limit).run s).2.drawn = Event.requests log := by
  obtain ⟨log, hrun, hpaced, hrequests, hdrawn⟩ := exists_log hreach limit source
  refine ⟨log, hrun, hpaced, exists_yieldsFirst hreach source, fun n hyields => ?_, hdrawn⟩
  have hlength := hpaced.length_le
  have hle := hrequests n hyields
  exact ⟨hle, by omega⟩

/-- Seven lexemes stand before the character that is unknown, and the limit is far away. -/
theorem parseUnbounded_ends_unknown :
    ∃ log, standard.parseUnbounded 18446744073709551615 "-(2 ^ 3)! #".toList =
        some (.error (.lexical
          (.unknownCharacter '#' ⟨10, 11⟩ ⟨"-(2 ^ 3)! #".toList, ⟨10, 11⟩⟩)), log) ∧
      Paced log ∧ Event.requests log ≤ 8 := by
  have hyields : standard.YieldsFirst "-(2 ^ 3)! #".toList 7 := by
    unfold YieldsFirst
    decide +kernel
  have hparse : standard.parse 18446744073709551615 "-(2 ^ 3)! #".toList =
      .error (.lexical (.unknownCharacter '#' ⟨10, 11⟩ ⟨"-(2 ^ 3)! #".toList, ⟨10, 11⟩⟩)) := by
    decide +kernel
  obtain ⟨log, hrun, hpaced, _, hrequests, _⟩ :=
    parseUnbounded_ends reachable_standard 18446744073709551615 "-(2 ^ 3)! #".toList
  exact ⟨log, hparse ▸ hrun, hpaced, (hrequests 7 hyields).1⟩

end Registry

end Reckoner
