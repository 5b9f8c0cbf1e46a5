import Reckoner.Parser.Basic
import Reckoner.Proofs.Lexer.Tokens

/-!
# Runs of the parser

A step of the parser takes a state to a result and a state.  This module opens
the steps that the parser is put together from, so that later proofs take a run
apart at its binds and never look inside the monad.

The parser reads its state only from the current lexeme on.  `ParserState.tokens`
is what stands there: the current token and those behind it, up to the end of
input or the first error of the lexer.  A successful `advance` takes the head off
this list (`tokens_of_advance`), and whether it succeeds shows in the list
(`exists_advance_of_tokens`).

`ParserState.left` bounds the lexemes that are still to come, errors included.
It falls with every successful `advance`, and the rounds that a loop of the
parser is given are enough for it.
-/

namespace Reckoner

namespace ParserM

variable {α β : Type} {m : ParserM α} {f : α → ParserM β} {s t : ParserState}

/-- The result of a step that begins in a state, and the state it leaves. -/
def run (m : ParserM α) (s : ParserState) : Except ParseError α × ParserState :=
  m s

theorem run_bind :
    (m >>= f).run s = match m.run s with
      | (.ok a, middle) => (f a).run middle
      | (.error error, middle) => (.error error, middle) := by
  unfold run
  rw [bind_eq_match]
  rcases m s with ⟨_ | _, _⟩ <;> rfl

theorem run_bind_of_ok {a : α} {middle : ParserState} (hfirst : m.run s = (.ok a, middle)) :
    (m >>= f).run s = (f a).run middle := by
  rw [run_bind, hfirst]

/-- A sequence succeeds if both of its parts do. -/
theorem run_bind_eq_ok {b : β} :
    (m >>= f).run s = (.ok b, t) ↔
      ∃ a middle, m.run s = (.ok a, middle) ∧ (f a).run middle = (.ok b, t) := by
  rw [run_bind]
  rcases m.run s with ⟨error | a, middle⟩
  · simp
  · constructor
    · exact fun h => ⟨a, middle, rfl, h⟩
    · rintro ⟨_, _, ⟨⟩, h⟩
      exact h

theorem run_pure {a : α} : (pure a : ParserM α).run s = (.ok a, s) := rfl

theorem run_peek_bind {f : Lexeme → ParserM β} :
    (Parser.peek >>= f).run s = (f s.current).run s := rfl

theorem run_roundsLeft_bind {f : Nat → ParserM β} :
    (Parser.roundsLeft >>= f).run s = (f (s.upcoming.size + 1)).run s := rfl

/-- An error at a span holds a snippet of the text that is read. -/
theorem run_snippet_throw {span : Span} {error : Snippet → ParseError} :
    (Parser.snippet span >>= fun snippet => (throw (error snippet) : ParserM α)).run s =
      (.error (error ⟨s.source, span⟩), s) := rfl

theorem run_pure_eq_ok {a b : α} :
    (pure a : ParserM α).run s = (.ok b, t) ↔ a = b ∧ s = t := by
  simp [run_pure]

theorem run_snippet_throw_ne_ok {span : Span} {error : Snippet → ParseError} {a : α} :
    (Parser.snippet span >>= fun snippet => (throw (error snippet) : ParserM α)).run s ≠
      (.ok a, t) := by
  simp [run_snippet_throw]

theorem run_reject_ne_ok {expected : Expectation} {a : α} :
    (Parser.reject expected : ParserM α).run s ≠ (.ok a, t) :=
  run_snippet_throw_ne_ok

theorem run_wrap {limit height : Nat} {expr : Expr} {span : Span} :
    (Parser.wrap limit expr height span).run s =
      if limit < height then (.error (.tooDeep limit span ⟨s.source, span⟩), s)
      else (.ok ⟨expr, height⟩, s) := by
  unfold Parser.wrap
  split <;> rfl

theorem run_wrap_eq_ok {limit height : Nat} {expr : Expr} {span : Span} {node : Node} :
    (Parser.wrap limit expr height span).run s = (.ok node, t) ↔
      height ≤ limit ∧ node = ⟨expr, height⟩ ∧ t = s := by
  rw [run_wrap]
  split
  · next hlimit => simp [Nat.not_le.mpr hlimit]
  · next hlimit => simp [Nat.not_lt.mp hlimit, eq_comm]

theorem run_wrap_bind_eq_ok {limit height : Nat} {expr : Expr} {span : Span}
    {f : Node → ParserM β} {b : β} :
    (Parser.wrap limit expr height span >>= f).run s = (.ok b, t) ↔
      height ≤ limit ∧ (f ⟨expr, height⟩).run s = (.ok b, t) := by
  rw [run_bind_eq_ok]
  constructor
  · rintro ⟨_, _, hwrap, hrun⟩
    obtain ⟨hlimit, rfl, rfl⟩ := run_wrap_eq_ok.mp hwrap
    exact ⟨hlimit, hrun⟩
  · rintro ⟨hlimit, hrun⟩
    exact ⟨_, _, run_wrap_eq_ok.mpr ⟨hlimit, rfl, rfl⟩, hrun⟩

theorem run_advance :
    Parser.advance.run s = match s.upcoming.next with
      | (.ok first, later) => (.ok (), ⟨s.source, first, later, s.drawn + 1⟩)
      | (.error error, later) =>
        (.error (.lexical error), ⟨s.source, s.current, later, s.drawn + 1⟩) := by
  show (match s.upcoming.next with
    | (.ok first, later) =>
      (set (ParserState.mk s.source first later (s.drawn + 1)) : ParserM Unit)
    | (.error error, later) => (do
        set (ParserState.mk s.source s.current later (s.drawn + 1))
        throw (ParseError.lexical error) : ParserM Unit)).run s = _
  rcases s.upcoming.next with ⟨_ | _, _⟩ <;> rfl

end ParserM

/-! ## The tokens ahead -/

namespace ParserState

/-- The current token and those behind it, up to the end of input or the first
error of the lexer. -/
def tokens (s : ParserState) : List Token :=
  if s.current.token = .endOfInput then [.endOfInput] else s.current.token :: s.upcoming.tokens

/-- A bound on the lexemes that are still to come. -/
def left (s : ParserState) : Nat :=
  if s.current.token = .endOfInput then 0 else s.upcoming.size + 1

variable {s t : ParserState}

theorem tokens_eq_cons (s : ParserState) : ∃ later, s.tokens = s.current.token :: later := by
  unfold tokens
  split
  · next h => exact ⟨[], by rw [h]⟩
  · exact ⟨_, rfl⟩

theorem current_of_tokens {token : Token} {later : List Token}
    (htokens : s.tokens = token :: later) : s.current.token = token := by
  obtain ⟨behind, h⟩ := s.tokens_eq_cons
  exact (List.cons.inj (h.symm.trans htokens)).1

theorem left_le (s : ParserState) : s.left ≤ s.upcoming.size + 1 := by
  unfold left
  split
  · exact Nat.zero_le _
  · exact Nat.le_refl _

theorem length_tokens_stream_le (stream : LexemeStream) :
    stream.tokens.length ≤ stream.size + 1 := by
  induction stream with
  | ended => exact Nat.le_refl _
  | stuck => exact Nat.zero_le _
  | fault => exact Nat.zero_le _
  | lexeme first later ih =>
      simp only [LexemeStream.tokens, LexemeStream.size]
      split
      · exact Nat.le_add_left _ _
      · simpa using ih

theorem length_tokens_le (s : ParserState) : s.tokens.length ≤ s.upcoming.size + 2 := by
  have hstream := length_tokens_stream_le s.upcoming
  unfold tokens
  split
  · simp
  · simpa using hstream

end ParserState

namespace Parser

variable {s t : ParserState}

theorem run_advance_eq_ok {u : Unit} :
    advance.run s = (.ok u, t) ↔
      ∃ first later, s.upcoming.next = (.ok first, later) ∧
        t = ⟨s.source, first, later, s.drawn + 1⟩ := by
  rw [ParserM.run_advance]
  rcases s.upcoming.next with ⟨error | first, later⟩
  · simp
  · constructor
    · rintro ⟨⟩
      exact ⟨first, later, rfl, rfl⟩
    · rintro ⟨_, _, ⟨⟩, rfl⟩
      rfl

/-- Without a call left in the budget there is no expression. -/
theorem run_expression_zero_ne_ok {registry : Registry} {limit : Nat} {minimum : Int}
    {node : Node} : (expression registry limit 0 minimum).run s ≠ (.ok node, t) := by
  have hrun : (expression registry limit 0 minimum).run s =
      (.error (.tooDeep limit s.current.span ⟨s.source, s.current.span⟩), s) := rfl
  simp [hrun]

/-- A successful `advance` leaves what stood behind the current token. -/
theorem tokens_of_advance {u : Unit} (hadvance : advance.run s = (.ok u, t))
    (hmore : s.current.token ≠ .endOfInput) :
    s.tokens = s.current.token :: t.tokens ∧ t.left < s.left := by
  obtain ⟨first, later, hnext, rfl⟩ := run_advance_eq_ok.mp hadvance
  obtain ⟨source, current, upcoming, drawn⟩ := s
  have hmore : current.token ≠ .endOfInput := hmore
  simp only [ParserState.tokens, ParserState.left, if_neg hmore]
  cases upcoming with
  | ended span =>
      obtain ⟨rfl, rfl⟩ : ⟨.endOfInput, span⟩ = first ∧ .ended span = later := by
        simpa [LexemeStream.next] using hnext
      simp [LexemeStream.tokens]
  | stuck error => simp [LexemeStream.next] at hnext
  | fault error after => simp [LexemeStream.next] at hnext
  | lexeme head tail =>
      obtain ⟨rfl, rfl⟩ : head = first ∧ tail = later := by
        simpa [LexemeStream.next] using hnext
      refine ⟨rfl, ?_⟩
      simp only [LexemeStream.size]
      split <;> omega

/-- `advance` succeeds where a token stands behind the current one. -/
theorem exists_advance_of_tokens {first second : Token} {later : List Token}
    (htokens : s.tokens = first :: second :: later) :
    ∃ t, advance.run s = (.ok (), t) ∧ t.tokens = second :: later := by
  have hmore : s.current.token ≠ .endOfInput := by
    intro hcurrent
    simp [ParserState.tokens, hcurrent] at htokens
  have hadvance : ∃ t, advance.run s = (.ok (), t) := by
    simp only [ParserState.tokens, if_neg hmore, List.cons.injEq] at htokens
    cases hupcoming : s.upcoming with
    | ended span => exact ⟨_, run_advance_eq_ok.mpr ⟨_, _, by rw [hupcoming]; rfl, rfl⟩⟩
    | stuck error => simp [hupcoming, LexemeStream.tokens] at htokens
    | fault error after => simp [hupcoming, LexemeStream.tokens] at htokens
    | lexeme head tail => exact ⟨_, run_advance_eq_ok.mpr ⟨_, _, by rw [hupcoming]; rfl, rfl⟩⟩
  obtain ⟨t, hadvance⟩ := hadvance
  refine ⟨t, hadvance, ?_⟩
  rw [(tokens_of_advance hadvance hmore).1] at htokens
  exact (List.cons.inj htokens).2

end Parser

end Reckoner
