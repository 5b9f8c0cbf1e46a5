import Reckoner.Proofs.Parser.Run

/-!
# The errors of the parser

Every error of the parser is put together from lexemes that it has drawn, or is
an error of the lexer, and its snippet shows the text of the parser.  So what is
known of all answers of the lexer for a text carries over to the errors of the
parser.

`LexemeStream.All` says that all answers of a stream are as described, and
`Parser.Explains` how a description of the answers gives one of the errors, with
one field for each way to fail.  `Registry.explained_of_parse` is the result for
whole texts.  Function names have a field of their own: the lexer yields known
ones only, so the parser never meets an unknown one.
-/

namespace Reckoner

/-! ## Streams -/

namespace LexemeStream

/-- All lexemes of a stream are good, and all of its errors are of a kind. -/
def All (good : Lexeme → Prop) (faulty : LexError → Prop) : LexemeStream → Prop
  | ended span => good ⟨.endOfInput, span⟩
  | stuck error => faulty error
  | lexeme first later => good first ∧ later.All good faulty
  | fault error later => faulty error ∧ later.All good faulty

variable {good : Lexeme → Prop} {faulty : LexError → Prop} {registry : Registry}

/-- What holds of every answer of the lexer at the positions that it reaches
holds of its stream. -/
theorem all_unfold {reached : Cursor → Prop}
    (hended : ∀ cursor, reached cursor → good ⟨.endOfInput, cursor.offset, cursor.offset⟩)
    (hlexeme : ∀ cursor lexeme after, reached cursor →
      cursor.next registry = (.ok lexeme, after) → good lexeme ∧ reached after)
    (hfault : ∀ cursor error after, reached cursor →
      cursor.next registry = (.error error, after) → faulty error ∧ reached after)
    (steps : Nat) (cursor : Cursor) (hreached : reached cursor) :
    (unfold registry steps cursor).All good faulty := by
  induction steps generalizing cursor with
  | zero => exact hended cursor hreached
  | succ steps ih =>
      rcases hnext : cursor.next registry with ⟨error | first, after⟩
      · obtain ⟨hfaulty, hafter⟩ := hfault cursor error after hreached hnext
        rw [unfold, hnext]
        cases error with
        | unknownCharacter => exact hfaulty
        | invalidNumber => exact ⟨hfaulty, ih after hafter⟩
        | unknownWord => exact ⟨hfaulty, ih after hafter⟩
      · obtain ⟨hgood, hafter⟩ := hlexeme cursor first after hreached hnext
        by_cases hmore : first.token = .endOfInput
        · obtain ⟨token, span⟩ := first
          obtain rfl : token = .endOfInput := hmore
          rw [unfold_of_next_ended hnext]
          exact hgood
        · rw [unfold_of_next_lexeme hnext hmore]
          exact ⟨hgood, ih after hafter⟩

end LexemeStream

/-! ## Runs that keep to a description -/

/-- A parser of the text with good lexemes only, now and later. -/
structure ParserState.Ahead (source : Text) (good : Lexeme → Prop) (faulty : LexError → Prop)
    (s : ParserState) : Prop where
  source_eq : s.source = source
  current : good s.current
  upcoming : s.upcoming.All good faulty

/-- How the errors of the parser for a text are described if the answers of the lexer are. -/
structure Parser.Explains (registry : Registry) (limit : Nat) (source : Text)
    (good : Lexeme → Prop) (faulty : LexError → Prop) (explained : ParseError → Prop) : Prop where
  known {lexeme : Lexeme} {name : Text} (hgood : good lexeme)
    (hname : lexeme.token = .function name) : (registry.findFunction? name).isSome = true
  lexical {error : LexError} (hfaulty : faulty error) : explained (.lexical error)
  unexpected {lexeme : Lexeme} {expected : Expectation} (hgood : good lexeme)
    (hknown : expected ≠ .knownFunction) :
    explained (.unexpected lexeme.token expected lexeme.span ⟨source, lexeme.span⟩)
  arity {first last : Lexeme} {name : Text} {expected actual : Nat} (hfirst : good first)
    (hlast : good last) :
    explained (.arity name expected actual (first.span.merge last.span)
      ⟨source, first.span.merge last.span⟩)
  unmatched {opening lexeme : Lexeme} (hopening : good opening) (hgood : good lexeme) :
    explained (.unmatched opening.span lexeme.token lexeme.span ⟨source, lexeme.span⟩)
  trailing {lexeme : Lexeme} (hgood : good lexeme) :
    explained (.trailing lexeme.token lexeme.span ⟨source, lexeme.span⟩)
  tooDeep {lexeme : Lexeme} (hgood : good lexeme) :
    explained (.tooDeep limit lexeme.span ⟨source, lexeme.span⟩)
  callTooDeep {first last : Lexeme} (hfirst : good first) (hlast : good last) :
    explained (.tooDeep limit (first.span.merge last.span)
      ⟨source, first.span.merge last.span⟩)

/-- A run from good lexemes leaves good lexemes and a value as described, or ends
with an error as described. -/
def ParserM.Keeps (source : Text) (good : Lexeme → Prop) (faulty : LexError → Prop)
    (explained : ParseError → Prop) {α : Type} (m : ParserM α) (post : α → Prop) : Prop :=
  ∀ s : ParserState, s.Ahead source good faulty →
    match m.run s with
    | (.ok a, t) => t.Ahead source good faulty ∧ post a
    | (.error error, _) => explained error

namespace ParserM

variable {source : Text} {good : Lexeme → Prop} {faulty : LexError → Prop}
  {explained : ParseError → Prop} {α β : Type} {m : ParserM α} {f : α → ParserM β}
  {middle : α → Prop} {post : β → Prop}

theorem Keeps.bind (hfirst : m.Keeps source good faulty explained middle)
    (hnext : ∀ a, middle a → (f a).Keeps source good faulty explained post) :
    (m >>= f).Keeps source good faulty explained post := by
  intro s hahead
  have hfirst := hfirst s hahead
  rw [run_bind]
  rcases hrun : m.run s with ⟨error | a, t⟩
  · rw [hrun] at hfirst
    exact hfirst
  · rw [hrun] at hfirst
    exact hnext a hfirst.2 t hfirst.1

theorem keeps_pure {b : β} (hpost : post b) :
    (pure b : ParserM β).Keeps source good faulty explained post :=
  fun _ hahead => ⟨hahead, hpost⟩

theorem keeps_snippet_throw {span : Span} {error : Snippet → ParseError}
    (hexplained : explained (error ⟨source, span⟩)) :
    (Parser.snippet span >>= fun snippet => (throw (error snippet) : ParserM β)).Keeps
      source good faulty explained post := by
  intro s hahead
  rw [run_snippet_throw, hahead.source_eq]
  exact hexplained

theorem keeps_peek : Parser.peek.Keeps source good faulty explained good :=
  fun _ hahead => ⟨hahead, hahead.current⟩

theorem keeps_roundsLeft : Parser.roundsLeft.Keeps source good faulty explained fun _ => True :=
  fun _ hahead => ⟨hahead, trivial⟩

theorem keeps_wrap {limit height : Nat} {expr : Expr} {span : Span}
    (hexplained : explained (.tooDeep limit span ⟨source, span⟩)) :
    (Parser.wrap limit expr height span).Keeps source good faulty explained fun _ => True := by
  unfold Parser.wrap
  split
  · exact keeps_snippet_throw hexplained
  · exact keeps_pure trivial

end ParserM

namespace Parser

open ParserM

variable {registry : Registry} {limit : Nat} {source : Text} {good : Lexeme → Prop}
  {faulty : LexError → Prop} {explained : ParseError → Prop} {operand : Int → ParserM Node}

namespace Explains

variable (hexplains : Explains registry limit source good faulty explained)

include hexplains

theorem keeps_advance : advance.Keeps source good faulty explained fun _ => True := by
  rintro ⟨source, current, upcoming, drawn⟩ ⟨hsource, hcurrent, hupcoming⟩
  rw [run_advance]
  cases upcoming with
  | ended span => exact ⟨⟨hsource, hupcoming, hupcoming⟩, trivial⟩
  | stuck error => exact hexplains.lexical hupcoming
  | lexeme first later => exact ⟨⟨hsource, hupcoming.1, hupcoming.2⟩, trivial⟩
  | fault error later => exact hexplains.lexical hupcoming.1

theorem keeps_reject {α : Type} {expected : Expectation} (hknown : expected ≠ .knownFunction)
    {post : α → Prop} : (reject expected).Keeps source good faulty explained post :=
  keeps_peek.bind fun _ hgood => keeps_snippet_throw (hexplains.unexpected hgood hknown)

theorem keeps_closing {opening : Lexeme} (hopening : good opening) :
    (closing opening.span).Keeps source good faulty explained
      fun span => ∃ lexeme, good lexeme ∧ lexeme.span = span := by
  refine keeps_peek.bind fun current hgood => ?_
  split
  · exact hexplains.keeps_advance.bind fun _ _ => keeps_pure ⟨current, hgood, rfl⟩
  · exact keeps_snippet_throw (hexplains.unmatched hopening hgood)

theorem keeps_postfixChain (rounds : Nat) (node : Node) :
    (postfixChain registry limit rounds node).Keeps source good faulty explained fun _ => True := by
  induction rounds generalizing node with
  | zero => exact keeps_pure trivial
  | succ rounds ih =>
      refine keeps_peek.bind fun current hgood => ?_
      split
      · split
        · refine hexplains.keeps_advance.bind fun _ _ => ?_
          exact (keeps_wrap (hexplains.tooDeep hgood)).bind fun wrapped _ => ih wrapped
        · exact keeps_pure trivial
      · exact keeps_pure trivial

section Operands

variable (hoperand : ∀ minimum, (operand minimum).Keeps source good faulty explained fun _ => True)

include hoperand

theorem keeps_arguments (rounds : Nat) (args : List Node) :
    (arguments operand rounds args).Keeps source good faulty explained fun _ => True := by
  induction rounds generalizing args with
  | zero => exact keeps_pure trivial
  | succ rounds ih =>
      refine keeps_peek.bind fun current _ => ?_
      split
      · exact hexplains.keeps_advance.bind fun _ _ => (hoperand 0).bind fun arg _ => ih _
      · exact keeps_pure trivial

theorem keeps_argumentList :
    (argumentList operand).Keeps source good faulty explained fun _ => True := by
  refine keeps_peek.bind fun current _ => ?_
  split
  · exact keeps_pure trivial
  · refine (hoperand 0).bind fun first _ => keeps_roundsLeft.bind fun rounds _ => ?_
    exact hexplains.keeps_arguments hoperand rounds [first]

theorem keeps_call {name : Text} (hname : (registry.findFunction? name).isSome = true) :
    (call registry limit operand name).Keeps source good faulty explained fun _ => True := by
  -- the branch of an unknown function is never reached
  obtain ⟨f, hfind⟩ := Option.isSome_iff_exists.mp hname
  refine keeps_peek.bind fun first hfirst => ?_
  simp only [hfind]
  refine hexplains.keeps_advance.bind fun _ _ => keeps_peek.bind fun opening hopening => ?_
  split
  · exact hexplains.keeps_reject (by simp)
  · refine hexplains.keeps_advance.bind fun _ _ => ?_
    refine (hexplains.keeps_argumentList hoperand).bind fun args _ => ?_
    refine (hexplains.keeps_closing hopening).bind ?_
    rintro _ ⟨last, hlast, rfl⟩
    split
    · exact keeps_snippet_throw (hexplains.arity hfirst hlast)
    · exact keeps_wrap (hexplains.callTooDeep hfirst hlast)

theorem keeps_atom :
    (atom registry limit operand).Keeps source good faulty explained fun _ => True := by
  refine keeps_peek.bind fun current hgood => ?_
  split
  · exact hexplains.keeps_advance.bind fun _ _ => keeps_pure trivial
  · refine hexplains.keeps_advance.bind fun _ _ => (hoperand 0).bind fun inner _ => ?_
    exact (hexplains.keeps_closing hgood).bind fun _ _ => keeps_pure trivial
  · split
    · exact hexplains.keeps_reject (by simp)
    · refine hexplains.keeps_advance.bind fun _ _ => (hoperand _).bind fun inner _ => ?_
      exact keeps_wrap (hexplains.tooDeep hgood)
  · next name htoken => exact hexplains.keeps_call hoperand (hexplains.known hgood htoken)
  · exact hexplains.keeps_reject (by simp)

theorem keeps_primary :
    (primary registry limit operand).Keeps source good faulty explained fun _ => True := by
  refine (hexplains.keeps_atom hoperand).bind fun node _ => ?_
  exact keeps_roundsLeft.bind fun rounds _ => hexplains.keeps_postfixChain rounds node

theorem keeps_binaryChain (minimum : Int) (rounds : Nat) (left : Node) :
    (binaryChain registry limit operand minimum rounds left).Keeps source good faulty explained
      fun _ => True := by
  induction rounds generalizing left with
  | zero => exact keeps_pure trivial
  | succ rounds ih =>
      refine keeps_peek.bind fun current hgood => ?_
      split
      · split
        · exact keeps_pure trivial
        · split
          · exact keeps_pure trivial
          · refine hexplains.keeps_advance.bind fun _ _ => (hoperand _).bind fun right _ => ?_
            exact (keeps_wrap (hexplains.tooDeep hgood)).bind fun joined _ => ih joined
      · exact keeps_pure trivial

end Operands

theorem keeps_expression (budget : Nat) (minimum : Int) :
    (expression registry limit budget minimum).Keeps source good faulty explained
      fun _ => True := by
  induction budget generalizing minimum with
  | zero =>
      exact keeps_peek.bind fun _ hgood => keeps_snippet_throw (hexplains.tooDeep hgood)
  | succ budget ih =>
      refine (hexplains.keeps_primary ih).bind fun left _ => ?_
      exact keeps_roundsLeft.bind fun rounds _ => hexplains.keeps_binaryChain ih minimum rounds left

theorem keeps_parse : (parse registry limit).Keeps source good faulty explained fun _ => True := by
  refine (hexplains.keeps_expression limit 0).bind fun node _ => ?_
  refine keeps_peek.bind fun current hgood => ?_
  split
  · exact keeps_pure trivial
  · exact keeps_snippet_throw (hexplains.trailing hgood)

end Explains

end Parser

/-! ## Texts -/

section Texts

variable {registry : Registry} {limit : Nat} {source : Text} {good : Lexeme → Prop}
  {faulty : LexError → Prop} {explained : ParseError → Prop}

/-- A parser begins with good lexemes, or with an error of the lexer. -/
theorem ParserState.ahead_of_start (hall : (LexemeStream.ofText registry source).All good faulty) :
    match ParserState.start registry source with
    | .ok s => s.Ahead source good faulty
    | .error error => ∃ fault, faulty fault ∧ error = .lexical fault := by
  unfold ParserState.start
  generalize LexemeStream.ofText registry source = stream at hall ⊢
  cases stream with
  | ended span => exact ⟨rfl, hall, hall⟩
  | stuck fault => exact ⟨fault, hall, rfl⟩
  | lexeme first later => exact ⟨rfl, hall.1, hall.2⟩
  | fault fault later => exact ⟨fault, hall.1, rfl⟩

/-- **The errors for a text come from the answers of the lexer for it.** -/
theorem Registry.explained_of_parse
    (hexplains : Parser.Explains registry limit source good faulty explained)
    (hall : (LexemeStream.ofText registry source).All good faulty) {error : ParseError}
    (hparse : registry.parse limit source = .error error) : explained error := by
  have hstart := ParserState.ahead_of_start hall
  unfold Registry.parse at hparse
  split at hparse
  · next other hother =>
      rw [hother] at hstart
      obtain ⟨fault, hfaulty, rfl⟩ := hstart
      exact Except.error.inj hparse ▸ hexplains.lexical hfaulty
  · next s hs =>
      rw [hs] at hstart
      have hkeeps := hexplains.keeps_parse s hstart
      have hrun : (Parser.parse registry limit).run s =
          (.error error, ((Parser.parse registry limit).run s).2) := Prod.ext hparse rfl
      rw [hrun] at hkeeps
      exact hkeeps

end Texts

end Reckoner
