import Reckoner.Expr.Equality
import Reckoner.Proofs.Lexer.Requests
import Reckoner.Proofs.Parser.Run

/-!
# Where errors stand

Every error of the parser points at lexemes of its text, and at those that its kind speaks of
(`ParseError.Located`).  What is told of them is told in terms of the answers of the lexer:

```text
unexpected, tooDeep    one lexeme, the end of input included
unmatched              one lexeme, and the innermost parenthesis open in front of it
trailing               one lexeme, with no parenthesis open in front of it
arity, tooDeep         a call, from its name to the parenthesis that closes it
```

The parser keeps no list of open parentheses; which of them are open shows in the calls that
are under way.  So the proof follows a run with all lexemes that are used already
(`ParserState.Stands`).  Every part of an expression closes what it opens
(`ParserM.KeepsBalance`), and therefore the parenthesis that a group or a call began with is the
innermost open one when it is to be closed.
-/

namespace Reckoner

/-! ## Open parentheses -/

/-- The parentheses that lexemes leave open behind those that are open already, the innermost
first; none if one is closed that was not open. -/
def unclosed? : (opened : List Span) → List Lexeme → Option (List Span)
  | opened, [] => some opened
  | opened, lexeme :: later =>
    if lexeme.token = .leftParen then unclosed? (lexeme.span :: opened) later
    else if lexeme.token = .rightParen then
      match opened with
      | [] => none
      | _ :: outer => unclosed? outer later
    else unclosed? opened later

/-- Lexemes that close what they open, and nothing else. -/
def Balanced (lexemes : List Lexeme) : Prop :=
  ∀ opened, unclosed? opened lexemes = some opened

variable {first later before middle lexemes : List Lexeme} {lexeme : Lexeme} {opened : List Span}

theorem unclosed?_append (opened : List Span) (first later : List Lexeme) :
    unclosed? opened (first ++ later) =
      (unclosed? opened first).bind fun opened => unclosed? opened later := by
  induction first generalizing opened with
  | nil => rfl
  | cons lexeme first ih =>
      simp only [List.cons_append, unclosed?]
      split
      · exact ih _
      split
      · cases opened with
        | nil => rfl
        | cons opening outer => exact ih outer
      · exact ih _

theorem unclosed?_concat_leftParen (hopened : unclosed? [] before = some opened)
    (hleft : lexeme.token = .leftParen) :
    unclosed? [] (before ++ [lexeme]) = some (lexeme.span :: opened) := by
  rw [unclosed?_append, hopened]
  simp [unclosed?, hleft]

namespace Balanced

theorem nil : Balanced [] :=
  fun _ => rfl

theorem append (hfirst : Balanced first) (hlater : Balanced later) : Balanced (first ++ later) := by
  intro opened
  rw [unclosed?_append, hfirst]
  exact hlater opened

theorem singleton (hleft : lexeme.token ≠ .leftParen) (hright : lexeme.token ≠ .rightParen) :
    Balanced [lexeme] := by
  intro opened
  obtain ⟨token, span⟩ := lexeme
  cases token with
  | leftParen => exact absurd rfl hleft
  | rightParen => exact absurd rfl hright
  | number | operator | function | comma | endOfInput => rfl

theorem group {last : Span} (hinner : Balanced lexemes) (hleft : lexeme.token = .leftParen) :
    Balanced (lexeme :: (lexemes ++ [⟨.rightParen, last⟩])) := by
  intro opened
  obtain ⟨token, span⟩ := lexeme
  obtain rfl : token = .leftParen := hleft
  show unclosed? (span :: opened) (lexemes ++ [⟨.rightParen, last⟩]) = some opened
  rw [unclosed?_append, hinner]
  rfl

end Balanced

/-- The second lexemes are the first ones and some behind them that are balanced. -/
def Balances (before lexemes : List Lexeme) : Prop :=
  ∃ used, lexemes = before ++ used ∧ Balanced used

namespace Balances

theorem refl (before : List Lexeme) : Balances before before :=
  ⟨[], by simp, .nil⟩

theorem trans (hfirst : Balances before middle) (hlater : Balances middle lexemes) :
    Balances before lexemes := by
  obtain ⟨first, rfl, hfirst⟩ := hfirst
  obtain ⟨later, rfl, hlater⟩ := hlater
  exact ⟨first ++ later, by simp, hfirst.append hlater⟩

theorem concat (hleft : lexeme.token ≠ .leftParen) (hright : lexeme.token ≠ .rightParen) :
    Balances before (before ++ [lexeme]) :=
  ⟨[lexeme], rfl, .singleton hleft hright⟩

/-- The same parentheses are open behind balanced lexemes. -/
theorem unclosed?_eq (hbalances : Balances before lexemes) :
    unclosed? [] lexemes = unclosed? [] before := by
  obtain ⟨used, rfl, hused⟩ := hbalances
  rw [unclosed?_append]
  cases unclosed? [] before with
  | none => rfl
  | some opened => exact hused opened

end Balances

/-! ## Errors at their places -/

/-- The span is that of a call in a text, from the name of the function to the parenthesis
that closes the one behind the name. -/
def Registry.IsCall (registry : Registry) (source name : Text) (span : Span) : Prop :=
  ∃ before inner first opening last,
    registry.Begins source (before ++ ⟨.function name, first⟩ :: ⟨.leftParen, opening⟩ ::
      (inner ++ [⟨.rightParen, last⟩])) ∧
    unclosed? [] inner = some [] ∧ span = ⟨first.start, last.stop⟩

/-- The span over the name and the closing parenthesis of a call, as the parser merges it. -/
theorem isCall_of_begins {registry : Registry} {source name : Text} {inner : List Lexeme}
    {first opening : Lexeme} {last : Span} (hname : first.token = .function name)
    (hopening : opening.token = .leftParen)
    (hbegins : registry.Begins source (before ++ first :: opening ::
      (inner ++ [⟨.rightParen, last⟩]))) (hinner : Balanced inner) :
    registry.IsCall source name (first.span.merge last) := by
  obtain ⟨token, first⟩ := first
  obtain rfl : token = .function name := hname
  obtain ⟨token, opening⟩ := opening
  obtain rfl : token = .leftParen := hopening
  refine ⟨before, inner, first, opening, last, hbegins, hinner [], ?_⟩
  have hordered := (List.pairwise_append.mp hbegins.ordered).2.1
  obtain ⟨hstart, hstop⟩ := (List.pairwise_cons.mp hordered).1 ⟨.rightParen, last⟩ (by simp)
  rw [Span.merge, Nat.min_eq_left hstart, Nat.max_eq_right hstop]

/-- An error that points at the lexemes of a text that it speaks of, and shows the text with
its place marked. -/
inductive ParseError.Located (registry : Registry) (source : Text) : ParseError → Prop
  /-- The lexer fails behind some lexemes. -/
  | lexical {before : List Lexeme} {error : LexError} (hbegins : registry.Begins source before)
      (hanswer : registry.answer source before.length = .error error) :
      Located registry source (.lexical error)
  | unexpected {before : List Lexeme} {lexeme : Lexeme} {expected : Expectation}
      (hbegins : registry.Begins source (before ++ [lexeme])) :
      Located registry source (.unexpected lexeme.token expected lexeme.span ⟨source, lexeme.span⟩)
  | arity {name : Text} {expected actual : Nat} {span : Span}
      (hcall : registry.IsCall source name span) :
      Located registry source (.arity name expected actual span ⟨source, span⟩)
  /-- Of the parentheses that are open before the lexeme, the innermost is told. -/
  | unmatched {before : List Lexeme} {lexeme : Lexeme} {opening : Span} {outer : List Span}
      (hbegins : registry.Begins source (before ++ [lexeme]))
      (hopened : unclosed? [] before = some (opening :: outer))
      (hother : lexeme.token ≠ .rightParen) :
      Located registry source (.unmatched opening lexeme.token lexeme.span ⟨source, lexeme.span⟩)
  /-- All parentheses before the lexeme are closed. -/
  | trailing {before : List Lexeme} {lexeme : Lexeme}
      (hbegins : registry.Begins source (before ++ [lexeme]))
      (hclosed : unclosed? [] before = some []) (hmore : lexeme.token ≠ .endOfInput) :
      Located registry source (.trailing lexeme.token lexeme.span ⟨source, lexeme.span⟩)
  | tooDeep {limit : Nat} {before : List Lexeme} {lexeme : Lexeme}
      (hbegins : registry.Begins source (before ++ [lexeme])) :
      Located registry source (.tooDeep limit lexeme.span ⟨source, lexeme.span⟩)
  | callTooDeep {limit : Nat} {name : Text} {span : Span}
      (hcall : registry.IsCall source name span) :
      Located registry source (.tooDeep limit span ⟨source, span⟩)

/-! ## Runs -/

/-- A parser on a text that has used some lexemes: it stands on the one behind them, and all
further answers of the lexer are still to come. -/
structure ParserState.Stands (registry : Registry) (source : Text) (before : List Lexeme)
    (s : ParserState) : Prop where
  source_eq : s.source = source
  begins : registry.Begins source (before ++ [s.current])
  ahead (n : Nat) : s.upcoming.request n = registry.answer source (before.length + 1 + n)

namespace ParserM

variable {registry : Registry} {source : Text} {α β : Type} {m : ParserM α} {f : α → ParserM β}
  {s : ParserState}

/-- A step gives a value behind some lexemes, as described, or an error at its place. -/
def Leads (registry : Registry) (source : Text) (m : ParserM α) (s : ParserState)
    (post : α → List Lexeme → Prop) : Prop :=
  match m.run s with
  | (.ok a, t) => ∃ lexemes, t.Stands registry source lexemes ∧ post a lexemes
  | (.error error, _) => error.Located registry source

variable {between : α → List Lexeme → Prop} {post : β → List Lexeme → Prop}

theorem Leads.bind (hfirst : m.Leads registry source s between)
    (hnext : ∀ a lexemes t, t.Stands registry source lexemes → between a lexemes →
      (f a).Leads registry source t post) :
    (m >>= f).Leads registry source s post := by
  unfold Leads at hfirst ⊢
  rw [run_bind]
  generalize m.run s = run at hfirst ⊢
  rcases run with ⟨error | a, t⟩
  · exact hfirst
  · obtain ⟨lexemes, ht, hbetween⟩ := hfirst
    exact hnext a lexemes t ht hbetween

theorem Leads.imp {post' : β → List Lexeme → Prop} {m : ParserM β}
    (hleads : m.Leads registry source s post)
    (himp : ∀ b lexemes, post b lexemes → post' b lexemes) :
    m.Leads registry source s post' := by
  unfold Leads at hleads ⊢
  generalize m.run s = run at hleads ⊢
  rcases run with ⟨error | b, t⟩
  · exact hleads
  · obtain ⟨lexemes, ht, hpost⟩ := hleads
    exact ⟨lexemes, ht, himp b lexemes hpost⟩

theorem leads_pure {b : β} (hs : s.Stands registry source before) (hpost : post b before) :
    (pure b : ParserM β).Leads registry source s post :=
  ⟨before, hs, hpost⟩

theorem leads_snippet_throw {span : Span} {error : Snippet → ParseError}
    (hs : s.Stands registry source before)
    (hlocated : (error ⟨source, span⟩).Located registry source) :
    (Parser.snippet span >>= fun snippet => (throw (error snippet) : ParserM β)).Leads
      registry source s post := by
  unfold Leads
  rw [run_snippet_throw, hs.source_eq]
  exact hlocated

theorem leads_peek_bind {f : Lexeme → ParserM β}
    (hnext : (f s.current).Leads registry source s post) :
    (Parser.peek >>= f).Leads registry source s post :=
  hnext

theorem leads_reject {expected : Expectation} (hs : s.Stands registry source before) :
    (Parser.reject expected : ParserM β).Leads registry source s post :=
  leads_peek_bind (leads_snippet_throw hs (.unexpected hs.begins))

theorem leads_advance (hs : s.Stands registry source before) :
    Parser.advance.Leads registry source s fun _ lexemes => lexemes = before ++ [s.current] := by
  have hnext := hs.ahead 0
  unfold Leads
  rw [run_advance]
  rcases hupcoming : s.upcoming.next with ⟨error | lexeme, later⟩
  · have hanswer : registry.answer source (before ++ [s.current]).length = .error error := by
      rw [List.length_append, List.length_singleton, ← Nat.add_zero (before.length + 1), ← hnext,
        LexemeStream.request, hupcoming]
    exact .lexical hs.begins hanswer
  · refine ⟨_, ⟨hs.source_eq, hs.begins.concat ?_, fun n => ?_⟩, rfl⟩
    · rw [List.length_append, List.length_singleton, ← Nat.add_zero (before.length + 1), ← hnext,
        LexemeStream.request, hupcoming]
    · have hlater := hs.ahead (n + 1)
      rw [LexemeStream.request, hupcoming] at hlater
      rw [hlater, List.length_append, List.length_singleton, Nat.add_assoc _ 1 n, Nat.add_comm 1 n]

theorem leads_wrap {limit height : Nat} {expr : Expr} {span : Span}
    {post : Node → List Lexeme → Prop} (hs : s.Stands registry source before)
    (hlocated : (ParseError.tooDeep limit span ⟨source, span⟩).Located registry source)
    (hpost : ∀ node, post node before) :
    (Parser.wrap limit expr height span).Leads registry source s post := by
  unfold Parser.wrap
  split
  · exact leads_snippet_throw hs hlocated
  · exact leads_pure hs (hpost _)

/-- Behind lexemes without a parenthesis closed in vain, a step uses balanced lexemes only. -/
structure KeepsBalance (registry : Registry) (source : Text) (m : ParserM α) : Prop where
  leads {before : List Lexeme} {opened : List Span} {s : ParserState}
    (hs : s.Stands registry source before) (hopened : unclosed? [] before = some opened) :
    m.Leads registry source s fun _ lexemes => Balances before lexemes

theorem KeepsBalance.bind (hfirst : m.KeepsBalance registry source)
    (hnext : ∀ a, (f a).KeepsBalance registry source) :
    (m >>= f).KeepsBalance registry source := by
  constructor
  intro before opened s hs hopened
  refine (hfirst.leads hs hopened).bind fun a middle t ht hmiddle => ?_
  have hopened' := hmiddle.unclosed?_eq.trans hopened
  exact ((hnext a).leads ht hopened').imp fun _ _ hlater => hmiddle.trans hlater

theorem keepsBalance_pure (b : β) : (pure b : ParserM β).KeepsBalance registry source :=
  ⟨fun hs _ => leads_pure hs (.refl _)⟩

theorem keepsBalance_roundsLeft : Parser.roundsLeft.KeepsBalance registry source :=
  ⟨fun {before _ _} hs _ => ⟨before, hs, .refl before⟩⟩

theorem keepsBalance_wrap {limit height : Nat} {expr : Expr} {span : Span}
    (hlocated : (ParseError.tooDeep limit span ⟨source, span⟩).Located registry source) :
    (Parser.wrap limit expr height span).KeepsBalance registry source :=
  ⟨fun hs _ => leads_wrap hs hlocated fun _ => .refl _⟩

/-- A lexeme that is no parenthesis is used. -/
theorem leads_advance_bind {f : Unit → ParserM β} (hs : s.Stands registry source before)
    (hopened : unclosed? [] before = some opened) (hleft : s.current.token ≠ .leftParen)
    (hright : s.current.token ≠ .rightParen) (hnext : (f ()).KeepsBalance registry source) :
    (Parser.advance >>= f).Leads registry source s fun _ lexemes => Balances before lexemes := by
  refine (leads_advance hs).bind fun _ lexemes t ht hlexemes => ?_
  subst hlexemes
  have hused : Balances before (before ++ [s.current]) := .concat hleft hright
  have hopened' := hused.unclosed?_eq.trans hopened
  exact (hnext.leads ht hopened').imp fun _ _ hlater => hused.trans hlater

end ParserM

/-! ## Parts of the parser -/

namespace Parser

open ParserM

variable {registry : Registry} {source : Text} {limit : Nat} {operand : Int → ParserM Node}
  {s : ParserState} {outer : List Span}

theorem leads_closing {opening : Span} (hs : s.Stands registry source before)
    (hopened : unclosed? [] before = some (opening :: outer)) :
    (closing opening).Leads registry source s
      fun span lexemes => lexemes = before ++ [⟨.rightParen, span⟩] := by
  refine leads_peek_bind ?_
  split
  · next hright =>
      refine (leads_advance hs).bind fun _ lexemes t ht hlexemes => leads_pure ht ?_
      have hcurrent : s.current = ⟨.rightParen, s.current.span⟩ := by rw [← hright]
      rw [hlexemes, ← hcurrent]
  · next hother => exact leads_snippet_throw hs (.unmatched hs.begins hopened hother)

theorem keepsBalance_postfixChain (rounds : Nat) (node : Node) :
    (postfixChain registry limit rounds node).KeepsBalance registry source := by
  induction rounds generalizing node with
  | zero => exact keepsBalance_pure node
  | succ rounds ih =>
      refine ⟨fun hs hopened => leads_peek_bind ?_⟩
      split
      · next op htoken =>
          split
          · refine leads_advance_bind hs hopened (by simp [htoken]) (by simp [htoken]) ?_
            exact (keepsBalance_wrap (.tooDeep hs.begins)).bind fun wrapped => ih wrapped
          · exact (keepsBalance_pure node).leads hs hopened
      · exact (keepsBalance_pure node).leads hs hopened

section Operands

variable (hoperand : ∀ minimum, (operand minimum).KeepsBalance registry source)

include hoperand

theorem keepsBalance_arguments (rounds : Nat) (args : List Node) :
    (arguments operand rounds args).KeepsBalance registry source := by
  induction rounds generalizing args with
  | zero => exact keepsBalance_pure args
  | succ rounds ih =>
      refine ⟨fun hs hopened => leads_peek_bind ?_⟩
      split
      · next htoken =>
          refine leads_advance_bind hs hopened (by simp [htoken]) (by simp [htoken]) ?_
          exact (hoperand 0).bind fun arg => ih _
      · exact (keepsBalance_pure args).leads hs hopened

theorem keepsBalance_argumentList : (argumentList operand).KeepsBalance registry source := by
  have hsome := (hoperand 0).bind fun first => keepsBalance_roundsLeft.bind fun rounds =>
    keepsBalance_arguments hoperand rounds [first]
  refine ⟨fun hs hopened => leads_peek_bind ?_⟩
  split
  · exact (keepsBalance_pure []).leads hs hopened
  · exact hsome.leads hs hopened

/-- Behind the name of a function, a call is read from its opening parenthesis on. -/
theorem leads_call {name : Text} (hs : s.Stands registry source before)
    (hopened : unclosed? [] before = some outer) (hname : s.current.token = .function name) :
    (call registry limit operand name).Leads registry source s
      fun _ lexemes => Balances before lexemes := by
  refine leads_peek_bind ?_
  split
  · exact leads_reject hs
  · refine (leads_advance hs).bind fun _ behind t ht hbehind => leads_peek_bind ?_
    have hused : Balances before behind := by
      rw [hbehind]
      exact .concat (by simp [hname]) (by simp [hname])
    split
    · exact leads_reject ht
    · next hleft =>
        have hleft : t.current.token = .leftParen := not_not.mp hleft
        have hopening := unclosed?_concat_leftParen (hused.unclosed?_eq.trans hopened) hleft
        refine (leads_advance ht).bind fun _ inside u hu hinside => ?_
        rw [← hinside] at hopening
        refine ((keepsBalance_argumentList hoperand).leads hu hopening).bind ?_
        intro args lexemes v hv hargs
        refine (leads_closing hv (hargs.unclosed?_eq.trans hopening)).bind ?_
        intro close closed w hw hclosed
        obtain ⟨inner, hinner, hbalanced⟩ := hargs
        have hall : closed = before ++ s.current :: t.current ::
            (inner ++ [⟨.rightParen, close⟩]) := by
          rw [hclosed, hinner, hinside, hbehind]
          simp
        have hcall : registry.IsCall source name (s.current.span.merge close) :=
          isCall_of_begins hname hleft (hall ▸ hw.begins.of_append) hbalanced
        split
        · exact leads_snippet_throw hw (.arity hcall)
        · refine leads_wrap hw (.callTooDeep hcall) fun _ => hused.trans ?_
          refine ⟨t.current :: (inner ++ [⟨.rightParen, close⟩]), ?_, hbalanced.group hleft⟩
          rw [hall, hbehind]
          simp

theorem keepsBalance_atom : (atom registry limit operand).KeepsBalance registry source := by
  refine ⟨fun {before opened s} hs hopened => leads_peek_bind ?_⟩
  split
  · next value htoken =>
      exact leads_advance_bind hs hopened (by simp [htoken]) (by simp [htoken])
        (keepsBalance_pure _)
  · next htoken =>
      have hopening := unclosed?_concat_leftParen hopened htoken
      refine (leads_advance hs).bind fun _ inside t ht hinside => ?_
      rw [← hinside] at hopening
      refine ((hoperand 0).leads ht hopening).bind fun inner lexemes u hu hinner => ?_
      refine (leads_closing hu (hinner.unclosed?_eq.trans hopening)).bind ?_
      intro close closed v hv hclosed
      obtain ⟨used, hused, hbalanced⟩ := hinner
      refine leads_pure hv ⟨s.current :: (used ++ [⟨.rightParen, close⟩]), ?_,
        hbalanced.group htoken⟩
      rw [hclosed, hused, hinside]
      simp
  · next op htoken =>
      split
      · exact leads_reject hs
      · refine leads_advance_bind hs hopened (by simp [htoken]) (by simp [htoken]) ?_
        exact (hoperand _).bind fun inner => keepsBalance_wrap (.tooDeep hs.begins)
  · next name htoken => exact leads_call hoperand hs hopened htoken
  · exact leads_reject hs

theorem keepsBalance_primary : (primary registry limit operand).KeepsBalance registry source :=
  (keepsBalance_atom hoperand).bind fun node =>
    keepsBalance_roundsLeft.bind fun rounds => keepsBalance_postfixChain rounds node

theorem keepsBalance_binaryChain (minimum : Int) (rounds : Nat) (left : Node) :
    (binaryChain registry limit operand minimum rounds left).KeepsBalance registry source := by
  induction rounds generalizing left with
  | zero => exact keepsBalance_pure left
  | succ rounds ih =>
      refine ⟨fun hs hopened => leads_peek_bind ?_⟩
      split
      · next op htoken =>
          split
          · exact (keepsBalance_pure left).leads hs hopened
          split
          · exact (keepsBalance_pure left).leads hs hopened
          · refine leads_advance_bind hs hopened (by simp [htoken]) (by simp [htoken]) ?_
            refine (hoperand _).bind fun right => ?_
            exact (keepsBalance_wrap (.tooDeep hs.begins)).bind fun joined => ih joined
      · exact (keepsBalance_pure left).leads hs hopened

end Operands

theorem keepsBalance_expression (budget : Nat) (minimum : Int) :
    (expression registry limit budget minimum).KeepsBalance registry source := by
  induction budget generalizing minimum with
  | zero => exact ⟨fun hs _ => leads_peek_bind (leads_snippet_throw hs (.tooDeep hs.begins))⟩
  | succ budget ih =>
      refine (keepsBalance_primary ih).bind fun left => ?_
      exact keepsBalance_roundsLeft.bind fun rounds =>
        keepsBalance_binaryChain ih minimum rounds left

theorem leads_parse (hs : s.Stands registry source []) :
    (parse registry limit).Leads registry source s fun _ _ => True := by
  refine ((keepsBalance_expression limit 0).leads hs rfl).bind fun node lexemes t ht hused => ?_
  refine leads_peek_bind ?_
  split
  · exact leads_pure ht trivial
  · next hmore => exact leads_snippet_throw ht (.trailing ht.begins hused.unclosed?_eq hmore)

end Parser

/-! ## Texts -/

section Texts

variable {registry : Registry} {source : Text} {limit : Nat} {error : ParseError}

/-- A parser begins on the first lexeme, or with an error of the lexer. -/
theorem ParserState.stands_of_start (hreach : registry.Reachable) (source : Text) :
    match ParserState.start registry source with
    | .ok s => s.Stands registry source []
    | .error error => error.Located registry source := by
  have hrequest := LexemeStream.request_ofText hreach source
  unfold ParserState.start
  generalize LexemeStream.ofText registry source = stream at hrequest ⊢
  have hfirst := hrequest 0
  rw [LexemeStream.request] at hfirst
  rcases hnext : stream.next with ⟨error | lexeme, later⟩
  · rw [hnext] at hfirst
    exact .lexical Registry.begins_nil hfirst.symm
  · rw [hnext] at hfirst
    refine ⟨rfl, Registry.begins_nil.concat hfirst.symm, fun n => ?_⟩
    have hlater := hrequest (n + 1)
    rw [LexemeStream.request, hnext] at hlater
    rw [hlater, List.length_nil, Nat.zero_add, Nat.add_comm]

theorem Registry.located_of_parse (hreach : registry.Reachable)
    (hparse : registry.parse limit source = .error error) : error.Located registry source := by
  have hstart := ParserState.stands_of_start hreach source
  unfold Registry.parse at hparse
  split at hparse
  · next other hother =>
      rw [hother] at hstart
      exact Except.error.inj hparse ▸ hstart
  · next s hs =>
      rw [hs] at hstart
      have hleads : (Parser.parse registry limit).Leads registry source s fun _ _ => True :=
        Parser.leads_parse hstart
      have hrun : (Parser.parse registry limit).run s =
          (.error error, ((Parser.parse registry limit).run s).2) := Prod.ext hparse rfl
      unfold ParserM.Leads at hleads
      rw [hrun] at hleads
      exact hleads

theorem Registry.IsCall.pointsInto {name : Text} {span : Span}
    (hcall : registry.IsCall source name span) : span.PointsInto source := by
  obtain ⟨before, inner, first, opening, last, hbegins, _, rfl⟩ := hcall
  have hfirst := hbegins.answer
  obtain ⟨_, hstart⟩ := slice_of_answer_lexeme hfirst
  have hordered := (List.pairwise_append.mp hbegins.ordered).2.1
  have hstop := ((List.pairwise_cons.mp hordered).1 ⟨.rightParen, last⟩ (by simp)).2
  have hlast : registry.Begins source ((before ++ ⟨.function name, first⟩ ::
      ⟨.leftParen, opening⟩ :: inner) ++ [⟨.rightParen, last⟩]) := by
    simpa using hbegins
  obtain ⟨_, hend⟩ := slice_of_answer_lexeme hlast.answer
  exact {
    start_le_stop := Nat.le_trans hstart.pointsInto.start_le_stop hstop
    stop_le_end := hend.pointsInto.stop_le_end
    start_isBoundary := hstart.start_isBoundary
    stop_isBoundary := hend.stop_isBoundary }

theorem ParseError.Located.pointsInto (hlocated : error.Located registry source) :
    error.span.PointsInto source := by
  have hlexeme {before : List Lexeme} {lexeme : Lexeme}
      (hbegins : registry.Begins source (before ++ [lexeme])) :
      lexeme.span.PointsInto source := by
    obtain ⟨_, hslice⟩ := Registry.slice_of_answer_lexeme hbegins.answer
    exact hslice.pointsInto
  cases hlocated with
  | lexical _ hanswer => exact (Registry.slice_of_answer_error hanswer).pointsInto
  | unexpected hbegins => exact hlexeme hbegins
  | arity hcall => exact hcall.pointsInto
  | unmatched hbegins _ _ => exact hlexeme hbegins
  | trailing hbegins _ _ => exact hlexeme hbegins
  | tooDeep hbegins => exact hlexeme hbegins
  | callTooDeep hcall => exact hcall.pointsInto

theorem ParseError.Located.snippet_eq (hlocated : error.Located registry source) :
    error.snippet = ⟨source, error.span⟩ := by
  cases hlocated with
  | lexical _ hanswer => exact Registry.snippet_of_answer hanswer
  | unexpected | arity | unmatched | trailing | tooDeep | callTooDeep => rfl

/-- **Errors point into their text.**  The span of every error of the lexer covers the text
that the error speaks of, and that of every error of the parser covers a part of the text too.
The snippet of an error marks its span in the whole text.  The span and the other places that
an error of the parser names are those of the lexemes that it is about. -/
theorem Registry.errors_point (hreach : registry.Reachable) (source : Text) :
    (∀ n error, registry.answer source n = .error error →
      error.span.PointsInto source ∧ source.Slice error.span error.text ∧
        error.snippet = ⟨source, error.span⟩) ∧
    ∀ limit error, registry.parse limit source = .error error →
      error.span.PointsInto source ∧ error.snippet = ⟨source, error.span⟩ ∧
        error.Located registry source := by
  constructor
  · intro n error hanswer
    have hslice := slice_of_answer_error hanswer
    exact ⟨hslice.pointsInto, hslice, snippet_of_answer hanswer⟩
  · intro limit error hparse
    have hlocated := located_of_parse hreach hparse
    exact ⟨hlocated.pointsInto, hlocated.snippet_eq, hlocated⟩

/-- Two parentheses stay open, of which the inner one is told; and a word that names nothing is
shown in the text. -/
theorem Registry.errors_point_unmatched :
    (∃ error, standard.parse 4 "(1 + max(2, 3".toList = .error error ∧
      error = .unmatched ⟨8, 9⟩ .endOfInput ⟨13, 13⟩ ⟨"(1 + max(2, 3".toList, ⟨13, 13⟩⟩ ∧
      error.snippet = ⟨"(1 + max(2, 3".toList, error.span⟩ ∧
      error.Located standard "(1 + max(2, 3".toList) ∧
    ∃ error, standard.answer "2 km".toList 1 = .error error ∧
      Text.Slice "2 km".toList error.span "km".toList ∧
      error.snippet = ⟨"2 km".toList, ⟨2, 4⟩⟩ := by
  constructor
  · have hparse : standard.parse 4 "(1 + max(2, 3".toList =
        .error (.unmatched ⟨8, 9⟩ .endOfInput ⟨13, 13⟩ ⟨"(1 + max(2, 3".toList, ⟨13, 13⟩⟩) := by
      decide +kernel
    obtain ⟨_, hparses⟩ := errors_point reachable_standard "(1 + max(2, 3".toList
    obtain ⟨_, hsnippet, hlocated⟩ := hparses 4 _ hparse
    exact ⟨_, hparse, rfl, hsnippet, hlocated⟩
  · have hanswer : standard.answer "2 km".toList 1 =
        .error (.unknownWord "km".toList ⟨2, 4⟩ ⟨"2 km".toList, ⟨2, 4⟩⟩) := by
      decide +kernel
    obtain ⟨hanswers, _⟩ := errors_point reachable_standard "2 km".toList
    obtain ⟨_, hslice, hsnippet⟩ := hanswers 1 _ hanswer
    exact ⟨_, hanswer, hslice, hsnippet⟩

end Texts

end Reckoner
