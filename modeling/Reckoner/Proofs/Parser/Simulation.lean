import Reckoner.Proofs.Parser.Likeness
import Reckoner.Proofs.Parser.Run

/-!
# Two parsers in step

Two parsers with different registries read texts that are alike.  They go in step, and what
they give is alike as well, if the registries answer alike (`Registry.Likens`): for like names
the look-ups find definitions of one shape.

The parsers may compare precedences with different numbers.  The numbers that are least
precedences of both at the same time are related by `minima`; what is asked of the relation is
that a binary operator on one side is let through where its counterpart is, and that the
minima of the operands are related again.

`ParserM.InStep` is kept by sequences (`InStep.bind`), so there is one lemma for each part of
the parser, with the same shape as the part.  `Registry.parse_alike` is the result for texts
whose streams are alike.
-/

namespace Reckoner

/-! ## Registries -/

/-- Two registries answer alike for like names. -/
structure Registry.Likens (names : Text → Text → Prop) (spans : Span → Span → Prop)
    (minima : Int → Int → Prop) (registry other : Registry) : Prop where
  merge {a a' b b' : Span} (ha : spans a a') (hb : spans b b') : spans (a.merge b) (a'.merge b')
  zero : minima 0 0
  binary {name name' : Text} (hname : names name name') :
    Option.Rel (fun operator operator' =>
        minima operator.rightMinimum operator'.rightMinimum ∧
          ∀ minimum minimum', minima minimum minimum' →
            (operator.precedence.level < minimum ↔ operator'.precedence.level < minimum'))
      (registry.findBinary? name) (other.findBinary? name')
  prefixed {name name' : Text} (hname : names name name') :
    Option.Rel (fun operator operator' =>
        minima operator.precedence.level operator'.precedence.level)
      (registry.findUnary? .prefixed name) (other.findUnary? .prefixed name')
  postfixed {name name' : Text} (hname : names name name') :
    (registry.findUnary? .postfixed name).isSome = (other.findUnary? .postfixed name').isSome
  function {name name' : Text} (hname : names name name') :
    Option.Rel (fun f f' => f.arity = f'.arity)
      (registry.findFunction? name) (other.findFunction? name')

/-! ## Steps -/

/-- States in which one parser reads `source` and the other `source'`, at like places. -/
structure ParserState.Alike (names : Text → Text → Prop) (spans : Span → Span → Prop)
    (source source' : Text) (s s' : ParserState) : Prop where
  source_left : s.source = source
  source_right : s'.source = source'
  current : s.current.Alike names spans s'.current
  upcoming : s.upcoming.Alike names spans s'.upcoming

namespace ParserM

/-- Two ends of a run: like values in like states, or like errors. -/
inductive EndsAlike (names : Text → Text → Prop) (spans : Span → Span → Prop)
    (source source' : Text) {α : Type} (values : α → α → Prop) :
    Except ParseError α × ParserState → Except ParseError α × ParserState → Prop
  | ok {a a' : α} {t t' : ParserState} (hvalue : values a a')
      (hstate : t.Alike names spans source source' t') :
      EndsAlike names spans source source' values (.ok a, t) (.ok a', t')
  | error {e e' : ParseError} {t t' : ParserState}
      (herror : e.Alike names spans source source' e') :
      EndsAlike names spans source source' values (.error e, t) (.error e', t')

/-- From like states, two steps end alike. -/
def InStep (names : Text → Text → Prop) (spans : Span → Span → Prop) (source source' : Text)
    {α : Type} (values : α → α → Prop) (m m' : ParserM α) : Prop :=
  ∀ s s' : ParserState, s.Alike names spans source source' s' →
    EndsAlike names spans source source' values (m.run s) (m'.run s')

namespace InStep

variable {names : Text → Text → Prop} {spans : Span → Span → Prop} {source source' : Text}
  {α β : Type} {values : α → α → Prop} {results : β → β → Prop}

theorem pure {a a' : α} (hvalue : values a a') :
    InStep names spans source source' values (pure a) (pure a') :=
  fun _ _ hstate => .ok hvalue hstate

/-- Two errors at like spans hold the snippets of the two texts. -/
theorem snippet_throw {span span' : Span} {error error' : Snippet → ParseError}
    (herror : (error ⟨source, span⟩).Alike names spans source source' (error' ⟨source', span'⟩)) :
    InStep names spans source source' values
      (Parser.snippet span >>= fun snippet => throw (error snippet))
      (Parser.snippet span' >>= fun snippet => throw (error' snippet)) := by
  intro s s' hstate
  rw [run_snippet_throw, run_snippet_throw, hstate.source_left, hstate.source_right]
  exact .error herror

theorem bind {m m' : ParserM α} {f f' : α → ParserM β}
    (hfirst : InStep names spans source source' values m m')
    (hnext : ∀ a a', values a a' → InStep names spans source source' results (f a) (f' a')) :
    InStep names spans source source' results (m >>= f) (m' >>= f') := by
  intro s s' hstate
  have hends := hfirst s s' hstate
  rw [run_bind, run_bind]
  generalize m.run s = run, m'.run s' = run' at hends ⊢
  cases hends with
  | ok hvalue hmiddle => exact hnext _ _ hvalue _ _ hmiddle
  | error herror => exact .error herror

theorem peek :
    InStep names spans source source' (Lexeme.Alike names spans) Parser.peek Parser.peek :=
  fun _ _ hstate => .ok hstate.current hstate

/-- The numbers of lexemes ahead are the same. -/
theorem size_eq {stream stream' : LexemeStream} (halike : stream.Alike names spans stream') :
    stream.size = stream'.size := by
  induction halike with
  | ended => rfl
  | stuck => rfl
  | lexeme _ _ ih => rw [LexemeStream.size, LexemeStream.size, ih]
  | fault _ _ ih => rw [LexemeStream.size, LexemeStream.size, ih]

theorem roundsLeft : InStep names spans source source' Eq Parser.roundsLeft Parser.roundsLeft := by
  intro s s' hstate
  have hrounds : s.upcoming.size + 1 = s'.upcoming.size + 1 := by rw [size_eq hstate.upcoming]
  exact .ok hrounds hstate

theorem advance : InStep names spans source source' Eq Parser.advance Parser.advance := by
  rintro ⟨_, current, upcoming, drawn⟩ ⟨_, current', upcoming', drawn'⟩
    ⟨hsource, hsource', hcurrent, hupcoming⟩
  rw [run_advance, run_advance]
  cases hupcoming with
  | ended hspan => exact .ok rfl ⟨hsource, hsource', ⟨.endOfInput, hspan⟩, .ended hspan⟩
  | stuck error => exact .error (.lexical error)
  | lexeme hfirst hlater => exact .ok rfl ⟨hsource, hsource', hfirst, hlater⟩
  | fault error hlater => exact .error (.lexical error)

theorem reject (expected : Expectation) :
    InStep names spans source source' values (Parser.reject expected) (Parser.reject expected) :=
  peek.bind fun _ _ hcurrent => .snippet_throw (.unexpected hcurrent.token expected hcurrent.span)

theorem wrap {limit : Nat} {expr expr' : Expr} {height height' : Nat} {span span' : Span}
    (hexpr : expr.Alike names expr') (hheight : height = height') (hspan : spans span span') :
    InStep names spans source source' (Node.Alike names) (Parser.wrap limit expr height span)
      (Parser.wrap limit expr' height' span') := by
  subst hheight
  unfold Parser.wrap
  split
  · exact .snippet_throw (.tooDeep limit hspan)
  · exact .pure ⟨hexpr, rfl⟩

end InStep

end ParserM

/-! ## Parts of the parser -/

namespace Parser

open ParserM

variable {names : Text → Text → Prop} {spans : Span → Span → Prop} {source source' : Text}
  {minima : Int → Int → Prop}
  {registry other : Registry} {limit : Nat} {operand operand' : Int → ParserM Node}

theorem inStep_closing {opening opening' : Span} (hopening : spans opening opening') :
    InStep names spans source source' spans (closing opening) (closing opening') := by
  refine InStep.peek.bind ?_
  rintro ⟨token, span⟩ ⟨token', span'⟩ ⟨htoken, hspan⟩
  by_cases hright : token = .rightParen
  · subst hright
    cases htoken with
    | rightParen => exact InStep.advance.bind fun _ _ _ => .pure hspan
  · have hright' : token' ≠ .rightParen := by
      rintro rfl
      cases htoken with
      | rightParen => exact hright rfl
    dsimp only
    rw [if_neg hright, if_neg hright']
    exact .snippet_throw (.unmatched hopening htoken hspan)

theorem inStep_postfixChain (hregistry : registry.Likens names spans minima other) (rounds : Nat)
    {node node' : Node} (hnode : node.Alike names node') :
    InStep names spans source source' (Node.Alike names) (postfixChain registry limit rounds node)
      (postfixChain other limit rounds node') := by
  induction rounds generalizing node node' with
  | zero => exact .pure hnode
  | succ rounds ih =>
      refine InStep.peek.bind ?_
      rintro ⟨token, span⟩ ⟨token', span'⟩ ⟨htoken, hspan⟩
      cases htoken with
      | operator hname =>
          dsimp only
          rw [hregistry.postfixed hname]
          split
          · refine InStep.advance.bind fun _ _ _ => ?_
            have hheight : node.height + 1 = node'.height + 1 := by rw [hnode.height]
            exact (InStep.wrap (.postfixed hnode.expr hname) hheight hspan).bind
              fun _ _ hwrapped => ih hwrapped
          · exact .pure hnode
      | number | function | leftParen | rightParen | comma | endOfInput => exact .pure hnode

section Operands

variable (hregistry : registry.Likens names spans minima other)
  (hoperand : ∀ minimum minimum', minima minimum minimum' →
    InStep names spans source source' (Node.Alike names) (operand minimum) (operand' minimum'))

include hregistry hoperand

theorem inStep_arguments (rounds : Nat) {args args' : List Node}
    (hargs : List.Forall₂ (Node.Alike names) args args') :
    InStep names spans source source' (List.Forall₂ (Node.Alike names))
      (arguments operand rounds args) (arguments operand' rounds args') := by
  induction rounds generalizing args args' with
  | zero => exact .pure hargs
  | succ rounds ih =>
      refine InStep.peek.bind ?_
      rintro ⟨token, span⟩ ⟨token', span'⟩ ⟨htoken, hspan⟩
      cases htoken with
      | comma =>
          refine InStep.advance.bind fun _ _ _ => ?_
          refine (hoperand 0 0 hregistry.zero).bind fun arg arg' harg => ?_
          have hmore : List.Forall₂ (Node.Alike names) (args ++ [arg]) (args' ++ [arg']) :=
            List.rel_append hargs (.cons harg .nil)
          exact ih hmore
      | number | operator | function | leftParen | rightParen | endOfInput => exact .pure hargs

theorem inStep_argumentList :
    InStep names spans source source' (List.Forall₂ (Node.Alike names)) (argumentList operand)
      (argumentList operand') := by
  have hsome : InStep names spans source source' (List.Forall₂ (Node.Alike names))
      (do let first ← operand 0; arguments operand (← roundsLeft) [first])
      (do let first ← operand' 0; arguments operand' (← roundsLeft) [first]) := by
    refine (hoperand 0 0 hregistry.zero).bind fun first first' hfirst => ?_
    refine InStep.roundsLeft.bind ?_
    rintro rounds _ rfl
    exact inStep_arguments hregistry hoperand rounds (.cons hfirst .nil)
  refine InStep.peek.bind ?_
  rintro ⟨token, span⟩ ⟨token', span'⟩ ⟨htoken, hspan⟩
  cases htoken with
  | rightParen => exact .pure .nil
  | number | operator | function | leftParen | comma | endOfInput => exact hsome

theorem inStep_call {name name' : Text} (hname : names name name') :
    InStep names spans source source' (Node.Alike names) (call registry limit operand name)
      (call other limit operand' name') := by
  refine InStep.peek.bind fun current current' hcurrent => ?_
  match registry.findFunction? name, other.findFunction? name', hregistry.function hname with
  | _, _, .none => exact .reject .knownFunction
  | some f, some f', .some harity =>
      refine InStep.advance.bind fun _ _ _ => InStep.peek.bind ?_
      rintro ⟨token, opening⟩ ⟨token', opening'⟩ ⟨htoken, hopening⟩
      cases htoken with
      | leftParen =>
          refine InStep.advance.bind fun _ _ _ => ?_
          refine (inStep_argumentList hregistry hoperand).bind fun args args' hargs => ?_
          refine (inStep_closing hopening).bind fun close close' hclose => ?_
          have hspan := hregistry.merge hcurrent.span hclose
          dsimp only
          rw [hargs.length_eq, harity]
          split
          · exact .snippet_throw (.arity hname _ _ hspan)
          · have hexprs : List.Forall₂ (Expr.Alike names) (args.map (·.expr))
                (args'.map (·.expr)) :=
              List.rel_map (fun _ _ hnode => hnode.expr) hargs
            have hheights : args.map (·.height) = args'.map (·.height) :=
              List.forall₂_eq_eq_eq ▸ List.rel_map (fun _ _ hnode => hnode.height) hargs
            exact .wrap (.call hname hexprs) (by rw [hheights]) hspan
      | number | operator | function | rightParen | comma | endOfInput =>
          exact .reject .openingParenthesis

theorem inStep_atom :
    InStep names spans source source' (Node.Alike names) (atom registry limit operand)
      (atom other limit operand') := by
  refine InStep.peek.bind ?_
  rintro ⟨token, span⟩ ⟨token', span'⟩ ⟨htoken, hspan⟩
  cases htoken with
  | number value => exact InStep.advance.bind fun _ _ _ => .pure ⟨.number value, rfl⟩
  | leftParen =>
      refine InStep.advance.bind fun _ _ _ => ?_
      refine (hoperand 0 0 hregistry.zero).bind fun inner inner' hinner => ?_
      exact (inStep_closing hspan).bind fun _ _ _ => .pure hinner
  | @operator name name' hname =>
      dsimp only
      match registry.findUnary? .prefixed name, other.findUnary? .prefixed name',
        hregistry.prefixed hname with
      | _, _, .none => exact .reject .operand
      | some operator, some operator', .some hlevel =>
          refine InStep.advance.bind fun _ _ _ => ?_
          refine (hoperand _ _ hlevel).bind fun inner inner' hinner => ?_
          exact .wrap (.prefixed hname hinner.expr) (by rw [hinner.height]) hspan
  | function hname => exact inStep_call hregistry hoperand hname
  | rightParen | comma | endOfInput => exact .reject .operand

theorem inStep_primary :
    InStep names spans source source' (Node.Alike names) (primary registry limit operand)
      (primary other limit operand') := by
  refine (inStep_atom hregistry hoperand).bind fun node node' hnode => ?_
  refine InStep.roundsLeft.bind ?_
  rintro rounds _ rfl
  exact inStep_postfixChain hregistry rounds hnode

theorem inStep_binaryChain {minimum minimum' : Int} (hminimum : minima minimum minimum')
    (rounds : Nat) {left left' : Node} (hleft : left.Alike names left') :
    InStep names spans source source' (Node.Alike names)
      (binaryChain registry limit operand minimum rounds left)
      (binaryChain other limit operand' minimum' rounds left') := by
  induction rounds generalizing left left' with
  | zero => exact .pure hleft
  | succ rounds ih =>
      refine InStep.peek.bind ?_
      rintro ⟨token, span⟩ ⟨token', span'⟩ ⟨htoken, hspan⟩
      cases htoken with
      | @operator name name' hname =>
          dsimp only
          match registry.findBinary? name, other.findBinary? name', hregistry.binary hname with
          | _, _, .none => exact .pure hleft
          | some operator, some operator', .some ⟨hright, hpasses⟩ =>
              dsimp only
              rw [if_congr (hpasses minimum minimum' hminimum) rfl rfl]
              split
              · exact .pure hleft
              · refine InStep.advance.bind fun _ _ _ => ?_
                refine (hoperand _ _ hright).bind fun right right' hright => ?_
                have hheight : 1 + max left.height right.height =
                    1 + max left'.height right'.height := by rw [hleft.height, hright.height]
                exact (InStep.wrap (.binary hleft.expr hname hright.expr) hheight hspan).bind
                  fun _ _ hjoined => ih hjoined
      | number | function | leftParen | rightParen | comma | endOfInput => exact .pure hleft

end Operands

/-! ## The parser -/

variable (hregistry : registry.Likens names spans minima other)

include hregistry

theorem inStep_expression (budget : Nat) {minimum minimum' : Int}
    (hminimum : minima minimum minimum') :
    InStep names spans source source' (Node.Alike names) (expression registry limit budget minimum)
      (expression other limit budget minimum') := by
  induction budget generalizing minimum minimum' with
  | zero =>
      exact InStep.peek.bind fun _ _ hcurrent => .snippet_throw (.tooDeep limit hcurrent.span)
  | succ budget ih =>
      have hoperand := fun minimum minimum' hminimum =>
        @ih minimum minimum' hminimum
      refine (inStep_primary hregistry hoperand).bind fun left left' hleft => ?_
      refine InStep.roundsLeft.bind ?_
      rintro rounds _ rfl
      exact inStep_binaryChain hregistry hoperand hminimum rounds hleft

theorem inStep_parse :
    InStep names spans source source' (Expr.Alike names) (parse registry limit)
      (parse other limit) := by
  refine (inStep_expression hregistry limit hregistry.zero).bind fun node node' hnode => ?_
  refine InStep.peek.bind ?_
  rintro ⟨token, span⟩ ⟨token', span'⟩ ⟨htoken, hspan⟩
  cases htoken with
  | endOfInput => exact .pure hnode.expr
  | number value => exact .snippet_throw (.trailing (.number value) hspan)
  | operator hname => exact .snippet_throw (.trailing (.operator hname) hspan)
  | function hname => exact .snippet_throw (.trailing (.function hname) hspan)
  | leftParen => exact .snippet_throw (.trailing .leftParen hspan)
  | rightParen => exact .snippet_throw (.trailing .rightParen hspan)
  | comma => exact .snippet_throw (.trailing .comma hspan)

end Parser

/-! ## Texts -/

/-- **Texts whose lexemes are alike are read alike.**  The results are like trees or like
errors. -/
theorem Registry.parse_alike {names : Text → Text → Prop} {spans : Span → Span → Prop}
    {minima : Int → Int → Prop} {registry other : Registry}
    (hregistry : registry.Likens names spans minima other) {source source' : Text}
    (hstream : (LexemeStream.ofText registry source).Alike names spans
      (LexemeStream.ofText other source')) (limit : Nat) :
    ResultAlike (ParseError.Alike names spans source source') (Expr.Alike names)
      (registry.parse limit source) (other.parse limit source') := by
  have hparses : ∀ s s' : ParserState, s.Alike names spans source source' s' →
      ResultAlike (ParseError.Alike names spans source source') (Expr.Alike names)
        ((Parser.parse registry limit).run s).1 ((Parser.parse other limit).run s').1 := by
    intro s s' hstate
    have hends : ParserM.EndsAlike names spans source source' (Expr.Alike names)
        ((Parser.parse registry limit).run s) ((Parser.parse other limit).run s') :=
      Parser.inStep_parse hregistry s s' hstate
    generalize (Parser.parse registry limit).run s = run,
      (Parser.parse other limit).run s' = run' at hends
    cases hends with
    | ok hvalue _ => exact .ok hvalue
    | error herror => exact .error herror
  unfold Registry.parse ParserState.start
  generalize LexemeStream.ofText registry source = stream,
    LexemeStream.ofText other source' = stream' at hstream
  cases hstream with
  | ended hspan => exact hparses _ _ ⟨rfl, rfl, ⟨.endOfInput, hspan⟩, .ended hspan⟩
  | stuck error => exact .error (.lexical error)
  | lexeme hfirst hlater => exact hparses _ _ ⟨rfl, rfl, hfirst, hlater⟩
  | fault error _ => exact .error (.lexical error)

end Reckoner
