import Mathlib.Data.List.Forall2
import Reckoner.Parser.Basic

/-!
# Texts that are read alike

Two texts may differ in the spelling of names and in where their lexemes stand, and still be
read alike.  This module says what that means for all that the lexer and the parser make of
them: tokens, lexemes, streams, trees and errors.

Each relation has one rule for each constructor.  It is told which names and which spans are
alike; numbers, punctuation and what an error counts are the same on both sides, and a snippet
is one of the text on its side.  If only equal names and spans are alike, and the text is one,
then only equal trees and errors are alike (`Expr.Alike.eq`, `ParseError.Alike.eq`).
-/

namespace Reckoner

variable {names : Text → Text → Prop} {spans : Span → Span → Prop}

/-! ## Lexemes -/

/-- Tokens of one kind, and of one value if they are numbers. -/
inductive Token.Alike (names : Text → Text → Prop) : Token → Token → Prop
  | number (value : Number) : Alike names (.number value) (.number value)
  | operator {name name' : Text} (hname : names name name') :
      Alike names (.operator name) (.operator name')
  | function {name name' : Text} (hname : names name name') :
      Alike names (.function name) (.function name')
  | leftParen : Alike names .leftParen .leftParen
  | rightParen : Alike names .rightParen .rightParen
  | comma : Alike names .comma .comma
  | endOfInput : Alike names .endOfInput .endOfInput

structure Lexeme.Alike (names : Text → Text → Prop) (spans : Span → Span → Prop)
    (lexeme lexeme' : Lexeme) : Prop where
  token : lexeme.token.Alike names lexeme'.token
  span : spans lexeme.span lexeme'.span

/-- Streams of like lexemes with the same errors in between. -/
inductive LexemeStream.Alike (names : Text → Text → Prop) (spans : Span → Span → Prop) :
    LexemeStream → LexemeStream → Prop
  | ended {span span' : Span} (hspan : spans span span') :
      Alike names spans (.ended span) (.ended span')
  | stuck (error : LexError) : Alike names spans (.stuck error) (.stuck error)
  | lexeme {first first' : Lexeme} {later later' : LexemeStream}
      (hfirst : first.Alike names spans first') (hlater : Alike names spans later later') :
      Alike names spans (.lexeme first later) (.lexeme first' later')
  | fault {later later' : LexemeStream} (error : LexError)
      (hlater : Alike names spans later later') :
      Alike names spans (.fault error later) (.fault error later')

/-! ## Trees -/

/-- Trees of one shape with the same numbers. -/
inductive Expr.Alike (names : Text → Text → Prop) : Expr → Expr → Prop
  | number (value : Number) : Alike names (.number value) (.number value)
  | binary {left left' right right' : Expr} {op op' : Text} (hleft : Alike names left left')
      (hname : names op op') (hright : Alike names right right') :
      Alike names (.binary left op right) (.binary left' op' right')
  | prefixed {op op' : Text} {operand operand' : Expr} (hname : names op op')
      (hoperand : Alike names operand operand') :
      Alike names (.prefixed op operand) (.prefixed op' operand')
  | postfixed {operand operand' : Expr} {op op' : Text} (hoperand : Alike names operand operand')
      (hname : names op op') : Alike names (.postfixed operand op) (.postfixed operand' op')
  | call {name name' : Text} {args args' : List Expr} (hname : names name name')
      (hargs : List.Forall₂ (Alike names) args args') :
      Alike names (.call name args) (.call name' args')

structure Node.Alike (names : Text → Text → Prop) (node node' : Node) : Prop where
  expr : node.expr.Alike names node'.expr
  height : node.height = node'.height

/-! ## Errors and results -/

/-- Errors with one cause, each with the snippet of its own text. -/
inductive ParseError.Alike (names : Text → Text → Prop) (spans : Span → Span → Prop)
    (source source' : Text) : ParseError → ParseError → Prop
  | lexical (error : LexError) : Alike names spans source source' (.lexical error) (.lexical error)
  | unexpected {found found' : Token} {span span' : Span} (hfound : found.Alike names found')
      (expected : Expectation) (hspan : spans span span') :
      Alike names spans source source' (.unexpected found expected span ⟨source, span⟩)
        (.unexpected found' expected span' ⟨source', span'⟩)
  | arity {name name' : Text} {span span' : Span} (hname : names name name')
      (expected actual : Nat) (hspan : spans span span') :
      Alike names spans source source' (.arity name expected actual span ⟨source, span⟩)
        (.arity name' expected actual span' ⟨source', span'⟩)
  | unmatched {opening opening' span span' : Span} {found found' : Token}
      (hopening : spans opening opening') (hfound : found.Alike names found')
      (hspan : spans span span') :
      Alike names spans source source' (.unmatched opening found span ⟨source, span⟩)
        (.unmatched opening' found' span' ⟨source', span'⟩)
  | trailing {found found' : Token} {span span' : Span} (hfound : found.Alike names found')
      (hspan : spans span span') :
      Alike names spans source source' (.trailing found span ⟨source, span⟩)
        (.trailing found' span' ⟨source', span'⟩)
  | tooDeep {span span' : Span} (limit : Nat) (hspan : spans span span') :
      Alike names spans source source' (.tooDeep limit span ⟨source, span⟩)
        (.tooDeep limit span' ⟨source', span'⟩)

/-- Like values, or like errors. -/
inductive ResultAlike {ε α : Type} (errors : ε → ε → Prop) (values : α → α → Prop) :
    Except ε α → Except ε α → Prop
  | ok {a a' : α} (hvalue : values a a') : ResultAlike errors values (.ok a) (.ok a')
  | error {e e' : ε} (herror : errors e e') : ResultAlike errors values (.error e) (.error e')

/-! ## Nothing differs -/

namespace Token.Alike

theorem refl (hnames : ∀ name, names name name) (token : Token) : token.Alike names token := by
  cases token with
  | number value => exact .number value
  | operator name => exact .operator (hnames name)
  | function name => exact .function (hnames name)
  | leftParen => exact .leftParen
  | rightParen => exact .rightParen
  | comma => exact .comma
  | endOfInput => exact .endOfInput

theorem eq {token token' : Token} (halike : token.Alike Eq token') : token = token' := by
  cases halike with
  | operator hname => rw [hname]
  | function hname => rw [hname]
  | number | leftParen | rightParen | comma | endOfInput => rfl

end Token.Alike

theorem LexemeStream.Alike.refl (hnames : ∀ name, names name name)
    (hspans : ∀ span, spans span span) (stream : LexemeStream) :
    stream.Alike names spans stream := by
  induction stream with
  | ended span => exact .ended (hspans span)
  | stuck error => exact .stuck error
  | lexeme first later ih => exact .lexeme ⟨.refl hnames first.token, hspans first.span⟩ ih
  | fault error later ih => exact .fault error ih

mutual

theorem Expr.Alike.eq : ∀ {e e' : Expr}, e.Alike Eq e' → e = e'
  | .number _, _, halike => by
      cases halike
      rfl
  | .binary left op right, _, halike => by
      cases halike with
      | binary hleft hname hright => rw [Expr.Alike.eq hleft, hname, Expr.Alike.eq hright]
  | .prefixed op operand, _, halike => by
      cases halike with
      | prefixed hname hoperand => rw [hname, Expr.Alike.eq hoperand]
  | .postfixed operand op, _, halike => by
      cases halike with
      | postfixed hoperand hname => rw [Expr.Alike.eq hoperand, hname]
  | .call name args, _, halike => by
      cases halike with
      | call hname hargs => rw [hname, Expr.Alike.all_eq hargs]

theorem Expr.Alike.all_eq : ∀ {es es' : List Expr}, List.Forall₂ (Expr.Alike Eq) es es' → es = es'
  | [], _, halike => by
      cases halike
      rfl
  | e :: es, _, halike => by
      cases halike with
      | cons hfirst hothers => rw [Expr.Alike.eq hfirst, Expr.Alike.all_eq hothers]

end

theorem ParseError.Alike.eq {source : Text} {error error' : ParseError}
    (halike : error.Alike Eq Eq source source error') : error = error' := by
  cases halike with
  | lexical => rfl
  | unexpected hfound _ hspan => rw [hfound.eq, hspan]
  | arity hname _ _ hspan => rw [hname, hspan]
  | unmatched hopening hfound hspan => rw [hopening, hfound.eq, hspan]
  | trailing hfound hspan => rw [hfound.eq, hspan]
  | tooDeep _ hspan => rw [hspan]

end Reckoner
