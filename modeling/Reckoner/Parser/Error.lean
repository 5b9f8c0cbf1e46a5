import Reckoner.Lexer.Basic

/-!
# Parse errors

Why a text is no expression.  An error names the cause and the place, and holds
a snippet of the text in which the place is marked; its message shows all three.
-/

namespace Reckoner

/-- What the parser looks for when it meets a token that does not fit. -/
inductive Expectation
  | operand
  | openingParenthesis
  | knownFunction
  deriving DecidableEq

def Expectation.describe : Expectation → String
  | operand => "an operand"
  | openingParenthesis => "'(' after function name"
  | knownFunction => "a known function"

/-- Why a text is no expression. -/
inductive ParseError
  /-- The text cannot be split into tokens. -/
  | lexical (error : LexError)
  /-- A token stands where something else is expected. -/
  | unexpected (found : Token) (expected : Expectation) (span : Span) (snippet : Snippet)
  /-- A function is called with the wrong number of arguments. -/
  | arity (name : Text) (expected actual : Nat) (span : Span) (snippet : Snippet)
  /-- A token stands where the parenthesis at `opening` should be closed. -/
  | unmatched (opening : Span) (found : Token) (span : Span) (snippet : Snippet)
  /-- A token follows a whole expression. -/
  | trailing (found : Token) (span : Span) (snippet : Snippet)
  /-- The expression is nested too deeply or its tree is too high. -/
  | tooDeep (limit : Nat) (span : Span) (snippet : Snippet)
  deriving DecidableEq

namespace ParseError

def span : ParseError → Span
  | lexical error => error.span
  | unexpected _ _ span _ => span
  | arity _ _ _ span _ => span
  | unmatched _ _ span _ => span
  | trailing _ span _ => span
  | tooDeep _ span _ => span

def snippet : ParseError → Snippet
  | lexical error => error.snippet
  | unexpected _ _ _ snippet => snippet
  | arity _ _ _ _ snippet => snippet
  | unmatched _ _ _ snippet => snippet
  | trailing _ _ snippet => snippet
  | tooDeep _ _ snippet => snippet

/-- What is wrong, without the snippet. -/
def sentence : ParseError → String
  | lexical error => error.sentence
  | unexpected found expected span _ =>
    "unexpected " ++ found.describe ++ " at " ++ span.describe ++ ", expected " ++
      expected.describe
  | arity name expected actual span _ =>
    "function " ++ String.ofList name ++ " requires " ++ toString expected ++
      " argument(s) but " ++ toString actual ++ " found at " ++ span.describe
  | unmatched opening found span _ =>
    "unmatched '(' at " ++ opening.describe ++ ": found " ++ found.describe ++
      " instead of ')' at " ++ span.describe
  | trailing found span _ =>
    "unexpected trailing input " ++ found.describe ++ " at " ++ span.describe
  | tooDeep limit span _ =>
    "expression nested deeper than " ++ toString limit ++ " levels at " ++ span.describe

def message (error : ParseError) : String :=
  error.snippet.caption error.sentence

end ParseError

end Reckoner
