import Reckoner.Number.Layout
import Reckoner.Span

/-!
# Tokens

The units that an expression is read from.  Operators and functions keep their
names as they are written.
-/

namespace Reckoner

/-- A unit of an expression. -/
inductive Token
  | number (value : Number)
  /-- The name of an operator, as written. -/
  | operator (name : Text)
  /-- The name of a function, as written. -/
  | function (name : Text)
  | leftParen
  | rightParen
  | comma
  /-- What stands behind the last unit. -/
  | endOfInput
  deriving DecidableEq

def Token.describe : Token → String
  | number value => "number " ++ String.ofList value.plain
  | operator name => "'" ++ String.ofList name ++ "'"
  | function name => "function '" ++ String.ofList name ++ "'"
  | leftParen => "'('"
  | rightParen => "')'"
  | comma => "','"
  | endOfInput => "end of input"

/-- A token and the place it was read from. -/
structure Lexeme where
  token : Token
  span : Span
  deriving DecidableEq

end Reckoner
