import Reckoner.Expr.Basic
import Reckoner.Lexer.Stream
import Reckoner.Parser.Error

/-!
# The parser

Reads an expression by precedence climbing over the lexemes of a text, with a
registry for its grammar:

    expression(min) = primary (BINARY[level ≥ min] expression(rightMinimum))*
    primary         = ( NUMBER
                      | "(" expression(0) ")"
                      | PREFIX expression(level of PREFIX)
                      | FUNCTION "(" (expression(0) ("," expression(0))*)? ")"
                      ) POSTFIX*

The next lexeme is taken from the stream as soon as the current one is used.  A
lexeme that cannot be taken is an error, and the current one stays.

## Limits

`limit` bounds how many calls of `expression` are under way at once, and also
the height of the tree, which grows without nested calls along a chain of
operators.

## Termination

`expression` counts down the nested calls that are still allowed.  Each loop
takes a lexeme in every round, so the lexemes that are left when it begins
bound its rounds.
-/

namespace Reckoner

/-! ## State -/

/-- Where a parser stands. -/
structure ParserState where
  /-- The whole text. -/
  source : Text
  /-- The lexeme to be used next. -/
  current : Lexeme
  /-- What the lexer yields behind it. -/
  upcoming : LexemeStream
  /-- How many lexemes have been asked of the lexer so far. -/
  drawn : Nat
  deriving DecidableEq

/-- A step of the parser.  An error leaves the state as the step has changed
it. -/
abbrev ParserM := ExceptT ParseError (StateM ParserState)

structure Node where
  expr : Expr
  height : Nat

namespace Parser

/-! ## Lexemes -/

/-- The lexeme to be used next. -/
def peek : ParserM Lexeme := do
  return (← get).current

/-- Takes the next lexeme from the stream.  If there is an error instead, the
current lexeme stays. -/
def advance : ParserM Unit := do
  let state ← get
  match state.upcoming.next with
  | (.ok lexeme, later) =>
    set { state with current := lexeme, upcoming := later, drawn := state.drawn + 1 }
  | (.error error, later) =>
    set { state with upcoming := later, drawn := state.drawn + 1 }
    throw (.lexical error)

/-- The whole text with a span of it marked. -/
def snippet (span : Span) : ParserM Snippet := do
  return ⟨(← get).source, span⟩

/-- Rounds enough for a loop that takes a lexeme in every round. -/
def roundsLeft : ParserM Nat := do
  return (← get).upcoming.size + 1

def reject {α : Type} (expected : Expectation) : ParserM α := do
  let current ← peek
  throw (.unexpected current.token expected current.span (← snippet current.span))

/-! ## Trees -/

/-- The tree of an operation or a call that stands at `span`, unless it is
higher than the limit. -/
def wrap (limit : Nat) (expr : Expr) (height : Nat) (span : Span) : ParserM Node := do
  if limit < height then throw (.tooDeep limit span (← snippet span)) else return ⟨expr, height⟩

/-! ## Parts of an expression

Each part that holds expressions gets the function that reads one, which is
told the least precedence of an operator outside parentheses. -/

/-- Takes the parenthesis that closes the one at `opening`, and gives its
span. -/
def closing (opening : Span) : ParserM Span := do
  let current ← peek
  if current.token = .rightParen then
    advance
    return current.span
  else throw (.unmatched opening current.token current.span (← snippet current.span))

/-- The arguments behind those that are read already, each behind a comma. -/
def arguments (operand : Int → ParserM Node) :
    (rounds : Nat) → List Node → ParserM (List Node)
  | 0, args => return args
  | rounds + 1, args => do
    if (← peek).token = .comma then
      advance
      let arg ← operand 0
      arguments operand rounds (args ++ [arg])
    else return args

/-- The arguments of a call, from behind its opening parenthesis on. -/
def argumentList (operand : Int → ParserM Node) : ParserM (List Node) := do
  if (← peek).token = .rightParen then return []
  else
    let first ← operand 0
    arguments operand (← roundsLeft) [first]

/-- A call of the function whose name is the current lexeme. -/
def call (registry : Registry) (limit : Nat) (operand : Int → ParserM Node) (name : Text) :
    ParserM Node := do
  let nameSpan := (← peek).span
  match registry.findFunction? name with
  | none => reject .knownFunction
  | some f =>
    advance
    let opening ← peek
    if opening.token ≠ .leftParen then reject .openingParenthesis
    else
      advance
      let args ← argumentList operand
      let close ← closing opening.span
      let span := nameSpan.merge close
      if args.length ≠ f.arity then
        throw (.arity name f.arity args.length span (← snippet span))
      else
        wrap limit (.call name (args.map (·.expr)))
          (1 + (args.map (·.height)).foldr max 0) span

/-- An operand without the postfix operators behind it. -/
def atom (registry : Registry) (limit : Nat) (operand : Int → ParserM Node) : ParserM Node := do
  let current ← peek
  match current.token with
  | .number value =>
    advance
    return ⟨.number value, 1⟩
  | .leftParen =>
    advance
    let inner ← operand 0
    let _ ← closing current.span
    return inner
  | .operator name =>
    match registry.findUnary? .prefixed name with
    | none => reject .operand
    | some operator =>
      advance
      let inner ← operand operator.precedence.level
      wrap limit (.prefixed name inner.expr) (inner.height + 1) current.span
  | .function name => call registry limit operand name
  | _ => reject .operand

/-- Wraps a tree in the postfix operators that follow it. -/
def postfixChain (registry : Registry) (limit : Nat) : (rounds : Nat) → Node → ParserM Node
  | 0, node => return node
  | rounds + 1, node => do
    let current ← peek
    match current.token with
    | .operator name =>
      if (registry.findUnary? .postfixed name).isSome then
        advance
        let wrapped ← wrap limit (.postfixed node.expr name) (node.height + 1) current.span
        postfixChain registry limit rounds wrapped
      else return node
    | _ => return node

/-- An operand with the postfix operators behind it. -/
def primary (registry : Registry) (limit : Nat) (operand : Int → ParserM Node) :
    ParserM Node := do
  let node ← atom registry limit operand
  postfixChain registry limit (← roundsLeft) node

/-- Joins a tree with the operands that follow it, as long as the binary
operators between them bind at least as tightly as `minimum`. -/
def binaryChain (registry : Registry) (limit : Nat) (operand : Int → ParserM Node)
    (minimum : Int) : (rounds : Nat) → Node → ParserM Node
  | 0, left => return left
  | rounds + 1, left => do
    let current ← peek
    match current.token with
    | .operator name =>
      match registry.findBinary? name with
      | none => return left
      | some operator =>
        if operator.precedence.level < minimum then return left
        else
          advance
          let right ← operand operator.rightMinimum
          let joined ← wrap limit (.binary left.expr name right.expr)
            (1 + max left.height right.height) current.span
          binaryChain registry limit operand minimum rounds joined
    | _ => return left

/-! ## Expressions -/

/-- An expression whose binary operators outside parentheses bind at least as
tightly as `minimum`; up to `budget` calls may be nested. -/
def expression (registry : Registry) (limit : Nat) : (budget : Nat) → (minimum : Int) →
    ParserM Node
  | 0, _ => do
    let current ← peek
    throw (.tooDeep limit current.span (← snippet current.span))
  | budget + 1, minimum => do
    let left ← primary registry limit (expression registry limit budget)
    binaryChain registry limit (expression registry limit budget) minimum (← roundsLeft) left

/-- An expression that the end of input follows. -/
def parse (registry : Registry) (limit : Nat) : ParserM Expr := do
  let node ← expression registry limit limit 0
  let current ← peek
  if current.token = .endOfInput then return node.expr
  else throw (.trailing current.token current.span (← snippet current.span))

end Parser

/-! ## Texts -/

/-- The state of a parser on its first lexeme. -/
def ParserState.start (registry : Registry) (source : Text) : Except ParseError ParserState :=
  match (LexemeStream.ofText registry source).next with
  | (.ok lexeme, later) => .ok ⟨source, lexeme, later, 1⟩
  | (.error error, _) => .error (.lexical error)

/-- The limit of nesting and height if no other is set. -/
def defaultMaxDepth : Nat := 256

/-- The expression that a text stands for, with a limit of its nesting and
height. -/
def Registry.parse (registry : Registry) (limit : Nat) (source : Text) : Except ParseError Expr :=
  match ParserState.start registry source with
  | .error error => .error error
  | .ok state => (Parser.parse registry limit state).1

end Reckoner
