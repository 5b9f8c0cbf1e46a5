import Reckoner.Parser.Basic

/-!
# The parser without bounds

The loops of the parser are given rounds, its nested calls are counted down, and it draws from a
stream that is cut where the text must have ended.  Each of these bounds would end a run that went
on without taking anything.

Here the same parser is written without them.  Its loops go on until they stop by themselves, its
calls count up to the limit of nesting, and it asks the lexer for one lexeme after the other.  A run
that does not end has the result `none`; the parts are the least functions that satisfy their
equations.  Along the run is noted

* each request to the lexer, with the token that is current by then and whether a lexeme is the
  answer,
* each call of `expression`,
* each round of a loop.

`Termination` proves that every run ends, with the result of the parser.
-/

namespace Reckoner

/-! ## Events -/

/-- What is noted of a run. -/
inductive Event
  /-- The lexer is asked for a lexeme, while there is a current token or, at first, none. -/
  | request (current : Option Token) (answered : Bool)
  /-- A call of `expression` begins. -/
  | call
  /-- The body of a loop begins. -/
  | round
  deriving DecidableEq

def Event.isRequest : Event → Bool
  | request _ _ => true
  | _ => false

/-! ## Steps -/

/-- Where an unbounded parser stands, and what has been noted so far. -/
structure UnboundedState where
  /-- The lexeme to be used next. -/
  current : Lexeme
  /-- The position of the lexer. -/
  cursor : Cursor
  log : List Event

/-- A step of the unbounded parser, which may go on for ever. -/
abbrev UnboundedM := ExceptT ParseError (StateT UnboundedState Option)

/-- A parser without bounds, for the names of a registry and a limit of nesting. -/
structure Unbounded where
  registry : Registry
  limit : Nat

namespace Unbounded

def peek : UnboundedM Lexeme := do
  return (← get).current

def note (event : Event) : UnboundedM Unit :=
  modify fun state => { state with log := state.log ++ [event] }

/-- Asks the lexer for the next lexeme.  If there is an error instead, the current lexeme stays. -/
def advance (registry : Registry) : UnboundedM Unit := do
  let state ← get
  let current := some state.current.token
  match state.cursor.next registry with
  | (.ok lexeme, after) =>
    set (UnboundedState.mk lexeme after (state.log ++ [.request current true]))
  | (.error error, after) =>
    set (UnboundedState.mk state.current after (state.log ++ [.request current false]))
    throw (.lexical error)

/-- The text of the lexer with a span of it marked. -/
def snippet (span : Span) : UnboundedM Snippet := do
  return (← get).cursor.snippet span

def reject {α : Type} (expected : Expectation) : UnboundedM α := do
  let current ← peek
  throw (.unexpected current.token expected current.span (← snippet current.span))

def wrap (limit : Nat) (expr : Expr) (height : Nat) (span : Span) : UnboundedM Node := do
  if limit < height then throw (.tooDeep limit span (← snippet span)) else return ⟨expr, height⟩

def closing (registry : Registry) (opening : Span) : UnboundedM Span := do
  let current ← peek
  if current.token = .rightParen then
    advance registry
    return current.span
  else throw (.unmatched opening current.token current.span (← snippet current.span))

/-! ## The parts of the parser -/

def postfixChain (parser : Unbounded) (node : Node) : UnboundedM Node := do
  let current ← peek
  match current.token with
  | .operator name =>
    if (parser.registry.findUnary? .postfixed name).isSome then
      note .round
      advance parser.registry
      let wrapped ← wrap parser.limit (.postfixed node.expr name) (node.height + 1) current.span
      parser |>.postfixChain wrapped
    else return node
  | _ => return node
partial_fixpoint

mutual

def arguments (parser : Unbounded) (nesting : Nat) (args : List Node) :
    UnboundedM (List Node) := do
  if (← peek).token = .comma then
    note .round
    advance parser.registry
    let arg ← parser |>.expression nesting 0
    parser |>.arguments nesting (args ++ [arg])
  else return args
partial_fixpoint

def argumentList (parser : Unbounded) (nesting : Nat) : UnboundedM (List Node) := do
  if (← peek).token = .rightParen then return []
  else
    let first ← parser |>.expression nesting 0
    parser |>.arguments nesting [first]
partial_fixpoint

def call (parser : Unbounded) (nesting : Nat) (name : Text) : UnboundedM Node := do
  let nameSpan := (← peek).span
  match parser.registry.findFunction? name with
  | none => reject .knownFunction
  | some f =>
    advance parser.registry
    let opening ← peek
    if opening.token ≠ .leftParen then reject .openingParenthesis
    else
      advance parser.registry
      let args ← parser |>.argumentList nesting
      let close ← closing parser.registry opening.span
      let span := nameSpan.merge close
      if args.length ≠ f.arity then
        throw (.arity name f.arity args.length span (← snippet span))
      else
        wrap parser.limit (.call name (args.map (·.expr)))
          (1 + (args.map (·.height)).foldr max 0) span
partial_fixpoint

def atom (parser : Unbounded) (nesting : Nat) : UnboundedM Node := do
  let current ← peek
  match current.token with
  | .number value =>
    advance parser.registry
    return ⟨.number value, 1⟩
  | .leftParen =>
    advance parser.registry
    let inner ← parser |>.expression nesting 0
    let _ ← closing parser.registry current.span
    return inner
  | .operator name =>
    match parser.registry.findUnary? .prefixed name with
    | none => reject .operand
    | some operator =>
      advance parser.registry
      let inner ← parser |>.expression nesting operator.precedence.level
      wrap parser.limit (.prefixed name inner.expr) (inner.height + 1) current.span
  | .function name => parser |>.call nesting name
  | _ => reject .operand
partial_fixpoint

def primary (parser : Unbounded) (nesting : Nat) : UnboundedM Node := do
  let node ← parser |>.atom nesting
  parser |>.postfixChain node
partial_fixpoint

def binaryChain (parser : Unbounded) (nesting : Nat) (minimum : Int) (left : Node) :
    UnboundedM Node := do
  let current ← peek
  match current.token with
  | .operator name =>
    match parser.registry.findBinary? name with
    | none => return left
    | some operator =>
      if operator.precedence.level < minimum then return left
      else
        note .round
        advance parser.registry
        let right ← parser |>.expression nesting operator.rightMinimum
        let joined ← wrap parser.limit (.binary left.expr name right.expr)
          (1 + max left.height right.height) current.span
        parser |>.binaryChain nesting minimum joined
  | _ => return left
partial_fixpoint

/-- An expression, unless as many calls as the limit allows are under way. -/
def expression (parser : Unbounded) (nesting : Nat) (minimum : Int) : UnboundedM Node := do
  note .call
  if parser.limit ≤ nesting then
    let current ← peek
    throw (.tooDeep parser.limit current.span (← snippet current.span))
  else
    let left ← parser |>.primary (nesting + 1)
    parser |>.binaryChain (nesting + 1) minimum left
partial_fixpoint

end

def parse (parser : Unbounded) : UnboundedM Expr := do
  let node ← parser |>.expression 0 0
  let current ← peek
  if current.token = .endOfInput then return node.expr
  else throw (.trailing current.token current.span (← snippet current.span))

end Unbounded

/-- The result of the unbounded parser for a text and what is noted of its run, if it ends. -/
def Registry.parseUnbounded (registry : Registry) (limit : Nat) (source : Text) :
    Option (Except ParseError Expr × List Event) :=
  match (Cursor.start source).next registry with
  | (.error error, _) => some (.error (.lexical error), [.request none false])
  | (.ok lexeme, after) =>
    (Unbounded.parse ⟨registry, limit⟩ ⟨lexeme, after, [.request none true]⟩).map
      fun (result, state) => (result, state.log)

end Reckoner
