import Reckoner.Proofs.Parser.Run

/-!
# The parser under watch

The parser counts its nested calls down, and where it stands between two steps does
not show in its result.  Here the same parser is run under a watch, which

* counts the calls of `expression` that have passed the check of the limit and have not
  returned, from zero on (`Watch.nesting`);
* notes that count at every step, and whenever a call begins or returns
  (`Watch.counts`);
* notes every node that is made (`Watch.nodes`).

The check compares the count with the limit, so nothing but this check keeps the count
down.  Each part is written as in the parser; its steps are those of the parser
(`WatchM.step`), except that a new node is noted (`WatchM.made`) and a nested call is
counted (`WatchM.nested`).  `Nesting` proves that the watch changes no result and
misses no node of the tree that comes out.
-/

namespace Reckoner

/-! ## The watch -/

/-- What has been seen of a run of the parser. -/
structure Watch where
  /-- The calls of `expression` that are under way. -/
  nesting : Nat
  /-- The nesting at every step so far, the latest first. -/
  counts : List Nat
  /-- The nodes made so far, the latest first. -/
  nodes : List Node

namespace Watch

def start : Watch := ⟨0, [0], []⟩

/-- From now on, so many calls are under way. -/
def count (watch : Watch) (nesting : Nat) : Watch :=
  ⟨nesting, nesting :: watch.counts, watch.nodes⟩

def keep (watch : Watch) (node : Node) : Watch :=
  ⟨watch.nesting, watch.counts, node :: watch.nodes⟩

end Watch

/-- A step of the parser under watch. -/
abbrev WatchM := ExceptT ParseError (StateM (ParserState × Watch))

namespace WatchM

variable {α : Type}

/-- The result of a step, the state it leaves and what has been seen by then. -/
def run (m : WatchM α) (s : ParserState) (watch : Watch) :
    Except ParseError α × ParserState × Watch :=
  m (s, watch)

/-- A step of the parser. -/
def step (m : ParserM α) : WatchM α := fun (s, watch) =>
  let (result, t) := m.run s
  (result, t, watch.count watch.nesting)

/-- A step of the parser that makes a node. -/
def made (m : ParserM Node) : WatchM Node := fun (s, watch) =>
  match m.run s with
  | (.ok node, t) => (.ok node, t, watch.keep node)
  | (.error error, t) => (.error error, t, watch)

/-- The calls that are under way. -/
def nesting : WatchM Nat := fun (s, watch) =>
  (.ok watch.nesting, s, watch)

/-- A call, which is under way until it returns with a value or an error. -/
def nested (m : WatchM α) : WatchM α := fun (s, watch) =>
  let (result, t, seen) := m.run s (watch.count (watch.nesting + 1))
  (result, t, seen.count (seen.nesting - 1))

end WatchM

/-! ## The parts of the parser -/

namespace Watched

open WatchM
open Reckoner.Parser (peek advance snippet roundsLeft reject wrap closing)

def arguments (operand : Int → WatchM Node) : (rounds : Nat) → List Node → WatchM (List Node)
  | 0, args => return args
  | rounds + 1, args => do
    if (← step peek).token = .comma then
      step advance
      let arg ← operand 0
      arguments operand rounds (args ++ [arg])
    else return args

def argumentList (operand : Int → WatchM Node) : WatchM (List Node) := do
  if (← step peek).token = .rightParen then return []
  else
    let first ← operand 0
    arguments operand (← step roundsLeft) [first]

def call (registry : Registry) (limit : Nat) (operand : Int → WatchM Node) (name : Text) :
    WatchM Node := do
  let nameSpan := (← step peek).span
  match registry.findFunction? name with
  | none => step (reject .knownFunction)
  | some f =>
    step advance
    let opening ← step peek
    if opening.token ≠ .leftParen then step (reject .openingParenthesis)
    else
      step advance
      let args ← argumentList operand
      let close ← step (closing opening.span)
      let span := nameSpan.merge close
      if args.length ≠ f.arity then
        throw (.arity name f.arity args.length span (← step (snippet span)))
      else
        made (wrap limit (.call name (args.map (·.expr)))
          (1 + (args.map (·.height)).foldr max 0) span)

def atom (registry : Registry) (limit : Nat) (operand : Int → WatchM Node) : WatchM Node := do
  let current ← step peek
  match current.token with
  | .number value =>
    step advance
    made (return ⟨.number value, 1⟩)
  | .leftParen =>
    step advance
    let inner ← operand 0
    let _ ← step (closing current.span)
    return inner
  | .operator name =>
    match registry.findUnary? .prefixed name with
    | none => step (reject .operand)
    | some operator =>
      step advance
      let inner ← operand operator.precedence.level
      made (wrap limit (.prefixed name inner.expr) (inner.height + 1) current.span)
  | .function name => call registry limit operand name
  | _ => step (reject .operand)

def postfixChain (registry : Registry) (limit : Nat) : (rounds : Nat) → Node → WatchM Node
  | 0, node => return node
  | rounds + 1, node => do
    let current ← step peek
    match current.token with
    | .operator name =>
      if (registry.findUnary? .postfixed name).isSome then
        step advance
        let wrapped ←
          made (wrap limit (.postfixed node.expr name) (node.height + 1) current.span)
        postfixChain registry limit rounds wrapped
      else return node
    | _ => return node

def primary (registry : Registry) (limit : Nat) (operand : Int → WatchM Node) : WatchM Node := do
  let node ← atom registry limit operand
  postfixChain registry limit (← step roundsLeft) node

def binaryChain (registry : Registry) (limit : Nat) (operand : Int → WatchM Node)
    (minimum : Int) : (rounds : Nat) → Node → WatchM Node
  | 0, left => return left
  | rounds + 1, left => do
    let current ← step peek
    match current.token with
    | .operator name =>
      match registry.findBinary? name with
      | none => return left
      | some operator =>
        if operator.precedence.level < minimum then return left
        else
          step advance
          let right ← operand operator.rightMinimum
          let joined ← made (wrap limit (.binary left.expr name right.expr)
            (1 + max left.height right.height) current.span)
          binaryChain registry limit operand minimum rounds joined
    | _ => return left

/-- The end of a call that the limit does not allow. -/
def tooDeep (limit : Nat) : WatchM Node := do
  let current ← step peek
  throw (.tooDeep limit current.span (← step (snippet current.span)))

/-- An expression, unless as many calls as the limit allows are under way.  The fuel
bounds the nested calls; it lasts if it exceeds what the limit still allows. -/
def expression (registry : Registry) (limit : Nat) : (fuel : Nat) → (minimum : Int) →
    WatchM Node
  | 0, _ => tooDeep limit
  | fuel + 1, minimum => do
    if limit ≤ (← nesting) then tooDeep limit
    else
      nested do
        let left ← primary registry limit (expression registry limit fuel)
        binaryChain registry limit (expression registry limit fuel) minimum (← step roundsLeft)
          left

def parse (registry : Registry) (limit : Nat) : WatchM Expr := do
  let node ← expression registry limit (limit + 1) 0
  let current ← step peek
  if current.token = .endOfInput then return node.expr
  else throw (.trailing current.token current.span (← step (snippet current.span)))

end Watched

/-- The result of the parse of a text under watch, and all that has been seen. -/
def Registry.watch (registry : Registry) (limit : Nat) (source : Text) :
    Except ParseError Expr × Watch :=
  match ParserState.start registry source with
  | .error error => (.error error, .start)
  | .ok state =>
    let (result, _, seen) := (Watched.parse registry limit).run state .start
    (result, seen)

end Reckoner
