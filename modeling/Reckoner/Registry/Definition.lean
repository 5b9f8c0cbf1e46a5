import Reckoner.Number.Basic
import Reckoner.Text.Lowering

/-!
# Definitions

What a registry holds: binary operators, unary operators and functions.  A
definition carries the rule that computes its value.  A rule may reject its
arguments; a rejection is a cause, and its wording is one function of it.

The names of a definition may be given in any case and with repeats.  A registry
keeps definitions in normal form: names in lower case, and the aliases of an
operator without repeats.
-/

namespace Reckoner

/-! ## Roles -/

/-- The side of its operand on which a unary operator stands. -/
inductive Fixity
  | prefixed
  | postfixed
  deriving DecidableEq

/-- How operators of one precedence group. -/
inductive Associativity
  | left
  | right
  deriving DecidableEq

/-- What a name can stand for.  A name may have several roles at once, and one
definition in each. -/
inductive Role
  | binary
  | unary (fixity : Fixity)
  | function
  deriving DecidableEq

def Role.describe : Role → String
  | binary => "binary operator"
  | unary .prefixed => "prefix operator"
  | unary .postfixed => "postfix operator"
  | function => "function"

/-! ## Precedence -/

def maxPrecedence : Int := 2147483647

def minPrecedence : Int := -2147483648

/-- A precedence: how tightly an operator binds. -/
structure Precedence where
  level : Int
  inRange : minPrecedence ≤ level ∧ level ≤ maxPrecedence
  deriving DecidableEq

/-- The precedence of a level, if the level is in range. -/
def Precedence.ofInt? (level : Int) : Option Precedence :=
  if h : minPrecedence ≤ level ∧ level ≤ maxPrecedence then some ⟨level, h⟩ else none

/-! ## Rules -/

/-- Why a rule rejects its arguments. -/
inductive Rejection
  /-- A factorial is asked of a number that is negative or not whole. -/
  | notNatural (argument : Number)
  /-- A function asks for an argument that it is not given. -/
  | missingArgument (index : Nat)
  /-- A rule has a reason of its own. -/
  | custom (reason : String)
  deriving DecidableEq

abbrev BinaryRule := Number → Number → Except Rejection Number

abbrev UnaryRule := Number → Except Rejection Number

abbrev FunctionRule := List Number → Except Rejection Number

/-! ## Aliases -/

/-- A list without the later of equal members. -/
def dropRepeats : (seen : List Text) → List Text → List Text
  | _, [] => []
  | seen, name :: names =>
    if name ∈ seen then dropRepeats seen names
    else name :: dropRepeats (name :: seen) names

/-- Names in lower case, each once, in the order in which they first stand. -/
def normalizeAliases (names : List Text) : List Text :=
  dropRepeats [] (names.map lower)

/-! ## Definitions -/

structure BinaryOperator where
  aliases : List Text
  precedence : Precedence
  associativity : Associativity
  rule : BinaryRule

structure UnaryOperator where
  aliases : List Text
  fixity : Fixity
  precedence : Precedence
  rule : UnaryRule

/-- A function of a fixed number of arguments. -/
structure Function where
  name : Text
  arity : Nat
  rule : FunctionRule

/-- The least precedence of an operator in the right operand of a binary one:
more than its own if it groups to the left, and its own if to the right. -/
def BinaryOperator.rightMinimum (operator : BinaryOperator) : Int :=
  match operator.associativity with
  | .left => min (operator.precedence.level + 1) maxPrecedence
  | .right => operator.precedence.level

inductive Definition
  | binary (operator : BinaryOperator)
  | unary (operator : UnaryOperator)
  | function (function : Function)

/-- The role that a definition gives to its names. -/
def Definition.role : Definition → Role
  | binary _ => .binary
  | unary operator => .unary operator.fixity
  | function _ => .function

def Definition.names : Definition → List Text
  | binary operator => operator.aliases
  | unary operator => operator.aliases
  | function f => [f.name]

/-- The definition in normal form. -/
def Definition.normalize : Definition → Definition
  | binary operator => binary { operator with aliases := normalizeAliases operator.aliases }
  | unary operator => unary { operator with aliases := normalizeAliases operator.aliases }
  | function f => function { f with name := lower f.name }

@[simp] theorem Definition.role_normalize (definition : Definition) :
    definition.normalize.role = definition.role := by
  cases definition <;> rfl

end Reckoner
