import Reckoner.Expr.Basic
import Reckoner.Registry.Basic

/-!
# Evaluation

The value of a tree under a registry.  Operands and arguments are evaluated
from left to right; then the name of the node is looked up, the number of
arguments of a call is checked, and the rule is applied.  The first failure of
these is the error.  An undefined number is an ordinary value.
-/

namespace Reckoner

/-- Why a tree has no value. -/
inductive EvalError
  /-- A name does not stand for a definition in its role. -/
  | unknown (role : Role) (name : Text)
  /-- A function is called with the wrong number of arguments. -/
  | arity (name : Text) (expected actual : Nat)
  /-- A rule rejects its arguments. -/
  | invalidArgument (name : Text) (cause : Rejection)
  deriving DecidableEq

def Rejection.message : Rejection → String
  | notNatural argument =>
    "factorial is defined only for non-negative integers, got " ++ String.ofList argument.plain
  | missingArgument index => "argument " ++ toString index ++ " is missing"
  | custom reason => reason

def EvalError.message : EvalError → String
  | unknown role name => "unknown " ++ role.describe ++ " '" ++ String.ofList name ++ "'"
  | arity name expected actual =>
    "function " ++ String.ofList name ++ " requires " ++ toString expected ++
      " argument(s) but " ++ toString actual ++ " given"
  | invalidArgument name cause =>
    "invalid argument for '" ++ String.ofList name ++ "': " ++ cause.message

namespace Registry

/-- The result of a rule as that of the node with the given name. -/
def applied (name : Text) : Except Rejection Number → Except EvalError Number
  | .ok value => .ok value
  | .error cause => .error (.invalidArgument name cause)

/-- The value of a binary operation on values. -/
def applyBinary (registry : Registry) (op : Text) (left right : Number) :
    Except EvalError Number :=
  match registry.findBinary? op with
  | none => .error (.unknown .binary op)
  | some operator => applied op (operator.rule left right)

/-- The value of a unary operation on a value. -/
def applyUnary (registry : Registry) (fixity : Fixity) (op : Text) (operand : Number) :
    Except EvalError Number :=
  match registry.findUnary? fixity op with
  | none => .error (.unknown (.unary fixity) op)
  | some operator => applied op (operator.rule operand)

/-- The value of a call with values for its arguments. -/
def applyFunction (registry : Registry) (name : Text) (args : List Number) :
    Except EvalError Number :=
  match registry.findFunction? name with
  | none => .error (.unknown .function name)
  | some f =>
    if args.length = f.arity then applied name (f.rule args)
    else .error (.arity name f.arity args.length)

mutual

def evaluate (registry : Registry) : Expr → Except EvalError Number
  | .number value => .ok value
  | .binary left op right => do
    let leftValue ← registry.evaluate left
    let rightValue ← registry.evaluate right
    registry.applyBinary op leftValue rightValue
  | .prefixed op operand => do
    let value ← registry.evaluate operand
    registry.applyUnary .prefixed op value
  | .postfixed operand op => do
    let value ← registry.evaluate operand
    registry.applyUnary .postfixed op value
  | .call name args => do
    let values ← registry.evaluateAll args
    registry.applyFunction name values

/-- The values of trees, from left to right. -/
def evaluateAll (registry : Registry) : List Expr → Except EvalError (List Number)
  | [] => .ok []
  | e :: es => do
    let value ← registry.evaluate e
    let values ← registry.evaluateAll es
    return value :: values

end

end Registry

end Reckoner
