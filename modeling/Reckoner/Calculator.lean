import Reckoner.Config.Basic
import Reckoner.Evaluation
import Reckoner.Parser.Basic
import Reckoner.Registry.Standard

/-!
# Calculators

A calculator is a registry with a limit of nesting and height.  It takes a text
to the value of the expression that the text stands for.
-/

namespace Reckoner

/-- Why a text has no value. -/
inductive CalcError
  | parse (error : ParseError)
  | evaluation (error : EvalError)
  deriving DecidableEq

def CalcError.message : CalcError → String
  | parse error => error.message
  | evaluation error => error.message

/-- A registry with a limit for the expressions that are read with it. -/
structure Calculator where
  registry : Registry
  maxDepth : Nat

namespace Calculator

/-- The calculator of a registry with the default limit. -/
def ofRegistry (registry : Registry) : Calculator :=
  ⟨registry, defaultMaxDepth⟩

def standard : Calculator :=
  ofRegistry .standard

/-- The calculator of a configuration, or the first failure of that. -/
def ofConfig (config : Config) : Except ConfigError Calculator :=
  config.build.map ofRegistry

/-- The expression that a text stands for. -/
def parse (calculator : Calculator) (source : Text) : Except ParseError Expr :=
  calculator.registry.parse calculator.maxDepth source

def evaluate (calculator : Calculator) (expr : Expr) : Except EvalError Number :=
  calculator.registry.evaluate expr

/-- The value of the expression that a text stands for. -/
def calculate (calculator : Calculator) (source : Text) : Except CalcError Number :=
  match calculator.parse source with
  | .error error => .error (.parse error)
  | .ok expr =>
    match calculator.evaluate expr with
    | .error error => .error (.evaluation error)
    | .ok value => .ok value

end Calculator

end Reckoner
