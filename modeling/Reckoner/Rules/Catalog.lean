import Reckoner.Rules.Basic

/-!
# The catalog of rules

The names by which tables ask for rules.  Rule names are compared in lower case.
A function rule comes with the number of arguments it takes.
-/

namespace Reckoner.Catalog

def binaryRules : List (Text × BinaryRule) := [
  ("add".toList, Rules.add),
  ("sub".toList, Rules.subtract),
  ("mul".toList, Rules.multiply),
  ("div".toList, Rules.divide),
  ("rem".toList, Rules.remainder),
  ("pow".toList, Rules.power),
  ("eq".toList, Rules.equals),
  ("gt".toList, Rules.greater),
  ("ge".toList, Rules.greaterOrEqual),
  ("lt".toList, Rules.less),
  ("le".toList, Rules.lessOrEqual),
  ("and".toList, Rules.bitAnd),
  ("or".toList, Rules.bitOr),
  ("xor".toList, Rules.bitXor),
  ("nand".toList, Rules.bitNand),
  ("nor".toList, Rules.bitNor),
  ("shl".toList, Rules.shiftUp),
  ("shr".toList, Rules.shiftDownSigned),
  ("ushr".toList, Rules.shiftDownUnsigned)]

def unaryRules : List (Text × UnaryRule) := [
  ("identity".toList, Rules.identity),
  ("neg".toList, Rules.negate),
  ("factorial".toList, Rules.factorial)]

/-- The rules for functions, each with its number of arguments. -/
def functionRules : List (Text × Nat × FunctionRule) := [
  ("abs".toList, 1, Rules.magnitude),
  ("not".toList, 1, Rules.bitNot),
  ("min".toList, 2, Rules.smaller),
  ("max".toList, 2, Rules.larger)]

def binaryRule? (name : Text) : Option BinaryRule :=
  binaryRules.lookup (lower name)

def unaryRule? (name : Text) : Option UnaryRule :=
  unaryRules.lookup (lower name)

/-- The rule of a name for a function, with its number of arguments. -/
def functionRule? (name : Text) : Option (Nat × FunctionRule) :=
  functionRules.lookup (lower name)

end Reckoner.Catalog
