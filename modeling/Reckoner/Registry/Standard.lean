import Reckoner.Registry.Basic
import Reckoner.Rules.Basic

/-!
# The standard table

The operators and functions of an ordinary calculator:

| level | binary operators                     |
|-------|--------------------------------------|
| 0     | `==` `>` `>=` `<` `<=`               |
| 1     | `and` `or` `xor` `nand` `nor`        |
| 2     | `>>` `<<` `>>>`                      |
| 3     | `+` `plus`, `-` `minus`              |
| 4     | `*` `x` `mul` `times`, `/` `div`, `%` `mod` `rem` |
| 5     | `^` `pow`, which groups to the right |

The prefix operators `+` and `-` and the postfix operator `!` stand on level 6.
The functions are `abs`, `not`, `min` and `max`.
-/

namespace Reckoner

namespace Precedence

/-! ## Levels -/

def comparison : Precedence := ⟨0, by decide⟩

def bitwise : Precedence := ⟨1, by decide⟩

def shift : Precedence := ⟨2, by decide⟩

def additive : Precedence := ⟨3, by decide⟩

def multiplicative : Precedence := ⟨4, by decide⟩

def power : Precedence := ⟨5, by decide⟩

def unary : Precedence := ⟨6, by decide⟩

end Precedence

def standardBinary : List BinaryOperator := [
  ⟨["==".toList], .comparison, .left, Rules.equals⟩,
  ⟨[">".toList], .comparison, .left, Rules.greater⟩,
  ⟨[">=".toList], .comparison, .left, Rules.greaterOrEqual⟩,
  ⟨["<".toList], .comparison, .left, Rules.less⟩,
  ⟨["<=".toList], .comparison, .left, Rules.lessOrEqual⟩,
  ⟨["and".toList], .bitwise, .left, Rules.bitAnd⟩,
  ⟨["or".toList], .bitwise, .left, Rules.bitOr⟩,
  ⟨["xor".toList], .bitwise, .left, Rules.bitXor⟩,
  ⟨["nand".toList], .bitwise, .left, Rules.bitNand⟩,
  ⟨["nor".toList], .bitwise, .left, Rules.bitNor⟩,
  ⟨[">>".toList], .shift, .left, Rules.shiftDownSigned⟩,
  ⟨["<<".toList], .shift, .left, Rules.shiftUp⟩,
  ⟨[">>>".toList], .shift, .left, Rules.shiftDownUnsigned⟩,
  ⟨["+".toList, "plus".toList], .additive, .left, Rules.add⟩,
  ⟨["-".toList, "minus".toList], .additive, .left, Rules.subtract⟩,
  ⟨["*".toList, "x".toList, "mul".toList, "times".toList], .multiplicative, .left,
    Rules.multiply⟩,
  ⟨["/".toList, "div".toList], .multiplicative, .left, Rules.divide⟩,
  ⟨["%".toList, "mod".toList, "rem".toList], .multiplicative, .left, Rules.remainder⟩,
  ⟨["^".toList, "pow".toList], .power, .right, Rules.power⟩]

def standardUnary : List UnaryOperator := [
  ⟨["+".toList], .prefixed, .unary, Rules.identity⟩,
  ⟨["-".toList], .prefixed, .unary, Rules.negate⟩,
  ⟨["!".toList], .postfixed, .unary, Rules.factorial⟩]

def standardFunctions : List Function := [
  ⟨"abs".toList, 1, Rules.magnitude⟩,
  ⟨"not".toList, 1, Rules.bitNot⟩,
  ⟨"min".toList, 2, Rules.smaller⟩,
  ⟨"max".toList, 2, Rules.larger⟩]

def standardDefinitions : List Definition :=
  standardBinary.map .binary ++ standardUnary.map .unary ++ standardFunctions.map .function

def Registry.standard : Registry :=
  standardDefinitions.foldl Registry.insert .empty

end Reckoner
