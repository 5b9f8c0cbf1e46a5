import Reckoner.Config.Basic
import Reckoner.Registry.Standard

/-!
# The standard table as data

The configuration that describes the standard table.
-/

namespace Reckoner.Config

/-- The entry of a binary operator that groups to the left. -/
def leftEntry (aliases : List String) (precedence : Precedence) (rule : String) : BinaryEntry :=
  ⟨aliases.map String.toList, precedence, .left, rule.toList⟩

def standardBinary : List BinaryEntry := [
  leftEntry ["=="] .comparison "eq",
  leftEntry [">"] .comparison "gt",
  leftEntry [">="] .comparison "ge",
  leftEntry ["<"] .comparison "lt",
  leftEntry ["<="] .comparison "le",
  leftEntry ["and"] .bitwise "and",
  leftEntry ["or"] .bitwise "or",
  leftEntry ["xor"] .bitwise "xor",
  leftEntry ["nand"] .bitwise "nand",
  leftEntry ["nor"] .bitwise "nor",
  leftEntry [">>"] .shift "shr",
  leftEntry ["<<"] .shift "shl",
  leftEntry [">>>"] .shift "ushr",
  leftEntry ["+", "plus"] .additive "add",
  leftEntry ["-", "minus"] .additive "sub",
  leftEntry ["*", "x", "mul", "times"] .multiplicative "mul",
  leftEntry ["/", "div"] .multiplicative "div",
  leftEntry ["%", "mod", "rem"] .multiplicative "rem",
  ⟨["^".toList, "pow".toList], .power, .right, "pow".toList⟩]

def standardUnary : List UnaryEntry := [
  ⟨["+".toList], .prefixed, .unary, "identity".toList⟩,
  ⟨["-".toList], .prefixed, .unary, "neg".toList⟩,
  ⟨["!".toList], .postfixed, .unary, "factorial".toList⟩]

def standardFunctions : List FunctionEntry := [
  ⟨"abs".toList, none⟩,
  ⟨"not".toList, none⟩,
  ⟨"min".toList, none⟩,
  ⟨"max".toList, none⟩]

def standard : Config :=
  ⟨standardBinary, standardUnary, standardFunctions⟩

end Reckoner.Config
