import Reckoner.Number.Integer
import Reckoner.Number.Power
import Reckoner.Registry.Definition

/-!
# Rules

The rules that operators and functions can be given by name.  Arithmetic and
comparison work on binary64 numbers; a quotient or remainder with a zero divisor
is undefined.  The integer rules work on 32-bit integers, and an undefined
operand makes their result undefined.
-/

namespace Reckoner.Rules

/-! ## Arithmetic -/

def add : BinaryRule := fun x y => .ok (x.add y)

def subtract : BinaryRule := fun x y => .ok (x.subtract y)

def multiply : BinaryRule := fun x y => .ok (x.multiply y)

/-- The quotient, undefined for a zero divisor. -/
def divide : BinaryRule := fun x y => .ok (if y.isZero then .nan else x.divide y)

/-- The remainder with the sign of the dividend, undefined for a zero
divisor. -/
def remainder : BinaryRule := fun x y => .ok (if y.isZero then .nan else x.remainder y)

def power : BinaryRule := fun x y => .ok (x.power y)

def identity : UnaryRule := fun x => .ok x

def negate : UnaryRule := fun x => .ok x.negate

/-- The product of the numbers from 1 to `n`, taken in ascending order. -/
def factorialOf : (n : Nat) → Number
  | 0 => .one
  | n + 1 => (factorialOf n).multiply (.ofInt (n + 1))

/-- The largest argument with a finite factorial. -/
def maxFactorial : Nat := 170

/-- Whether a number is finite and not whole. -/
def isFractional : Number → Bool
  | .finite _ units _ => !Number.isWhole units
  | _ => false

/-- The factorial, of a number that is neither negative nor fractional. -/
def factorial : UnaryRule := fun x =>
  if x.isNaN then .ok .nan
  else if x.less .zero || isFractional x then .error (.notNatural x)
  else if (Number.ofInt maxFactorial).less x then .ok (.infinite false)
  else .ok (factorialOf x.floor.toNat)

/-! ## Comparison -/

/-- One if a condition holds, and zero otherwise. -/
def truth (condition : Bool) : Number :=
  if condition then .one else .zero

def equals : BinaryRule := fun x y => .ok (truth (x.equals y))

def greater : BinaryRule := fun x y => .ok (truth (y.less x))

def greaterOrEqual : BinaryRule := fun x y => .ok (truth (y.lessOrEqual x))

def less : BinaryRule := fun x y => .ok (truth (x.less y))

def lessOrEqual : BinaryRule := fun x y => .ok (truth (x.lessOrEqual y))

/-! ## Integers -/

/-- An operation on words as a rule. -/
def onWords (operation : Word → Word → Word) : BinaryRule := fun x y =>
  .ok (if x.isNaN || y.isNaN then .nan else .ofWord (operation x.toWord y.toWord))

def bitAnd : BinaryRule := onWords (fun a b => a &&& b)

def bitOr : BinaryRule := onWords (fun a b => a ||| b)

def bitXor : BinaryRule := onWords (fun a b => a ^^^ b)

def bitNand : BinaryRule := onWords (fun a b => ~~~(a &&& b))

def bitNor : BinaryRule := onWords (fun a b => ~~~(a ||| b))

def shiftUp : BinaryRule := onWords Word.shiftUp

/-- The bits shifted down behind copies of the sign. -/
def shiftDownSigned : BinaryRule := onWords Word.shiftDownSigned

/-- The bits shifted down behind zeros. -/
def shiftDownUnsigned : BinaryRule := onWords Word.shiftDownUnsigned

/-! ## Functions -/

def argument (args : List Number) (index : Nat) : Except Rejection Number :=
  match args[index]? with
  | some x => .ok x
  | none => .error (.missingArgument index)

def magnitude : FunctionRule := fun args => do
  let x ← argument args 0
  return x.magnitude

def bitNot : FunctionRule := fun args => do
  let x ← argument args 0
  return if x.isNaN then .nan else .ofWord (~~~x.toWord)

def smaller : FunctionRule := fun args => do
  let x ← argument args 0
  let y ← argument args 1
  return x.min y

def larger : FunctionRule := fun args => do
  let x ← argument args 0
  let y ← argument args 1
  return x.max y

end Reckoner.Rules
