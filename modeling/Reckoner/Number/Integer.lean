import Reckoner.Number.Arithmetic

/-!
# 32-bit integers

The integer rules read their operands as 32-bit integers in two's complement.
An operand is rounded by adding one half and taking the floor, where the
addition is one of binary64 numbers; what lies beyond the range takes the
nearest end of it.  Shift counts are taken modulo 32.
-/

namespace Reckoner

/-- A 32-bit integer in two's complement. -/
abbrev Word := BitVec 32

namespace Word

/-- The word nearest to a whole number. -/
def clamp (i : Int) : Word :=
  BitVec.ofInt 32
    (if i < -2147483648 then -2147483648 else if 2147483647 < i then 2147483647 else i)

/-- The bits shifted up, zeros following. -/
def shiftUp (a count : Word) : Word :=
  a <<< (count.toNat % 32)

/-- The bits shifted down, copies of the sign following. -/
def shiftDownSigned (a count : Word) : Word :=
  a.sshiftRight (count.toNat % 32)

/-- The bits shifted down, zeros following. -/
def shiftDownUnsigned (a count : Word) : Word :=
  a >>> (count.toNat % 32)

end Word

namespace Number

/-- The largest whole number up to a finite number; for an infinity the limit
of the finite numbers, and zero for the undefined number. -/
def floor (x : Number) : Int :=
  match x.rank with
  | none => 0
  | some units => units.fdiv unitsPerOne

/-- The word that an operand of an integer rule stands for. -/
def toWord (x : Number) : Word :=
  Word.clamp (floor (add x half))

def ofWord (a : Word) : Number :=
  ofInt a.toInt

end Number

end Reckoner
