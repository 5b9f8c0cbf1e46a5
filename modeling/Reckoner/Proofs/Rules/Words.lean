import Mathlib.Data.BitVec
import Mathlib.Tactic.Ring
import Reckoner.Proofs.Number.Rounding
import Reckoner.Rules.Basic

/-!
# The integer rules

The integer rules read numbers as words, work on these, and write the word that comes out as a
number.  A word is a whole number of at most 32 bits, so it is written exactly, and one half more
than it is exact as well; so what is read again is the same word (`Number.toWord_ofWord`).  The
way over numbers between two rules can therefore be left out: rules inside of one another do what
the operations on words do (`WordNest.exists_value`).

`WordOperation.run` are the operations on integers in two's complement, and `WordOperation.bit`
tells them bit by bit.  Shift counts are integers modulo 32, negative ones included
(`WordOperation.count`).
-/

namespace Reckoner

/-! ## Words as numbers -/

theorem Word.bounds (a : Word) : -2147483648 ≤ a.toInt ∧ a.toInt ≤ 2147483647 := by
  have hlow : -2 ^ 31 ≤ a.toInt := a.le_toInt
  have hhigh : a.toInt < 2 ^ 31 := BitVec.toInt_lt
  omega

/-- A word in range stays. -/
theorem Word.clamp_toInt (a : Word) : Word.clamp a.toInt = a := by
  obtain ⟨hlow, hhigh⟩ := a.bounds
  rw [clamp, if_neg (by omega), if_neg (by omega), BitVec.ofInt_toInt]

namespace Number

/-- A whole number of at most 53 bits is a number of the format. -/
theorem ofInt_eq_finite {i : Int} (hi : i.natAbs < Nat.pow 2 53) :
    ofInt i = finite (decide (i < 0)) (i.natAbs * unitsPerOne) (representable_whole hi) :=
  ofRatio_eq_finite _ (nearestUnits_one (representable_whole hi))

theorem signed_natAbs (i : Int) : signed (decide (i < 0)) i.natAbs = i := by
  unfold signed
  by_cases hneg : i < 0
  · rw [if_pos (decide_eq_true hneg)]
    omega
  · rw [if_neg (by simpa using hneg)]
    omega

theorem signed_mul (negative : Bool) (m n : Nat) :
    signed negative (m * n) = signed negative m * n := by
  cases negative <;> simp [signed]

/-- The rank of a whole number is what it says. -/
theorem rank_ofInt {i : Int} (hi : i.natAbs < Nat.pow 2 53) :
    (ofInt i).rank = some (i * unitsPerOne) := by
  rw [ofInt_eq_finite hi]
  show some (signed _ _) = _
  rw [signed_mul, signed_natAbs]

/-- A sum that is a number of the format is not rounded. -/
theorem rank_ofSum {bothNegative : Bool} {sum : Int} (hsum : sum ≠ 0)
    (hunits : Representable sum.natAbs) : (ofSum bothNegative sum 1).rank = some sum := by
  rw [ofSum, if_neg hsum, ofRatio_eq_finite hunits (nearestUnits_one hunits)]
  show some (signed _ _) = _
  rw [signed_natAbs]

/-- The number of units in one half. -/
def unitsPerHalf : Nat := Nat.pow 2 (unitExponent - 1)

theorem unitsPerOne_eq_two_mul : unitsPerOne = 2 * unitsPerHalf := by
  decide +kernel

theorem unitsPerHalf_pos : 0 < unitsPerHalf := by
  decide +kernel

theorem representable_halves {n : Nat} (hn : n < Nat.pow 2 53) :
    Representable (n * unitsPerHalf) := by
  have hlimit : Nat.pow 2 53 * unitsPerHalf ≤ unitLimit := by decide +kernel
  have hlt : n * unitsPerHalf < Nat.pow 2 53 * unitsPerHalf :=
    Nat.mul_lt_mul_of_pos_right hn unitsPerHalf_pos
  have hgrid : gridAt (n * unitsPerHalf) ∣ n * unitsPerHalf := by
    unfold unitsPerHalf
    exact gridAt_dvd_shift hn _
  exact ⟨Nat.lt_of_lt_of_le hlt hlimit, hgrid⟩

theorem representable_half : Representable unitsPerHalf := by
  rw [← Nat.one_mul unitsPerHalf]
  exact representable_halves (by decide)

theorem half_eq_finite : ∃ hunits, half = finite false unitsPerHalf hunits := by
  refine ⟨representable_half, ofRatio_eq_finite representable_half ?_⟩
  have hdouble (n : Nat) : nearestUnits (2 * n) 2 = nearestUnits n 1 :=
    nearestUnits_congr (by decide) (by decide) (by omega)
  rw [unitsPerOne_eq_two_mul, hdouble, nearestUnits_one representable_half]

/-- Half an odd number is not rounded. -/
theorem rank_add_half {i : Int} (hi : i.natAbs < Nat.pow 2 51) :
    (add (ofInt i) half).rank = some ((2 * i + 1) * unitsPerHalf) := by
  obtain ⟨hunits, hhalf⟩ := half_eq_finite
  have hwide : i.natAbs < Nat.pow 2 53 := Nat.lt_trans hi (by decide)
  have hsum : signed (decide (i < 0)) (i.natAbs * unitsPerOne) + signed false unitsPerHalf =
      (2 * i + 1) * unitsPerHalf := by
    rw [signed_mul, signed_natAbs, unitsPerOne_eq_two_mul]
    simp only [signed, Bool.false_eq_true, if_false]
    push_cast
    ring
  rw [ofInt_eq_finite hwide, hhalf, add, hsum]
  have hodd : (2 * i + 1).natAbs < Nat.pow 2 53 := by
    have : Nat.pow 2 53 = 4 * Nat.pow 2 51 := by decide
    omega
  have habs : ((2 * i + 1) * (unitsPerHalf : Int)).natAbs = (2 * i + 1).natAbs * unitsPerHalf := by
    rw [Int.natAbs_mul, Int.natAbs_natCast]
  apply rank_ofSum
  · have hpos := unitsPerHalf_pos
    exact mul_ne_zero (by omega) (by omega)
  · rw [habs]
    exact representable_halves hodd

theorem floor_add_half {i : Int} (hi : i.natAbs < Nat.pow 2 51) :
    floor (add (ofInt i) half) = i := by
  have hpos : (0 : Int) < unitsPerHalf := by exact_mod_cast unitsPerHalf_pos
  have hdouble : (unitsPerOne : Int) = 2 * unitsPerHalf := by exact_mod_cast unitsPerOne_eq_two_mul
  rw [floor, rank_add_half hi]
  calc ((2 * i + 1) * (unitsPerHalf : Int)).fdiv unitsPerOne
      = ((2 * i + 1) * (unitsPerHalf : Int)) / (2 * unitsPerHalf) := by
        rw [hdouble, Int.fdiv_eq_ediv_of_nonneg _ (by omega)]
    _ = (2 * i + 1) / 2 := Int.mul_ediv_mul_of_pos_left _ _ hpos
    _ = i := by omega

theorem natAbs_toInt_lt (a : Word) {bits : Nat} (hbits : 32 ≤ bits) :
    a.toInt.natAbs < Nat.pow 2 bits := by
  obtain ⟨hlow, hhigh⟩ := a.bounds
  have hpow : Nat.pow 2 32 ≤ Nat.pow 2 bits := Nat.pow_le_pow_right two_pos hbits
  have hwide : 2147483648 < Nat.pow 2 32 := by decide
  omega

theorem rank_ofWord (a : Word) : (ofWord a).rank = some (a.toInt * unitsPerOne) :=
  rank_ofInt (natAbs_toInt_lt a (by decide))

theorem isNaN_ofWord (a : Word) : (ofWord a).isNaN = false := by
  rw [ofWord, ofInt_eq_finite (natAbs_toInt_lt a (by decide))]
  rfl

/-- A word comes back from its number. -/
theorem toWord_ofWord (a : Word) : (ofWord a).toWord = a := by
  rw [toWord, ofWord, floor_add_half (natAbs_toInt_lt a (by decide)), Word.clamp_toInt]

end Number

/-! ## Operations on words -/

/-- The operations of the integer rules with two operands. -/
inductive WordOperation
  | and
  | or
  | xor
  | nand
  | nor
  | shiftUp
  | shiftDownSigned
  | shiftDownUnsigned

namespace WordOperation

def rule : WordOperation → BinaryRule
  | and => Rules.bitAnd
  | or => Rules.bitOr
  | xor => Rules.bitXor
  | nand => Rules.bitNand
  | nor => Rules.bitNor
  | shiftUp => Rules.shiftUp
  | shiftDownSigned => Rules.shiftDownSigned
  | shiftDownUnsigned => Rules.shiftDownUnsigned

/-- How far a shift goes: what remains of the integer modulo 32, never less than zero. -/
def count (b : Word) : Nat := (b.toInt % 32).toNat

/-- The operation on integers in two's complement. -/
def run : WordOperation → Word → Word → Word
  | and, a, b => a &&& b
  | or, a, b => a ||| b
  | xor, a, b => a ^^^ b
  | nand, a, b => ~~~(a &&& b)
  | nor, a, b => ~~~(a ||| b)
  | shiftUp, a, b => a <<< count b
  | shiftDownSigned, a, b => a.sshiftRight (count b)
  | shiftDownUnsigned, a, b => a >>> count b

/-- The bits of the result, the lowest of which has the number 0. -/
def bit : WordOperation → Word → Word → Nat → Bool
  | and, a, b, k => a.getLsbD k && b.getLsbD k
  | or, a, b, k => a.getLsbD k || b.getLsbD k
  | xor, a, b, k => a.getLsbD k != b.getLsbD k
  | nand, a, b, k => !(a.getLsbD k && b.getLsbD k)
  | nor, a, b, k => !(a.getLsbD k || b.getLsbD k)
  | shiftUp, a, b, k => if count b ≤ k then a.getLsbD (k - count b) else false
  | shiftDownSigned, a, b, k =>
    if k + count b < 32 then a.getLsbD (k + count b) else decide (a.toInt < 0)
  | shiftDownUnsigned, a, b, k => if k + count b < 32 then a.getLsbD (k + count b) else false

/-- Negative counts leave the same remainder as their bits without a sign. -/
theorem count_eq (b : Word) : count b = b.toNat % 32 := by
  unfold count
  rw [BitVec.toInt_eq_toNat_cond]
  split <;> omega

theorem getLsbD_run (operation : WordOperation) (a b : Word) {k : Nat} (hk : k < 32) :
    (operation.run a b).getLsbD k = operation.bit a b k := by
  cases operation with
  | and => exact BitVec.getLsbD_and
  | or => exact BitVec.getLsbD_or
  | xor => simp [run, bit]
  | nand => simp [run, bit, hk]
  | nor => simp [run, bit, hk]
  | shiftUp =>
      simp only [run, bit, BitVec.getLsbD_shiftLeft]
      by_cases hle : count b ≤ k
      · simp [hk, hle]
      · simp [hle]
  | shiftDownSigned =>
      rw [run, bit, BitVec.getLsbD_sshiftRight, BitVec.msb_eq_toInt, Nat.add_comm k]
      simp [Nat.not_le.mpr hk]
  | shiftDownUnsigned =>
      rw [run, bit, BitVec.getLsbD_ushiftRight, Nat.add_comm k]
      by_cases hlt : count b + k < 32
      · rw [if_pos hlt]
      · rw [if_neg hlt, BitVec.getLsbD_of_ge _ _ (Nat.not_lt.mp hlt)]

theorem rule_eq_onWords (operation : WordOperation) :
    operation.rule = Rules.onWords operation.run := by
  have hcount (f : Word → Nat → Word) :
      (fun a b : Word => f a (b.toNat % 32)) = fun a b => f a (count b) := by
    funext a b
    rw [count_eq]
  cases operation with
  | and | or | xor | nand | nor => rfl
  | shiftUp => exact congrArg Rules.onWords (hcount fun a n => a <<< n)
  | shiftDownSigned => exact congrArg Rules.onWords (hcount fun a n => a.sshiftRight n)
  | shiftDownUnsigned => exact congrArg Rules.onWords (hcount fun a n => a >>> n)

/-- What a rule does with defined operands is done on their words. -/
theorem rule_eq (operation : WordOperation) {x y : Number} (hx : x.isNaN = false)
    (hy : y.isNaN = false) :
    operation.rule x y = .ok (.ofWord (operation.run x.toWord y.toWord)) := by
  rw [rule_eq_onWords, Rules.onWords, hx, hy, if_neg (by decide)]

end WordOperation

theorem Rules.bitNot_eq {x : Number} (hx : x.isNaN = false) :
    Rules.bitNot [x] = .ok (.ofWord (~~~x.toWord)) := by
  simp [bitNot, argument, hx, bind, Except.bind, pure, Except.pure]

/-! ## Nestings -/

/-- Integer rules inside of one another. -/
inductive WordNest
  | operand (x : Number)
  | complement (inner : WordNest)
  | combine (operation : WordOperation) (left right : WordNest)

namespace WordNest

/-- No operand is undefined. -/
def Defined : WordNest → Prop
  | operand x => x.isNaN = false
  | complement inner => inner.Defined
  | combine _ left right => left.Defined ∧ right.Defined

/-- The result of the rules. -/
def value : WordNest → Except Rejection Number
  | operand x => .ok x
  | complement inner => do
    let x ← inner.value
    Rules.bitNot [x]
  | combine operation left right => do
    let x ← left.value
    let y ← right.value
    operation.rule x y

/-- The result of the operations on the words of the operands. -/
def word : WordNest → Word
  | operand x => x.toWord
  | complement inner => ~~~inner.word
  | combine operation left right => operation.run left.word right.word

/-- Between two rules a word is written as a number and read again, and that changes nothing. -/
theorem exists_value {nest : WordNest} (hdefined : nest.Defined) :
    ∃ x, nest.value = .ok x ∧ x.isNaN = false ∧ x.toWord = nest.word ∧
      ((∀ operand, nest ≠ .operand operand) → x = .ofWord nest.word) := by
  induction nest with
  | operand x => exact ⟨x, rfl, hdefined, rfl, fun hnest => absurd rfl (hnest x)⟩
  | complement inner ih =>
      obtain ⟨x, hx, hsome, hword, _⟩ := ih hdefined
      have hvalue : (complement inner).value = .ok (.ofWord (complement inner).word) := by
        rw [value, hx, word, ← hword]
        exact Rules.bitNot_eq hsome
      exact ⟨_, hvalue, Number.isNaN_ofWord _, Number.toWord_ofWord _, fun _ => rfl⟩
  | combine operation left right ihleft ihright =>
      obtain ⟨x, hx, hxsome, hxword, _⟩ := ihleft hdefined.1
      obtain ⟨y, hy, hysome, hyword, _⟩ := ihright hdefined.2
      have hvalue : (combine operation left right).value =
          .ok (.ofWord (combine operation left right).word) := by
        rw [value, hx, hy, word, ← hxword, ← hyword]
        exact operation.rule_eq hxsome hysome
      exact ⟨_, hvalue, Number.isNaN_ofWord _, Number.toWord_ofWord _, fun _ => rfl⟩

theorem value_eq {nest : WordNest} (hdefined : nest.Defined)
    (hrule : ∀ operand, nest ≠ .operand operand) : nest.value = .ok (.ofWord nest.word) := by
  obtain ⟨x, hx, _, _, hword⟩ := exists_value hdefined
  rw [hx, hword hrule]

end WordNest

/-! ## The result -/

/-- A rule gives a whole number in the range of words. -/
def IsWord (result : Except Rejection Number) : Prop :=
  ∃ i : Int, -2147483648 ≤ i ∧ i ≤ 2147483647 ∧ result = .ok (.ofInt i) ∧
    (Number.ofInt i).rank = some (i * unitsPerOne)

theorem isWord_ofWord (a : Word) : IsWord (.ok (.ofWord a)) :=
  ⟨a.toInt, a.bounds.1, a.bounds.2, rfl, Number.rank_ofWord a⟩

/-- What the integer rules do. -/
structure IntegerRules : Prop where
  /-- Words are represented exactly, and read back from their numbers. -/
  words (a : Word) :
    (Number.ofWord a).rank = some (a.toInt * unitsPerOne) ∧ (Number.ofWord a).toWord = a
  /-- On words a rule is its operation, bit for bit. -/
  exact (operation : WordOperation) (a b : Word) :
    operation.rule (.ofWord a) (.ofWord b) = .ok (.ofWord (operation.run a b)) ∧
      ∀ k < 32, (operation.run a b).getLsbD k = operation.bit a b k
  exact_complement (a : Word) :
    Rules.bitNot [.ofWord a] = .ok (.ofWord (~~~a)) ∧
      ∀ k < 32, (~~~a).getLsbD k = !a.getLsbD k
  /-- No defined operands lead out of the words. -/
  closed (operation : WordOperation) {x y : Number} (hx : x.isNaN = false)
    (hy : y.isNaN = false) : IsWord (operation.rule x y)
  closed_complement {x : Number} (hx : x.isNaN = false) : IsWord (Rules.bitNot [x])
  /-- Rules inside of one another are the operations on the words of their operands. -/
  nested {nest : WordNest} (hdefined : nest.Defined)
    (hrule : ∀ operand, nest ≠ .operand operand) : nest.value = .ok (.ofWord nest.word)
  nand_eq {x y : Number} (hx : x.isNaN = false) (hy : y.isNaN = false) :
    Rules.bitNand x y = do
      let both ← Rules.bitAnd x y
      Rules.bitNot [both]
  nor_eq {x y : Number} (hx : x.isNaN = false) (hy : y.isNaN = false) :
    Rules.bitNor x y = do
      let notFirst ← Rules.bitNot [x]
      let notSecond ← Rules.bitNot [y]
      Rules.bitAnd notFirst notSecond

/-- **The integer rules are exact on words and do not lead out of them**, for operands of any
size, infinities among them. -/
theorem integerRules : IntegerRules where
  words a := ⟨Number.rank_ofWord a, Number.toWord_ofWord a⟩
  exact operation a b := by
    refine ⟨?_, fun k hk => operation.getLsbD_run a b hk⟩
    rw [operation.rule_eq (Number.isNaN_ofWord a) (Number.isNaN_ofWord b), Number.toWord_ofWord,
      Number.toWord_ofWord]
  exact_complement a := by
    refine ⟨?_, fun k hk => by simp [hk]⟩
    rw [Rules.bitNot_eq (Number.isNaN_ofWord a), Number.toWord_ofWord]
  closed operation x y hx hy := by
    rw [operation.rule_eq hx hy]
    exact isWord_ofWord _
  closed_complement hx := by
    rw [Rules.bitNot_eq hx]
    exact isWord_ofWord _
  nested hdefined hrule := WordNest.value_eq hdefined hrule
  nand_eq := by
    intro x y hx hy
    have hand : Rules.bitAnd x y = .ok (.ofWord (x.toWord &&& y.toWord)) :=
      WordOperation.and.rule_eq hx hy
    have hnot := Rules.bitNot_eq (Number.isNaN_ofWord (x.toWord &&& y.toWord))
    rw [Number.toWord_ofWord] at hnot
    rw [hand]
    exact (WordOperation.nand.rule_eq hx hy).trans hnot.symm
  nor_eq := by
    intro x y hx hy
    have hand := WordOperation.and.rule_eq (Number.isNaN_ofWord (~~~x.toWord))
      (Number.isNaN_ofWord (~~~y.toWord))
    rw [Number.toWord_ofWord, Number.toWord_ofWord, WordOperation.run, ← BitVec.not_or] at hand
    rw [Rules.bitNot_eq hx, Rules.bitNot_eq hy]
    exact (WordOperation.nor.rule_eq hx hy).trans hand.symm

/-- A shift by a negative count that ends in the sign, and operands beyond the words. -/
theorem integerRules_ends :
    Rules.shiftUp (.ofWord 1) (.ofWord (-1)) = .ok (.ofWord (-2147483648)) ∧
      IsWord (Rules.bitNor (.infinite true) .half) := by
  have hrun : WordOperation.shiftUp.run 1 (-1) = -2147483648 := by decide
  have hexact := (integerRules.exact .shiftUp 1 (-1)).1
  rw [hrun] at hexact
  have hhalf : Number.half.isNaN = false := by decide +kernel
  exact ⟨hexact, integerRules.closed .nor rfl hhalf⟩

end Reckoner
