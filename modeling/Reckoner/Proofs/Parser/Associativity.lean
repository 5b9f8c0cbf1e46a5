import Reckoner.Expr.Equality
import Reckoner.Proofs.Parser.RoundTrip
import Reckoner.Proofs.Registry.History

/-!
# Associativity

Numbers with operators of one precedence between them are read as a tree that leans to one side.
Which side it is depends on the right operand of the operators: it may take an operator of the same
level or it may not.

* Where it may not, every operand is a number alone and the chain takes one after the other
  (`IsRow.reads_leftNested`).
* Where it may, the right operand of the first operator takes all that follows
  (`IsRow.reads_rightNested`).

An operator that groups to the right lets its own level into its right operand.  One that groups to
the left asks for a level more, unless its own is the highest.  Then there is no level more, so such
an operator groups to the right as well.
-/

namespace Reckoner

/-! ## Rows of numbers -/

/-- A binary operator and the number behind it. -/
structure Operation where
  op : Text
  value : Number

namespace Operation

def tokens (row : List Operation) : List Token :=
  row.flatMap fun operation => [.operator operation.op, .number operation.value]

/-- Each operator has all that stands in front of it as its left operand. -/
def leftNested (first : Expr) (row : List Operation) : Expr :=
  row.foldl (fun left operation => .binary left operation.op (.number operation.value)) first

/-- Each operator has all that stands behind it as its right operand. -/
def rightNested (first : Number) : List Operation → Expr
  | [] => .number first
  | operation :: row => .binary (.number first) operation.op (rightNested operation.value row)

theorem depth_leftNested (first : Expr) (row : List Operation) :
    (leftNested first row).depth = first.depth + row.length := by
  induction row generalizing first with
  | nil => rfl
  | cons operation row ih =>
    have hpos := first.depth_pos
    have hstep : (Expr.binary first operation.op (.number operation.value)).depth =
        first.depth + 1 := by
      simp only [Expr.depth]
      omega
    rw [leftNested, List.foldl_cons, ← leftNested, ih, hstep, List.length_cons]
    omega

theorem depth_rightNested (first : Number) (row : List Operation) :
    (rightNested first row).depth = row.length + 1 := by
  induction row generalizing first with
  | nil => rfl
  | cons operation row ih =>
    simp only [rightNested, Expr.depth, ih, List.length_cons]
    omega

end Operation

namespace Registry

open Operation

variable {registry : Registry} {level minimum : Int} {associativity : Associativity}
  {row : List Operation}

/-- The operators of a row are binary ones of one level and one associativity, and none is a
postfix operator too. -/
def IsRow (registry : Registry) (level : Int) (associativity : Associativity)
    (row : List Operation) : Prop :=
  ∀ operation ∈ row, ¬ registry.IsPostfix (.operator operation.op) ∧
    ∃ operator, registry.findBinary? operation.op = some operator ∧
      operator.precedence.level = level ∧ operator.associativity = associativity

/-- Where a number ends: an operator of the level follows, or the end of input. -/
theorem IsRow.exists_head (hrow : registry.IsRow level associativity row) :
    ∃ token rest, Operation.tokens row ++ [.endOfInput] = token :: rest ∧
      ¬ registry.IsPostfix token ∧
        ∀ minimum, level < minimum → ¬ registry.IsBinary minimum token := by
  cases row with
  | nil =>
    exact ⟨_, _, rfl, not_isPostfix_of_ne (by simp), fun _ _ => not_isBinary_of_ne (by simp)⟩
  | cons operation row =>
    obtain ⟨hapart, operator, hfind, rfl, _⟩ := hrow operation List.mem_cons_self
    refine ⟨_, _, rfl, hapart, fun minimum hlt => ?_⟩
    rintro ⟨_, operator', ⟨⟩, hfind', hle⟩
    obtain rfl := Option.some.inj (hfind.symm.trans hfind')
    omega

/-- A number takes nothing of the row behind it. -/
theorem IsRow.reads_number (hrow : registry.IsRow level associativity row) (budget : Nat)
    (value : Number) :
    registry.Reads budget (.primary (.number value))
      (.number value :: (Operation.tokens row ++ [.endOfInput]))
      (Operation.tokens row ++ [.endOfInput]) := by
  obtain ⟨token, rest, htokens, hapart, _⟩ := hrow.exists_head
  rw [htokens]
  exact .primary .number (.postfixesEnd hapart)

/-! ## Leaning to the left -/

/-- **A chain that grows to the left.**  Where no right operand takes an operator of the level, the
chain takes one number after the other. -/
theorem IsRow.reads_leftNested (hrow : registry.IsRow level .left row) (hlevel : minimum ≤ level)
    (hbelow : level < maxPrecedence) {budget : Nat} (hbudget : row.length ≤ budget)
    (first : Expr) :
    registry.Reads budget (.chain minimum first (leftNested first row))
      (Operation.tokens row ++ [.endOfInput]) [.endOfInput] := by
  induction row generalizing first with
  | nil => exact .chainEnd (not_isBinary_of_ne (by simp))
  | cons operation row ih =>
    obtain ⟨⟨_, operator, hfind, rfl, hleft⟩, htail⟩ := List.forall_mem_cons.mp hrow
    obtain ⟨token, rest, htokens, _, hbinary⟩ := IsRow.exists_head htail
    obtain ⟨budget, rfl⟩ : ∃ fewer, budget = fewer + 1 := ⟨budget - 1, by simp at hbudget; omega⟩
    have hopen : operator.precedence.level < operator.rightMinimum := by
      simp only [BinaryOperator.rightMinimum, hleft]
      omega
    have hright : registry.Reads (budget + 1)
        (.expression operator.rightMinimum (.number operation.value))
        (.number operation.value :: (Operation.tokens row ++ [.endOfInput]))
        (Operation.tokens row ++ [.endOfInput]) := by
      refine .expression (IsRow.reads_number htail budget operation.value) ?_
      rw [htokens]
      exact .chainEnd (hbinary _ hopen)
    exact .chain hfind hlevel hright
      (ih htail (Nat.le_of_succ_le hbudget) (.binary first operation.op (.number operation.value)))

/-! ## Leaning to the right -/

/-- **An expression that grows to the right.**  Where each right operand takes an operator of the
level, the one of the first operator takes the whole row behind it. -/
theorem IsRow.reads_rightNested (hrow : registry.IsRow level associativity row)
    (hlevel : minimum ≤ level) (hside : associativity = .right ∨ level = maxPrecedence)
    {budget : Nat} (hbudget : row.length < budget) (first : Number) :
    registry.Reads budget (.expression minimum (rightNested first row))
      (.number first :: (Operation.tokens row ++ [.endOfInput])) [.endOfInput] := by
  induction row generalizing first minimum budget with
  | nil =>
    obtain ⟨budget, rfl⟩ : ∃ fewer, budget = fewer + 1 := ⟨budget - 1, by omega⟩
    exact .expression (hrow.reads_number budget first) (.chainEnd (not_isBinary_of_ne (by simp)))
  | cons operation row ih =>
    obtain ⟨⟨_, operator, hfind, rfl, rfl⟩, htail⟩ := List.forall_mem_cons.mp hrow
    obtain ⟨budget, rfl⟩ : ∃ fewer, budget = fewer + 1 := ⟨budget - 1, by omega⟩
    have hopen : operator.rightMinimum = operator.precedence.level := by
      unfold BinaryOperator.rightMinimum
      split
      · next hleft =>
        have hhighest := hside.resolve_left (by simp [hleft])
        omega
      · rfl
    have hright : registry.Reads budget (.expression operator.rightMinimum
        (rightNested operation.value row))
        (.number operation.value :: (Operation.tokens row ++ [.endOfInput])) [.endOfInput] :=
      ih htail (Int.le_of_eq hopen) (Nat.lt_of_succ_lt_succ hbudget) operation.value
    exact .expression (hrow.reads_number budget first)
      (.chain hfind hlevel hright (.chainEnd (not_isBinary_of_ne (by simp))))

/-! ## Whole texts -/

/-- **Associativity.**  Where the lexer splits a text into numbers with binary operators of one
level, not below zero, between them, the tree leans to the left if they group to the left and the
level is below the highest one, and to the right if they group to the right.  With the highest level
it leans to the right in any case. -/
theorem parse_row (hreach : registry.Reachable) {limit : Nat} {source : Text}
    {lexemes : List Lexeme} (hlexes : registry.Tokenizes source lexemes) {first : Number}
    (htokens : lexemes.map (·.token) = .number first :: Operation.tokens row)
    (hrow : registry.IsRow level associativity row) (hlevel : 0 ≤ level)
    (hlimit : row.length < limit) :
    (associativity = .left → level < maxPrecedence →
      registry.parse limit source = .ok (leftNested (.number first) row)) ∧
    (associativity = .right ∨ level = maxPrecedence →
      registry.parse limit source = .ok (rightNested first row)) := by
  obtain ⟨budget, rfl⟩ : ∃ fewer, limit = fewer + 1 := ⟨limit - 1, by omega⟩
  constructor
  · rintro rfl hbelow
    have hreads : registry.Reads (budget + 1) (.expression 0 (leftNested (.number first) row))
        (.number first :: (Operation.tokens row ++ [.endOfInput])) [.endOfInput] :=
      .expression (hrow.reads_number budget first)
        (hrow.reads_leftNested hlevel hbelow (by omega) (.number first))
    refine (parse_eq_ok_iff hreach).mpr ⟨lexemes, hlexes, htokens ▸ hreads, ?_⟩
    rw [depth_leftNested]
    simp only [Expr.depth]
    omega
  · intro hside
    refine (parse_eq_ok_iff hreach).mpr
      ⟨lexemes, hlexes, htokens ▸ hrow.reads_rightNested hlevel hside hlimit first, ?_⟩
    rw [depth_rightNested]
    omega

/-- The tokens of `5 - 2 - 1` behind the first number. -/
def twoDifferences : List Operation :=
  [⟨"-".toList, .ofInt 2⟩, ⟨"-".toList, .ofInt 1⟩]

/-- A registry whose only operator has the level and groups to the left. -/
def withDifference (precedence : Precedence) : Registry :=
  after [.register (.binary ⟨["-".toList], precedence, .left, Rules.subtract⟩)]

theorem isRow_twoDifferences (precedence : Precedence) :
    (withDifference precedence).IsRow precedence.level .left twoDifferences := by
  have hapart : ¬ (withDifference precedence).IsPostfix (.operator "-".toList) := by
    rintro ⟨_, ⟨⟩, hsome⟩
    exact Bool.false_ne_true hsome
  have hfind : (withDifference precedence).findBinary? "-".toList =
      some ⟨["-".toList], precedence, .left, Rules.subtract⟩ := rfl
  refine List.forall_mem_cons.mpr ⟨⟨hapart, _, hfind, rfl, rfl⟩, ?_⟩
  exact List.forall_mem_singleton.mpr ⟨hapart, _, hfind, rfl, rfl⟩

/-- Differences lean to the left, up to the last level but one. -/
theorem parse_row_differences :
    let registry := withDifference ⟨2147483646, by decide⟩
    registry.IsRow 2147483646 .left twoDifferences ∧
      registry.parse 3 "5 - 2 - 1".toList =
        .ok (leftNested (.number (.ofInt 5)) twoDifferences) := by
  intro registry
  have hrow := isRow_twoDifferences ⟨2147483646, by decide⟩
  have hstream : (LexemeStream.ofText registry "5 - 2 - 1".toList).tokens =
      (.number (.ofInt 5) :: Operation.tokens twoDifferences) ++ [.endOfInput] := by
    decide +kernel
  obtain ⟨lexemes, hlexes, htokens⟩ :=
    (LexemeStream.tokens_ofText_eq_iff (reachable_after _)).mp hstream
  exact ⟨hrow, (parse_row (reachable_after _) hlexes htokens hrow (by decide) (by decide)).1 rfl
    (by decide)⟩

/-- **Left associativity ends below the highest level.**  Of the highest level, an operator that is
declared to group to the left groups to the right. -/
theorem parse_row_highest :
    let registry := withDifference ⟨maxPrecedence, by decide⟩
    registry.IsRow maxPrecedence .left twoDifferences ∧
      (∃ lexemes, registry.Tokenizes "5 - 2 - 1".toList lexemes ∧
        lexemes.map (·.token) = .number (.ofInt 5) :: Operation.tokens twoDifferences) ∧
      registry.parse 5 "5 - 2 - 1".toList = .ok (rightNested (.ofInt 5) twoDifferences) ∧
      rightNested (.ofInt 5) twoDifferences ≠ leftNested (.number (.ofInt 5)) twoDifferences := by
  refine ⟨isRow_twoDifferences _, ?_, ?_, ?_⟩
  · exact (LexemeStream.tokens_ofText_eq_iff (reachable_after _)).mp (by decide +kernel)
  · decide +kernel
  · decide +kernel

end Registry

end Reckoner
