import Reckoner.Proofs.Parser.Grammar

/-!
# The numbers of a tree

The leaves of a tree are its numbers, in the order in which they are written.
`Expr.replaceNumber` puts another tree in the place of one of them, which is named by
how many numbers stand before it; `replaceNumber_left` and `replaceNumber_right` are the
rules for the two sides of a binary operation.

A tree grows by no more than the height of the one that is put in
(`depth_replaceNumber_le`).
-/

namespace Reckoner

/-! ## Numbers -/

namespace Token

def number? : Token → Option Number
  | number value => some value
  | _ => none

/-- The numbers among tokens, in their order. -/
def numbers (tokens : List Token) : List Number :=
  tokens.filterMap number?

@[simp] theorem numbers_nil : numbers [] = [] := rfl

@[simp] theorem numbers_append (first later : List Token) :
    numbers (first ++ later) = numbers first ++ numbers later :=
  List.filterMap_append

@[simp] theorem numbers_number (value : Number) (later : List Token) :
    numbers (.number value :: later) = value :: numbers later := rfl

@[simp] theorem numbers_operator (op : Text) (later : List Token) :
    numbers (.operator op :: later) = numbers later := rfl

@[simp] theorem numbers_function (name : Text) (later : List Token) :
    numbers (.function name :: later) = numbers later := rfl

/-- Only contents of trees are numbers. -/
theorem numbers_filter_isContent (tokens : List Token) :
    numbers (tokens.filter isContent) = numbers tokens := by
  induction tokens with
  | nil => rfl
  | cons token later ih =>
      cases token with
      | number value => exact congrArg (value :: ·) ih
      | _ => exact ih

end Token

namespace Expr

/-- The numbers of a tree, in the order in which they are written. -/
def numbers (e : Expr) : List Number :=
  Token.numbers e.tokens

variable (left right operand : Expr) (op name : Text) (args : List Expr)

@[simp] theorem numbers_number (value : Number) : (number value).numbers = [value] := rfl

@[simp] theorem numbers_prefixed : (prefixed op operand).numbers = operand.numbers := rfl

@[simp] theorem numbers_call : (call name args).numbers = Token.numbers (tokensAll args) := rfl

@[simp] theorem numbers_binary :
    (binary left op right).numbers = left.numbers ++ right.numbers := by
  simp [numbers]

@[simp] theorem numbers_postfixed : (postfixed operand op).numbers = operand.numbers := by
  simp [numbers]

end Expr

/-- A derivation has the numbers of its tokens. -/
theorem Registry.Derives.numbers_eq {registry : Registry} {phrase : Phrase} {used : List Token}
    (hderives : registry.Derives phrase used) :
    Token.numbers phrase.tokens = Token.numbers phrase.tokensBefore ++ Token.numbers used := by
  rw [hderives.tokens_eq, Token.numbers_append, Token.numbers_filter_isContent]

/-! ## Replacing a number -/

namespace Expr

mutual

/-- The tree with another one in the place of the number that so many numbers stand
before. -/
def replaceNumber : Expr → (index : Nat) → Expr → Expr
  | number value, index, u => if index = 0 then u else number value
  | binary left op right, index, u =>
    if index < left.numbers.length then binary (left.replaceNumber index u) op right
    else binary left op (right.replaceNumber (index - left.numbers.length) u)
  | prefixed op operand, index, u => prefixed op (operand.replaceNumber index u)
  | postfixed operand op, index, u => postfixed (operand.replaceNumber index u) op
  | call name args, index, u => call name (replaceNumberAll args index u)

/-- The same for a number of trees that are written one after the other. -/
def replaceNumberAll : List Expr → (index : Nat) → Expr → List Expr
  | [], _, _ => []
  | e :: es, index, u =>
    if index < e.numbers.length then e.replaceNumber index u :: es
    else e :: replaceNumberAll es (index - e.numbers.length) u

end

variable {left right e u : Expr} {op : Text} {es : List Expr} {index : Nat}

theorem replaceNumber_left (hlt : index < left.numbers.length) :
    (binary left op right).replaceNumber index u =
      binary (left.replaceNumber index u) op right := by
  rw [replaceNumber, if_pos hlt]

theorem replaceNumber_right :
    (binary left op right).replaceNumber (left.numbers.length + index) u =
      binary left op (right.replaceNumber index u) := by
  rw [replaceNumber, if_neg (by omega), Nat.add_sub_cancel_left]

theorem replaceNumberAll_first (hlt : index < e.numbers.length) :
    replaceNumberAll (e :: es) index u = e.replaceNumber index u :: es := by
  rw [replaceNumberAll, if_pos hlt]

theorem replaceNumberAll_others :
    replaceNumberAll (e :: es) (e.numbers.length + index) u = e :: replaceNumberAll es index u := by
  rw [replaceNumberAll, if_neg (by omega), Nat.add_sub_cancel_left]

theorem length_replaceNumberAll (es : List Expr) (index : Nat) (u : Expr) :
    (replaceNumberAll es index u).length = es.length := by
  induction es generalizing index with
  | nil => rfl
  | cons e es ih =>
      rw [replaceNumberAll]
      split
      · rfl
      · rw [List.length_cons, ih, List.length_cons]

mutual

/-- The tree grows by no more than the height of the tree that is put in. -/
theorem depth_replaceNumber_le (u : Expr) :
    ∀ (e : Expr) (index : Nat), (e.replaceNumber index u).depth ≤ e.depth + u.depth
  | number value, index => by
      rw [replaceNumber]
      split <;> omega
  | binary left op right, index => by
      rw [replaceNumber]
      split
      · have hleft := depth_replaceNumber_le u left index
        simp only [depth]
        omega
      · have hright := depth_replaceNumber_le u right (index - left.numbers.length)
        simp only [depth]
        omega
  | prefixed op operand, index => by
      have hoperand := depth_replaceNumber_le u operand index
      simp only [replaceNumber, depth]
      omega
  | postfixed operand op, index => by
      have hoperand := depth_replaceNumber_le u operand index
      simp only [replaceNumber, depth]
      omega
  | call name args, index => by
      have hargs := maxDepth_replaceNumberAll_le u args index
      simp only [replaceNumber, depth]
      omega

theorem maxDepth_replaceNumberAll_le (u : Expr) :
    ∀ (es : List Expr) (index : Nat),
      maxDepth (replaceNumberAll es index u) ≤ maxDepth es + u.depth
  | [], _ => Nat.zero_le _
  | e :: es, index => by
      rw [replaceNumberAll]
      split
      · have hfirst := depth_replaceNumber_le u e index
        simp only [maxDepth]
        omega
      · have hothers := maxDepth_replaceNumberAll_le u es (index - e.numbers.length)
        simp only [maxDepth]
        omega

end

end Expr

end Reckoner
