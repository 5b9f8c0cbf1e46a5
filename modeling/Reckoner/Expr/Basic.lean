import Reckoner.Number.Layout
import Reckoner.Text.Alphabetic

/-!
# Expressions

The tree of an expression.  Operators and functions are kept by name, as they
are written; which definition a name stands for is asked of a registry when the
tree is evaluated.
-/

namespace Reckoner

inductive Expr
  | number (value : Number)
  | binary (left : Expr) (op : Text) (right : Expr)
  /-- A unary operator that stands before its operand. -/
  | prefixed (op : Text) (operand : Expr)
  /-- A unary operator that stands behind its operand. -/
  | postfixed (operand : Expr) (op : Text)
  | call (name : Text) (args : List Expr)

namespace Expr

/-! ## Height -/

mutual

/-- The height of a tree; a lone number has height 1. -/
def depth : Expr → Nat
  | number _ => 1
  | binary left _ right => 1 + max left.depth right.depth
  | prefixed _ operand => 1 + operand.depth
  | postfixed operand _ => 1 + operand.depth
  | call _ args => 1 + maxDepth args

/-- The largest height of trees, and 0 without any. -/
def maxDepth : List Expr → Nat
  | [] => 0
  | e :: es => max e.depth (maxDepth es)

end

/-! ## Text -/

/-- Whether the last character of a name is a letter. -/
def endsWithLetter (name : Text) : Bool :=
  match name.getLast? with
  | some c => isLetter c
  | none => false

mutual

/-- The text of a tree with parentheses around every operation.  A prefix
operator that ends with a letter is set apart from its operand. -/
def render : Expr → Text
  | number value => value.plain
  | binary left op right =>
    '(' :: (left.render ++ ' ' :: (op ++ ' ' :: (right.render ++ [')'])))
  | prefixed op operand =>
    '(' :: (op ++ (if endsWithLetter op then [' '] else []) ++ operand.render ++ [')'])
  | postfixed operand op => '(' :: (operand.render ++ op ++ [')'])
  | call name args => name ++ '(' :: (renderAll args ++ [')'])

/-- The texts of trees, with a comma and a blank between any two. -/
def renderAll : List Expr → Text
  | [] => []
  | [e] => e.render
  | e :: es => e.render ++ ',' :: ' ' :: renderAll es

end

end Expr

end Reckoner
