import Reckoner.Expr.Basic
import Reckoner.Registry.Basic
import Reckoner.Token

/-!
# The grammar

The grammar of expressions under a registry, apart from any way to parse it.

```text
expression(min) = primary ( BINARY[level ≥ min] expression(rightMinimum) )*
primary         = ( NUMBER
                  | "(" expression(0) ")"
                  | PREFIX expression(level of PREFIX)
                  | FUNCTION "(" ( expression(0) ( "," expression(0) )* )? ")"
                  ) POSTFIX*
```

A `Phrase` is a part of this grammar together with the tree that it stands for,
and `Registry.Derives` has one rule for each way to derive a phrase.  The two
starred groups take the tree on their left and give the tree that it becomes, so
that binary and postfix operators group to the left as they are read.

The grammar is ambiguous: an operand may end before an operator that it could
also take.  Whatever the derivation, its tree has the numbers and names of the
tokens in their order (`Derives.tokens_eq`).
-/

namespace Reckoner

/-! ## The tokens of a tree -/

/-- Whether a token stays in the tree: the others only group and separate. -/
@[simp] def Token.isContent : Token → Bool
  | number _ => true
  | operator _ => true
  | function _ => true
  | _ => false

namespace Expr

mutual

/-- The numbers, operators and functions of a tree, in the order in which they
are written. -/
@[simp] def tokens : Expr → List Token
  | number value => [.number value]
  | binary left op right => left.tokens ++ .operator op :: right.tokens
  | prefixed op operand => .operator op :: operand.tokens
  | postfixed operand op => operand.tokens ++ [.operator op]
  | call name args => .function name :: tokensAll args

/-- The tokens of trees, one after the other. -/
@[simp] def tokensAll : List Expr → List Token
  | [] => []
  | e :: es => e.tokens ++ tokensAll es

end

end Expr

/-! ## The rules -/

/-- A part of the grammar and the tree that it stands for. -/
inductive Phrase
  /-- An expression whose binary operators bind at least as tightly as `minimum`. -/
  | expression (minimum : Int) (e : Expr)
  /-- The binary operators and operands behind the tree `left`. -/
  | chain (minimum : Int) (left e : Expr)
  | primary (e : Expr)
  /-- The postfix operators behind the tree `operand`. -/
  | postfixes (operand e : Expr)
  /-- A primary without its postfix operators. -/
  | operand (e : Expr)
  | arguments (args : List Expr)
  /-- The arguments behind the first, each with its comma. -/
  | others (args : List Expr)

/-- The token lists that can be derived from a phrase. -/
inductive Registry.Derives (registry : Registry) : Phrase → List Token → Prop
  | expression {minimum : Int} {left e : Expr} {first later : List Token}
      (hleft : Derives registry (.primary left) first)
      (hchain : Derives registry (.chain minimum left e) later) :
      Derives registry (.expression minimum e) (first ++ later)
  | chainEnd {minimum : Int} {e : Expr} : Derives registry (.chain minimum e e) []
  | chain {minimum : Int} {left right e : Expr} {op : Text} {operator : BinaryOperator}
      {first later : List Token} (hfind : registry.findBinary? op = some operator)
      (hlevel : minimum ≤ operator.precedence.level)
      (hright : Derives registry (.expression operator.rightMinimum right) first)
      (hchain : Derives registry (.chain minimum (.binary left op right) e) later) :
      Derives registry (.chain minimum left e) (.operator op :: (first ++ later))
  | primary {inner e : Expr} {first later : List Token}
      (hoperand : Derives registry (.operand inner) first)
      (hpostfixes : Derives registry (.postfixes inner e) later) :
      Derives registry (.primary e) (first ++ later)
  | postfixesEnd {e : Expr} : Derives registry (.postfixes e e) []
  | postfixes {operand e : Expr} {op : Text} {later : List Token}
      (hfind : (registry.findUnary? .postfixed op).isSome = true)
      (hpostfixes : Derives registry (.postfixes (.postfixed operand op) e) later) :
      Derives registry (.postfixes operand e) (.operator op :: later)
  | number {value : Number} : Derives registry (.operand (.number value)) [.number value]
  | group {e : Expr} {inner : List Token} (hinner : Derives registry (.expression 0 e) inner) :
      Derives registry (.operand e) (.leftParen :: (inner ++ [.rightParen]))
  | prefixed {operand : Expr} {op : Text} {operator : UnaryOperator} {later : List Token}
      (hfind : registry.findUnary? .prefixed op = some operator)
      (hoperand : Derives registry (.expression operator.precedence.level operand) later) :
      Derives registry (.operand (.prefixed op operand)) (.operator op :: later)
  | call {name : Text} {f : Function} {args : List Expr} {inner : List Token}
      (hfind : registry.findFunction? name = some f) (harity : args.length = f.arity)
      (hargs : Derives registry (.arguments args) inner) :
      Derives registry (.operand (.call name args))
        (.function name :: .leftParen :: (inner ++ [.rightParen]))
  | noArguments : Derives registry (.arguments []) []
  | arguments {e : Expr} {args : List Expr} {first later : List Token}
      (hfirst : Derives registry (.expression 0 e) first)
      (hothers : Derives registry (.others args) later) :
      Derives registry (.arguments (e :: args)) (first ++ later)
  | othersEnd : Derives registry (.others []) []
  | others {e : Expr} {args : List Expr} {first later : List Token}
      (hfirst : Derives registry (.expression 0 e) first)
      (hothers : Derives registry (.others args) later) :
      Derives registry (.others (e :: args)) (.comma :: (first ++ later))

/-! ## The yield -/

namespace Phrase

/-- The tokens of the tree of a phrase. -/
@[simp] def tokens : Phrase → List Token
  | expression _ e => e.tokens
  | chain _ _ e => e.tokens
  | primary e => e.tokens
  | postfixes _ e => e.tokens
  | operand e => e.tokens
  | arguments args => Expr.tokensAll args
  | others args => Expr.tokensAll args

/-- The tokens of the tree that a phrase begins with. -/
@[simp] def tokensBefore : Phrase → List Token
  | chain _ left _ => left.tokens
  | postfixes inner _ => inner.tokens
  | _ => []

end Phrase

/-- **The yield of a derivation.**  A tree has the numbers, operators and
functions of the tokens it is derived from, each once and in their order. -/
theorem Registry.Derives.tokens_eq {registry : Registry} {phrase : Phrase} {used : List Token}
    (hderives : registry.Derives phrase used) :
    phrase.tokens = phrase.tokensBefore ++ used.filter Token.isContent := by
  induction hderives with
  | expression _ _ hleft hchain =>
      simp only [Phrase.tokens, Phrase.tokensBefore, List.nil_append] at hleft hchain ⊢
      rw [hchain, hleft, List.filter_append]
  | chain _ _ _ _ hright hchain =>
      simp only [Phrase.tokens, Phrase.tokensBefore, Expr.tokens, List.nil_append] at hright hchain ⊢
      simp [hchain, hright, List.filter_cons]
  | primary _ _ hoperand hpostfixes =>
      simp only [Phrase.tokens, Phrase.tokensBefore, List.nil_append] at hoperand hpostfixes ⊢
      rw [hpostfixes, hoperand, List.filter_append]
  | postfixes _ _ hpostfixes =>
      simp only [Phrase.tokens, Phrase.tokensBefore, Expr.tokens] at hpostfixes ⊢
      simp [hpostfixes, List.filter_cons]
  | group _ hinner =>
      simp only [Phrase.tokens, Phrase.tokensBefore, List.nil_append] at hinner ⊢
      simp [hinner]
  | prefixed _ _ hoperand =>
      simp only [Phrase.tokens, Phrase.tokensBefore, List.nil_append] at hoperand
      simp [hoperand, List.filter_cons]
  | call _ _ _ hargs =>
      simp only [Phrase.tokens, Phrase.tokensBefore, List.nil_append] at hargs
      simp [hargs, List.filter_cons]
  | arguments _ _ hfirst hothers =>
      simp only [Phrase.tokens, Phrase.tokensBefore, List.nil_append] at hfirst hothers
      simp [hfirst, hothers]
  | others _ _ hfirst hothers =>
      simp only [Phrase.tokens, Phrase.tokensBefore, List.nil_append] at hfirst hothers
      simp [hfirst, hothers]
  | chainEnd => simp
  | postfixesEnd => simp
  | number => simp [List.filter_cons]
  | noArguments => simp
  | othersEnd => simp

/-- The tree of an expression has the contents of its tokens. -/
theorem Registry.Derives.tokens_expression {registry : Registry} {minimum : Int} {e : Expr}
    {used : List Token} (hderives : registry.Derives (.expression minimum e) used) :
    e.tokens = used.filter Token.isContent := by
  simpa using hderives.tokens_eq

/-! ## Heights -/

/-- The tree that a phrase begins with is no higher than the one it ends with. -/
def Phrase.Grows : Phrase → Prop
  | .chain _ left e => left.depth ≤ e.depth
  | .postfixes inner e => inner.depth ≤ e.depth
  | _ => True

theorem Registry.Derives.grows {registry : Registry} {phrase : Phrase} {used : List Token}
    (hderives : registry.Derives phrase used) : phrase.Grows := by
  induction hderives with
  | chainEnd => exact Nat.le_refl _
  | chain _ _ _ _ _ hchain =>
      simp only [Phrase.Grows, Expr.depth] at hchain ⊢
      omega
  | postfixesEnd => exact Nat.le_refl _
  | postfixes _ _ hpostfixes =>
      simp only [Phrase.Grows, Expr.depth] at hpostfixes ⊢
      omega
  | _ => trivial

end Reckoner
