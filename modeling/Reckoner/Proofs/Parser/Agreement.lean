import Reckoner.Calculator
import Reckoner.Proofs.Evaluation.Resolution
import Reckoner.Proofs.Lexer.Vocabulary

/-!
# Registries that agree

The lexer, the parser and the evaluator read a registry in three ways: they look
a name up in a role, ask whether it names an operator, and match a symbol against
the list of operator names.  Where two registries give the same answers
(`Registry.Agree`), everything that is done with them is the same, errors and
their places included.  Positions in the lists of definitions have no part in it.

The evaluator reads less: the look-up of the names in the tree, each in its own
role (`Registry.evaluate_congr`).
-/

namespace Reckoner

namespace Registry

variable {registry other : Registry}

/-! ## Look-up in one role -/

theorem findBinary?_congr {name : Text}
    (hfind : registry.find? .binary name = other.find? .binary name) :
    registry.findBinary? name = other.findBinary? name :=
  Option.map_injective (fun _ _ => Definition.binary.inj) hfind

theorem findUnary?_congr {fixity : Fixity} {name : Text}
    (hfind : registry.find? (.unary fixity) name = other.find? (.unary fixity) name) :
    registry.findUnary? fixity name = other.findUnary? fixity name :=
  Option.map_injective (fun _ _ => Definition.unary.inj) hfind

theorem findFunction?_congr {name : Text}
    (hfind : registry.find? .function name = other.find? .function name) :
    registry.findFunction? name = other.findFunction? name :=
  Option.map_injective (fun _ _ => Definition.function.inj) hfind

/-! ## Evaluation -/

/-- The name of a node has the same definition in its role. -/
def AgreeAt (registry other : Registry) : Expr → Prop
  | .number _ => True
  | .binary _ op _ => registry.findBinary? op = other.findBinary? op
  | .prefixed op _ => registry.findUnary? .prefixed op = other.findUnary? .prefixed op
  | .postfixed _ op => registry.findUnary? .postfixed op = other.findUnary? .postfixed op
  | .call name _ => registry.findFunction? name = other.findFunction? name

mutual

/-- **A tree has one value under registries that agree at its nodes.** -/
theorem evaluate_congr : ∀ {e : Expr}, e.All (registry.AgreeAt other) →
    registry.evaluate e = other.evaluate e
  | .number value, _ => by rw [evaluate, evaluate]
  | .binary left op right, hagree => by
      obtain ⟨hleft, hright, hname⟩ := Expr.all_binary.mp hagree
      have hname : registry.findBinary? op = other.findBinary? op := hname
      simp only [evaluate, applyBinary, evaluate_congr hleft, evaluate_congr hright, hname]
  | .prefixed op operand, hagree => by
      obtain ⟨hoperand, hname⟩ := Expr.all_prefixed.mp hagree
      have hname : registry.findUnary? .prefixed op = other.findUnary? .prefixed op := hname
      simp only [evaluate, applyUnary, evaluate_congr hoperand, hname]
  | .postfixed operand op, hagree => by
      obtain ⟨hoperand, hname⟩ := Expr.all_postfixed.mp hagree
      have hname : registry.findUnary? .postfixed op = other.findUnary? .postfixed op := hname
      simp only [evaluate, applyUnary, evaluate_congr hoperand, hname]
  | .call name args, hagree => by
      obtain ⟨hargs, hname⟩ := Expr.all_call.mp hagree
      have hname : registry.findFunction? name = other.findFunction? name := hname
      simp only [evaluate, applyFunction, evaluateAll_congr hargs, hname]

theorem evaluateAll_congr : ∀ {es : List Expr}, (∀ e ∈ es, e.All (registry.AgreeAt other)) →
    registry.evaluateAll es = other.evaluateAll es
  | [], _ => by rw [evaluateAll, evaluateAll]
  | e :: es, hagree => by
      obtain ⟨hfirst, hothers⟩ := List.forall_mem_cons.mp hagree
      rw [evaluateAll, evaluateAll, evaluate_congr hfirst, evaluateAll_congr hothers]

end

/-! ## Agreement -/

/-- Two registries give the same answers to the lexer, the parser and the
evaluator. -/
structure Agree (registry other : Registry) : Prop where
  find? (role : Role) (name : Text) : registry.find? role name = other.find? role name
  isOperator (name : Text) : registry.isOperator name = other.isOperator name
  identifiers : registry.identifiers = other.identifiers

namespace Agree

theorem findBinary? (hagree : registry.Agree other) (name : Text) :
    registry.findBinary? name = other.findBinary? name :=
  findBinary?_congr (hagree.find? .binary name)

theorem findUnary? (hagree : registry.Agree other) (fixity : Fixity) (name : Text) :
    registry.findUnary? fixity name = other.findUnary? fixity name :=
  findUnary?_congr (hagree.find? (.unary fixity) name)

theorem findFunction? (hagree : registry.Agree other) (name : Text) :
    registry.findFunction? name = other.findFunction? name :=
  findFunction?_congr (hagree.find? .function name)

theorem evaluate (hagree : registry.Agree other) (e : Expr) :
    registry.evaluate e = other.evaluate e :=
  evaluate_congr fun node _ => by
    cases node with
    | number value => trivial
    | binary left op right => exact hagree.findBinary? op
    | prefixed op operand => exact hagree.findUnary? .prefixed op
    | postfixed operand op => exact hagree.findUnary? .postfixed op
    | call name args => exact hagree.findFunction? name

/-! ## The lexer -/

theorem ofText (hagree : registry.Agree other) (source : Text) :
    LexemeStream.ofText registry source = LexemeStream.ofText other source :=
  LexemeStream.ofText_congr hagree.isOperator
    (fun name => congrArg Option.isSome (hagree.findFunction? name)) hagree.identifiers source

/-! ## The parser -/

variable {limit : Nat} {operand : Int → ParserM Node}

theorem atom (hagree : registry.Agree other) :
    Parser.atom registry limit operand = Parser.atom other limit operand := by
  simp only [Parser.atom, Parser.call, hagree.findUnary?, hagree.findFunction?]

theorem postfixChain (hagree : registry.Agree other) (rounds : Nat) (node : Node) :
    Parser.postfixChain registry limit rounds node =
      Parser.postfixChain other limit rounds node := by
  induction rounds generalizing node with
  | zero => rfl
  | succ rounds ih => simp only [Parser.postfixChain, hagree.findUnary?, ih]

theorem binaryChain (hagree : registry.Agree other) (minimum : Int) (rounds : Nat) (left : Node) :
    Parser.binaryChain registry limit operand minimum rounds left =
      Parser.binaryChain other limit operand minimum rounds left := by
  induction rounds generalizing left with
  | zero => rfl
  | succ rounds ih => simp only [Parser.binaryChain, hagree.findBinary?, ih]

theorem expression (hagree : registry.Agree other) (budget : Nat) :
    Parser.expression registry limit budget = Parser.expression other limit budget := by
  induction budget with
  | zero => rfl
  | succ budget ih =>
      funext minimum
      simp only [Parser.expression, Parser.primary, ih, hagree.atom, hagree.postfixChain,
        hagree.binaryChain]

/-- **Registries that agree read a text alike**, as the same tree or with the
same error. -/
theorem parse (hagree : registry.Agree other) (limit : Nat) (source : Text) :
    registry.parse limit source = other.parse limit source := by
  simp only [Registry.parse, ParserState.start, Parser.parse, hagree.ofText, hagree.expression]

theorem calculate (hagree : registry.Agree other) (limit : Nat) (source : Text) :
    Calculator.calculate ⟨registry, limit⟩ source = Calculator.calculate ⟨other, limit⟩ source := by
  simp only [Calculator.calculate, Calculator.parse, Calculator.evaluate, hagree.parse,
    hagree.evaluate]

end Agree

end Registry

end Reckoner
