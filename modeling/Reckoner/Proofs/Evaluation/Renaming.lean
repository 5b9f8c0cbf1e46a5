import Reckoner.Evaluation
import Reckoner.Proofs.Parser.Likeness

/-!
# Trees with other names

A tree holds names, and evaluation looks each of them up in the role of its node.  So a tree
in which names give way to others has the same value, as long as a name and the one in its
place stand for one definition in that role (`evaluate_of_renames`).  If there is no value,
then there is the same error, but for the name that it carries.

What names may take the place of what others is told role by role (`Expr.Renames`): one symbol
can be a binary and a prefix operator, and its other names in one role are not those in the
other.
-/

namespace Reckoner

variable {names names' : Role → Text → Text → Prop} {errors : Text → Text → Prop}

/-- Trees of one shape with the same numbers, whose names are related in the role of their
node. -/
inductive Expr.Renames (names : Role → Text → Text → Prop) : Expr → Expr → Prop
  | number (value : Number) : Renames names (.number value) (.number value)
  | binary {left left' right right' : Expr} {op op' : Text} (hleft : Renames names left left')
      (hname : names .binary op op') (hright : Renames names right right') :
      Renames names (.binary left op right) (.binary left' op' right')
  | prefixed {op op' : Text} {operand operand' : Expr} (hname : names (.unary .prefixed) op op')
      (hoperand : Renames names operand operand') :
      Renames names (.prefixed op operand) (.prefixed op' operand')
  | postfixed {operand operand' : Expr} {op op' : Text} (hoperand : Renames names operand operand')
      (hname : names (.unary .postfixed) op op') :
      Renames names (.postfixed operand op) (.postfixed operand' op')
  | call {name name' : Text} {args args' : List Expr} (hname : names .function name name')
      (hargs : List.Forall₂ (Renames names) args args') :
      Renames names (.call name args) (.call name' args')

/-- Errors of one kind, which say the same of names that are related. -/
inductive EvalError.Alike (names : Text → Text → Prop) : EvalError → EvalError → Prop
  | unknown (role : Role) {name name' : Text} (hname : names name name') :
      Alike names (.unknown role name) (.unknown role name')
  | arity {name name' : Text} (hname : names name name') (expected actual : Nat) :
      Alike names (.arity name expected actual) (.arity name' expected actual)
  | invalidArgument {name name' : Text} (hname : names name name') (cause : Rejection) :
      Alike names (.invalidArgument name cause) (.invalidArgument name' cause)

theorem ResultAlike.bind {ε α β : Type} {errors : ε → ε → Prop} {values : α → α → Prop}
    {results : β → β → Prop} {first first' : Except ε α} {f f' : α → Except ε β}
    (hfirst : ResultAlike errors values first first')
    (hnext : ∀ a a', values a a' → ResultAlike errors results (f a) (f' a')) :
    ResultAlike errors results (first >>= f) (first' >>= f') := by
  cases hfirst with
  | ok hvalue => exact hnext _ _ hvalue
  | error herror => exact .error herror

theorem ResultAlike.eq_ok {ε α : Type} {errors : ε → ε → Prop} {value : α} {result : Except ε α}
    (halike : ResultAlike errors Eq (.ok value) result) : result = .ok value := by
  cases halike with
  | ok heq => rw [heq]

/-! ## Renaming -/

namespace Expr

mutual

/-- A tree with names of its own in their place. -/
theorem Renames.refl (hnames : ∀ role name, names role name name) : ∀ e : Expr, e.Renames names e
  | .number value => .number value
  | .binary left op right =>
      .binary (Renames.refl hnames left) (hnames _ op) (Renames.refl hnames right)
  | .prefixed op operand => .prefixed (hnames _ op) (Renames.refl hnames operand)
  | .postfixed operand op => .postfixed (Renames.refl hnames operand) (hnames _ op)
  | .call name args => .call (hnames _ name) (Renames.refl_all hnames args)

theorem Renames.refl_all (hnames : ∀ role name, names role name name) :
    ∀ es : List Expr, List.Forall₂ (Renames names) es es
  | [] => .nil
  | e :: es => .cons (Renames.refl hnames e) (Renames.refl_all hnames es)

end

mutual

/-- Trees that are alike are so in every role. -/
theorem Alike.renames {names : Text → Text → Prop} :
    ∀ {e e' : Expr}, e.Alike names e' → e.Renames (fun _ => names) e'
  | .number _, _, .number value => .number value
  | .binary _ _ _, _, .binary hleft hname hright =>
      .binary (Alike.renames hleft) hname (Alike.renames hright)
  | .prefixed _ _, _, .prefixed hname hoperand => .prefixed hname (Alike.renames hoperand)
  | .postfixed _ _, _, .postfixed hoperand hname => .postfixed (Alike.renames hoperand) hname
  | .call _ _, _, .call hname hargs => .call hname (Alike.renames_all hargs)

theorem Alike.renames_all {names : Text → Text → Prop} :
    ∀ {es es' : List Expr}, List.Forall₂ (Alike names) es es' →
      List.Forall₂ (Renames fun _ => names) es es'
  | [], _, .nil => .nil
  | _ :: _, _, .cons hfirst hothers => .cons (Alike.renames hfirst) (Alike.renames_all hothers)

end

end Expr

/-! ## Evaluation -/

namespace Registry

variable {registry : Registry}

theorem findBinary?_eq_of_find?_eq {name name' : Text}
    (hfind : registry.find? .binary name = registry.find? .binary name') :
    registry.findBinary? name = registry.findBinary? name' :=
  Option.map_injective (fun _ _ => Definition.binary.inj) hfind

theorem findUnary?_eq_of_find?_eq {fixity : Fixity} {name name' : Text}
    (hfind : registry.find? (.unary fixity) name = registry.find? (.unary fixity) name') :
    registry.findUnary? fixity name = registry.findUnary? fixity name' :=
  Option.map_injective (fun _ _ => Definition.unary.inj) hfind

theorem findFunction?_eq_of_find?_eq {name name' : Text}
    (hfind : registry.find? .function name = registry.find? .function name') :
    registry.findFunction? name = registry.findFunction? name' :=
  Option.map_injective (fun _ _ => Definition.function.inj) hfind

theorem applied_alike {name name' : Text} (hname : errors name name')
    (result : Except Rejection Number) :
    ResultAlike (EvalError.Alike errors) Eq (applied name result) (applied name' result) := by
  cases result with
  | ok value => exact .ok rfl
  | error cause => exact .error (.invalidArgument hname cause)

theorem applyUnary_alike {fixity : Fixity} {op op' : Text}
    (hfind : registry.findUnary? fixity op = registry.findUnary? fixity op')
    (hname : errors op op') (operand : Number) :
    ResultAlike (EvalError.Alike errors) Eq (registry.applyUnary fixity op operand)
      (registry.applyUnary fixity op' operand) := by
  unfold applyUnary
  rw [hfind]
  cases registry.findUnary? fixity op' with
  | none => exact .error (.unknown _ hname)
  | some operator => exact applied_alike hname _

theorem applyBinary_alike {op op' : Text}
    (hfind : registry.findBinary? op = registry.findBinary? op') (hname : errors op op')
    (left right : Number) :
    ResultAlike (EvalError.Alike errors) Eq (registry.applyBinary op left right)
      (registry.applyBinary op' left right) := by
  unfold applyBinary
  rw [hfind]
  cases registry.findBinary? op' with
  | none => exact .error (.unknown _ hname)
  | some operator => exact applied_alike hname _

theorem applyFunction_alike {name name' : Text}
    (hfind : registry.findFunction? name = registry.findFunction? name') (hname : errors name name')
    (args : List Number) :
    ResultAlike (EvalError.Alike errors) Eq (registry.applyFunction name args)
      (registry.applyFunction name' args) := by
  unfold applyFunction
  rw [hfind]
  cases registry.findFunction? name' with
  | none => exact .error (.unknown _ hname)
  | some f =>
      dsimp only
      split
      · exact applied_alike hname _
      · exact .error (.arity hname _ _)

mutual

/-- **Names for the same give the same value.**  If in a tree names give way to others that
stand for the same definition in their role, then the value stays, or the error but for its
name. -/
theorem evaluate_of_renames
    (hsame : ∀ {role name name'}, names role name name' →
      registry.find? role name = registry.find? role name')
    (herrors : ∀ {role name name'}, names role name name' → errors name name') :
    ∀ {e e' : Expr}, e.Renames names e' →
      ResultAlike (EvalError.Alike errors) Eq (registry.evaluate e) (registry.evaluate e')
  | .number _, _, .number value => by
      rw [evaluate]
      exact .ok rfl
  | .binary _ _ _, _, .binary hleft hname hright => by
      rw [evaluate, evaluate]
      refine (evaluate_of_renames hsame herrors hleft).bind ?_
      rintro x _ rfl
      refine (evaluate_of_renames hsame herrors hright).bind ?_
      rintro y _ rfl
      exact applyBinary_alike (findBinary?_eq_of_find?_eq (hsame hname)) (herrors hname) x y
  | .prefixed _ _, _, .prefixed hname hoperand => by
      rw [evaluate, evaluate]
      refine (evaluate_of_renames hsame herrors hoperand).bind ?_
      rintro x _ rfl
      exact applyUnary_alike (findUnary?_eq_of_find?_eq (hsame hname)) (herrors hname) x
  | .postfixed _ _, _, .postfixed hoperand hname => by
      rw [evaluate, evaluate]
      refine (evaluate_of_renames hsame herrors hoperand).bind ?_
      rintro x _ rfl
      exact applyUnary_alike (findUnary?_eq_of_find?_eq (hsame hname)) (herrors hname) x
  | .call _ _, _, .call hname hargs => by
      rw [evaluate, evaluate]
      refine (evaluateAll_of_renames hsame herrors hargs).bind ?_
      rintro values _ rfl
      exact applyFunction_alike (findFunction?_eq_of_find?_eq (hsame hname)) (herrors hname) values

theorem evaluateAll_of_renames
    (hsame : ∀ {role name name'}, names role name name' →
      registry.find? role name = registry.find? role name')
    (herrors : ∀ {role name name'}, names role name name' → errors name name') :
    ∀ {es es' : List Expr}, List.Forall₂ (Expr.Renames names) es es' →
      ResultAlike (EvalError.Alike errors) Eq (registry.evaluateAll es) (registry.evaluateAll es')
  | [], _, .nil => by
      rw [evaluateAll]
      exact .ok rfl
  | _ :: _, _, .cons hfirst hothers => by
      rw [evaluateAll, evaluateAll]
      refine (evaluate_of_renames hsame herrors hfirst).bind ?_
      rintro value _ rfl
      refine (evaluateAll_of_renames hsame herrors hothers).bind ?_
      rintro values _ rfl
      exact .ok rfl

end

end Registry

end Reckoner
