import Reckoner.Evaluation

/-!
# Evaluation of resolved trees

`Expr.nodes` lists the trees in a tree as they are evaluated, each behind those in
it, and `Expr.All` says that all of them have a property.

A tree *resolves* under a registry if at each of its nodes the name is found in
its own role and a call has as many arguments as its function takes.  Evaluation
of such a tree can fail in one way only: the rule of a node rejects the values of
its operands (`settles_evaluate`).
-/

namespace Reckoner

/-! ## Nodes -/

namespace Expr

mutual

/-- The trees in a tree, itself included, each behind those in it. -/
def nodes : Expr → List Expr
  | number value => [number value]
  | binary left op right => left.nodes ++ right.nodes ++ [binary left op right]
  | prefixed op operand => operand.nodes ++ [prefixed op operand]
  | postfixed operand op => operand.nodes ++ [postfixed operand op]
  | call name args => nodesAll args ++ [call name args]

def nodesAll : List Expr → List Expr
  | [] => []
  | e :: es => e.nodes ++ nodesAll es

end

/-- All trees in a tree have a property. -/
def All (p : Expr → Prop) (e : Expr) : Prop :=
  ∀ node ∈ e.nodes, p node

variable {p : Expr → Prop} {left right operand : Expr} {op name : Text} {args : List Expr}

theorem forall_mem_nodesAll :
    (∀ node ∈ nodesAll args, p node) ↔ ∀ e ∈ args, e.All p := by
  induction args with
  | nil => simp [nodesAll]
  | cons e es ih =>
      rw [nodesAll, List.forall_mem_append, ih, List.forall_mem_cons]
      rfl

theorem all_number {value : Number} : (number value).All p ↔ p (number value) := by
  simp [All, nodes]

theorem all_binary :
    (binary left op right).All p ↔ left.All p ∧ right.All p ∧ p (binary left op right) := by
  simp [All, nodes, or_imp, forall_and]

theorem all_prefixed : (prefixed op operand).All p ↔ operand.All p ∧ p (prefixed op operand) := by
  simp [All, nodes, or_imp, forall_and]

theorem all_postfixed :
    (postfixed operand op).All p ↔ operand.All p ∧ p (postfixed operand op) := by
  simp [All, nodes, or_imp, forall_and]

theorem all_call : (call name args).All p ↔ (∀ e ∈ args, e.All p) ∧ p (call name args) := by
  rw [← forall_mem_nodesAll]
  simp [All, nodes, or_imp, forall_and]

end Expr

namespace Registry

/-! ## Resolution -/

/-- The name of a node is found in its role, and a call has as many arguments as
its function takes. -/
def ResolvesAt (registry : Registry) : Expr → Prop
  | .number _ => True
  | .binary _ op _ => (registry.findBinary? op).isSome = true
  | .prefixed op _ => (registry.findUnary? .prefixed op).isSome = true
  | .postfixed _ op => (registry.findUnary? .postfixed op).isSome = true
  | .call name args => ∃ f, registry.findFunction? name = some f ∧ args.length = f.arity

/-- All nodes of a tree resolve. -/
def Resolves (registry : Registry) (e : Expr) : Prop :=
  e.All registry.ResolvesAt

variable {registry : Registry} {left right operand : Expr} {op name : Text} {args : List Expr}

/-! ## Rejections -/

/-- The rule of a node rejects the values of its operands. -/
inductive Rejects (registry : Registry) : Expr → Text → Rejection → Prop
  | binary {left right : Expr} {op : Text} {operator : BinaryOperator} {x y : Number}
      {cause : Rejection} (hleft : registry.evaluate left = .ok x)
      (hright : registry.evaluate right = .ok y) (hfind : registry.findBinary? op = some operator)
      (hrule : operator.rule x y = .error cause) :
      Rejects registry (.binary left op right) op cause
  | prefixed {operand : Expr} {op : Text} {operator : UnaryOperator} {x : Number}
      {cause : Rejection} (hoperand : registry.evaluate operand = .ok x)
      (hfind : registry.findUnary? .prefixed op = some operator)
      (hrule : operator.rule x = .error cause) : Rejects registry (.prefixed op operand) op cause
  | postfixed {operand : Expr} {op : Text} {operator : UnaryOperator} {x : Number}
      {cause : Rejection} (hoperand : registry.evaluate operand = .ok x)
      (hfind : registry.findUnary? .postfixed op = some operator)
      (hrule : operator.rule x = .error cause) : Rejects registry (.postfixed operand op) op cause
  | call {name : Text} {args : List Expr} {f : Function} {values : List Number}
      {cause : Rejection} (hargs : registry.evaluateAll args = .ok values)
      (hfind : registry.findFunction? name = some f) (hrule : f.rule values = .error cause) :
      Rejects registry (.call name args) name cause

/-- A result is a value, or the rejection by the rule of one of some nodes. -/
def Settles (registry : Registry) (nodes : List Expr) {α : Type} (result : Except EvalError α) :
    Prop :=
  (∃ value, result = .ok value) ∨
    ∃ node ∈ nodes, ∃ name cause, registry.Rejects node name cause ∧
      result = .error (.invalidArgument name cause)

variable {α β : Type} {nodes : List Expr}

theorem Settles.bind {result : Except EvalError α} {f : α → Except EvalError β}
    (hresult : registry.Settles nodes result)
    (hnext : ∀ value, result = .ok value → registry.Settles nodes (f value)) :
    registry.Settles nodes (result >>= f) := by
  rcases hresult with ⟨value, rfl⟩ | ⟨node, hnode, name, cause, hrejects, rfl⟩
  · exact hnext value rfl
  · exact .inr ⟨node, hnode, name, cause, hrejects, rfl⟩

theorem Settles.mono {result : Except EvalError α} (hresult : registry.Settles nodes result)
    {more : List Expr} (hsubset : nodes ⊆ more) : registry.Settles more result := by
  rcases hresult with hvalue | ⟨node, hnode, hrejects⟩
  · exact .inl hvalue
  · exact .inr ⟨node, hsubset hnode, hrejects⟩

/-- The rule of a node settles its value if a rejection is one by this node. -/
theorem settles_applied {node : Expr} (hnode : node ∈ nodes) {result : Except Rejection Number}
    (hrejects : ∀ cause, result = .error cause → registry.Rejects node name cause) :
    registry.Settles nodes (applied name result) := by
  cases result with
  | ok value => exact .inl ⟨value, rfl⟩
  | error cause => exact .inr ⟨node, hnode, name, cause, hrejects cause rfl, rfl⟩

/-! ## Evaluation -/

theorem length_of_evaluateAll {values : List Number}
    (hvalues : registry.evaluateAll args = .ok values) : values.length = args.length := by
  induction args generalizing values with
  | nil =>
      obtain rfl := Except.ok.inj hvalues
      rfl
  | cons e es ih =>
      rw [evaluateAll] at hvalues
      cases hfirst : registry.evaluate e with
      | error error => simp [hfirst, bind, Except.bind] at hvalues
      | ok value =>
          cases hothers : registry.evaluateAll es with
          | error error => simp [hfirst, hothers, bind, Except.bind] at hvalues
          | ok others =>
              simp only [hfirst, hothers] at hvalues
              obtain rfl := Except.ok.inj hvalues
              rw [List.length_cons, ih hothers, List.length_cons]

mutual

/-- **A tree that resolves has a value, or a rule in it rejects its operands.** -/
theorem settles_evaluate : ∀ {e : Expr}, registry.Resolves e →
    registry.Settles e.nodes (registry.evaluate e)
  | .number value, _ => .inl ⟨value, by rw [evaluate]⟩
  | .binary left op right, hresolves => by
      obtain ⟨hleft, hright, hname⟩ := Expr.all_binary.mp hresolves
      obtain ⟨operator, hfind⟩ := Option.isSome_iff_exists.mp hname
      rw [evaluate]
      refine ((settles_evaluate hleft).mono ?_).bind fun x hx => ?_
      · simp [Expr.nodes]
      refine ((settles_evaluate hright).mono ?_).bind fun y hy => ?_
      · simp [Expr.nodes]
      simp only [applyBinary, hfind]
      exact settles_applied (by simp [Expr.nodes]) fun _ hrule => .binary hx hy hfind hrule
  | .prefixed op operand, hresolves => by
      obtain ⟨hoperand, hname⟩ := Expr.all_prefixed.mp hresolves
      obtain ⟨operator, hfind⟩ := Option.isSome_iff_exists.mp hname
      rw [evaluate]
      refine ((settles_evaluate hoperand).mono ?_).bind fun x hx => ?_
      · simp [Expr.nodes]
      simp only [applyUnary, hfind]
      exact settles_applied (by simp [Expr.nodes]) fun _ hrule => .prefixed hx hfind hrule
  | .postfixed operand op, hresolves => by
      obtain ⟨hoperand, hname⟩ := Expr.all_postfixed.mp hresolves
      obtain ⟨operator, hfind⟩ := Option.isSome_iff_exists.mp hname
      rw [evaluate]
      refine ((settles_evaluate hoperand).mono ?_).bind fun x hx => ?_
      · simp [Expr.nodes]
      simp only [applyUnary, hfind]
      exact settles_applied (by simp [Expr.nodes]) fun _ hrule => .postfixed hx hfind hrule
  | .call name args, hresolves => by
      obtain ⟨hargs, f, hfind, harity⟩ := Expr.all_call.mp hresolves
      rw [evaluate]
      refine ((settles_evaluateAll hargs).mono ?_).bind fun values hvalues => ?_
      · simp [Expr.nodes]
      simp only [applyFunction, hfind]
      rw [if_pos ((length_of_evaluateAll hvalues).trans harity)]
      exact settles_applied (by simp [Expr.nodes]) fun _ hrule => .call hvalues hfind hrule

theorem settles_evaluateAll : ∀ {es : List Expr}, (∀ e ∈ es, registry.Resolves e) →
    registry.Settles (Expr.nodesAll es) (registry.evaluateAll es)
  | [], _ => .inl ⟨[], by rw [evaluateAll]⟩
  | e :: es, hresolves => by
      obtain ⟨hfirst, hothers⟩ := List.forall_mem_cons.mp hresolves
      rw [evaluateAll]
      refine ((settles_evaluate hfirst).mono ?_).bind fun value _ => ?_
      · simp [Expr.nodesAll]
      refine ((settles_evaluateAll hothers).mono ?_).bind fun values _ => ?_
      · simp [Expr.nodesAll]
      exact .inl ⟨_, rfl⟩

end

end Registry

end Reckoner
