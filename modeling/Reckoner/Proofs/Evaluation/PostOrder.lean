import Mathlib.Data.List.Forall2
import Reckoner.Proofs.Parser.Agreement
import Reckoner.Registry.Standard

/-!
# Evaluation in post-order

What a tree evaluates to, described node by node and without regard to how the evaluator
goes about it.  Each node has a step of its own, from the values of its children: its name
is looked up, the number of values is checked, and the rule is applied
(`Registry.OwnStep`).  The steps of all four kinds of nodes are the same, whatever the
role of the name.

A tree has a value if all steps in it give one (`Registry.HasValue`).  Otherwise some node
fails although its children have values, and the error is that of the first such node in
the order of `Expr.nodes`, where every node stands behind its children and these stand
from left to right (`Registry.FirstFailure`).

`Registry.evaluated_in_postOrder` is the result.  It is shown by induction on the children
of a node (`Expr.childInduction`): `Registry.Accounts` says of a list of nodes what a
result has to do with their failures, and it is kept when lists are put behind each other.
-/

namespace Reckoner

/-! ## Nodes and their children -/

namespace Expr

/-- The operands or arguments of a node, from left to right. -/
def children : Expr → List Expr
  | number _ => []
  | binary left _ right => [left, right]
  | prefixed _ operand => [operand]
  | postfixed operand _ => [operand]
  | call _ args => args

/-- What a node is without its children: a number, or a name with the role in which it is
looked up. -/
def head : Expr → Number ⊕ Role × Text
  | number value => .inl value
  | binary _ op _ => .inr (.binary, op)
  | prefixed op _ => .inr (.unary .prefixed, op)
  | postfixed _ op => .inr (.unary .postfixed, op)
  | call name _ => .inr (.function, name)

/-- A node stands behind the nodes of its children. -/
theorem nodes_eq (e : Expr) : e.nodes = nodesAll e.children ++ [e] := by
  cases e <;> simp [nodes, nodesAll, children]

theorem sizeOf_lt_of_mem_children {e child : Expr} (hchild : child ∈ e.children) :
    sizeOf child < sizeOf e := by
  cases e with
  | number value => simp [children] at hchild
  | binary left op right =>
      have hsides : child = left ∨ child = right := by simpa [children] using hchild
      simp only [binary.sizeOf_spec]
      rcases hsides with rfl | rfl <;> omega
  | prefixed op operand =>
      obtain rfl := List.mem_singleton.mp hchild
      simp only [prefixed.sizeOf_spec]
      omega
  | postfixed operand op =>
      obtain rfl := List.mem_singleton.mp hchild
      simp only [postfixed.sizeOf_spec]
      omega
  | call name args =>
      have hlt : sizeOf child < sizeOf args := List.sizeOf_lt_of_mem hchild
      simp only [call.sizeOf_spec]
      omega

/-- What holds of a node if it holds of its children holds of every tree. -/
@[elab_as_elim]
theorem childInduction {motive : Expr → Prop}
    (hnode : ∀ e : Expr, (∀ child ∈ e.children, motive child) → motive e) (e : Expr) :
    motive e :=
  hnode e fun child hchild =>
    have := sizeOf_lt_of_mem_children hchild
    childInduction hnode child
termination_by sizeOf e

end Expr

/-! ## The step of a node -/

namespace Definition

/-- The number of values that the rule is applied to. -/
def arity : Definition → Nat
  | binary _ => 2
  | unary _ => 1
  | function f => f.arity

/-- The result of the rule for values. -/
def apply : Definition → List Number → Except Rejection Number
  | binary operator, x :: y :: _ => operator.rule x y
  | unary operator, x :: _ => operator.rule x
  | function f, values => f.rule values
  | _, values => .error (.missingArgument values.length)

end Definition

namespace Registry

/-- What a name in a role makes of values: it is looked up, their number is checked, and the
rule is applied. -/
def operate (registry : Registry) (role : Role) (name : Text) (values : List Number) :
    Except EvalError Number :=
  match registry.find? role name with
  | none => .error (.unknown role name)
  | some definition =>
    if values.length = definition.arity then
      match definition.apply values with
      | .ok value => .ok value
      | .error cause => .error (.invalidArgument name cause)
    else .error (.arity name definition.arity values.length)

/-- What a node makes of the values of its children. -/
def ownStep (registry : Registry) (node : Expr) (values : List Number) :
    Except EvalError Number :=
  match node.head with
  | .inl value => .ok value
  | .inr (role, name) => registry.operate role name values

/-- The value of a tree, from the values of its children. -/
inductive HasValue (registry : Registry) : Expr → Number → Prop
  | node {e : Expr} {values : List Number} {value : Number}
      (hchildren : List.Forall₂ (HasValue registry) e.children values)
      (hstep : registry.ownStep e values = .ok value) : HasValue registry e value

/-- The children of a node have values, of which its step makes an error. -/
def FailsAt (registry : Registry) (node : Expr) (error : EvalError) : Prop :=
  ∃ values, List.Forall₂ registry.HasValue node.children values ∧
    registry.ownStep node values = .error error

/-- The first of the nodes that fail does so with the error. -/
def FirstFailure (registry : Registry) (nodes : List Expr) (error : EvalError) : Prop :=
  ∃ before node after, nodes = before ++ node :: after ∧
    (∀ earlier ∈ before, ∀ other, ¬ registry.FailsAt earlier other) ∧ registry.FailsAt node error

variable {registry other : Registry} {e : Expr} {es : List Expr} {values : List Number}
  {value : Number} {error : EvalError}

/-! ## The steps of the evaluator -/

theorem applyBinary_eq (op : Text) (x y : Number) :
    registry.applyBinary op x y = registry.operate .binary op [x, y] := by
  simp only [applyBinary, operate, find?]
  cases registry.findBinary? op with
  | none => rfl
  | some operator => rfl

theorem applyUnary_eq (fixity : Fixity) (op : Text) (x : Number) :
    registry.applyUnary fixity op x = registry.operate (.unary fixity) op [x] := by
  simp only [applyUnary, operate, find?]
  cases registry.findUnary? fixity op with
  | none => rfl
  | some operator => rfl

theorem applyFunction_eq (name : Text) (values : List Number) :
    registry.applyFunction name values = registry.operate .function name values := by
  simp only [applyFunction, operate, find?]
  cases registry.findFunction? name with
  | none => rfl
  | some f => rfl

/-- First the children are evaluated, and then the node takes its step. -/
theorem evaluate_eq (registry : Registry) (e : Expr) :
    registry.evaluate e = registry.evaluateAll e.children >>= registry.ownStep e := by
  cases e with
  | number value => rw [evaluate, Expr.children, evaluateAll]; rfl
  | binary left op right =>
      simp only [evaluate, Expr.children, evaluateAll, applyBinary_eq]
      cases registry.evaluate left with
      | error error => rfl
      | ok x =>
          cases registry.evaluate right with
          | error error => rfl
          | ok y => rfl
  | prefixed op operand =>
      simp only [evaluate, Expr.children, evaluateAll, applyUnary_eq]
      cases registry.evaluate operand with
      | error error => rfl
      | ok x => rfl
  | postfixed operand op =>
      simp only [evaluate, Expr.children, evaluateAll, applyUnary_eq]
      cases registry.evaluate operand with
      | error error => rfl
      | ok x => rfl
  | call name args =>
      simp only [evaluate, Expr.children, applyFunction_eq]
      rfl

/-! ## Values -/

theorem evaluateAll_cons_eq_ok_iff :
    registry.evaluateAll (e :: es) = .ok values ↔
      ∃ first others, registry.evaluate e = .ok first ∧ registry.evaluateAll es = .ok others ∧
        values = first :: others := by
  rw [evaluateAll]
  cases registry.evaluate e with
  | error error => simp [bind, Except.bind]
  | ok first =>
      cases registry.evaluateAll es with
      | error error => simp [bind, Except.bind]
      | ok others => simp [bind, Except.bind, pure, Except.pure, eq_comm]

theorem evaluateAll_eq_ok_iff :
    registry.evaluateAll es = .ok values ↔
      List.Forall₂ (fun e value => registry.evaluate e = .ok value) es values := by
  induction es generalizing values with
  | nil => rw [evaluateAll, List.forall₂_nil_left_iff, Except.ok.injEq, eq_comm]
  | cons e es ih => simp only [evaluateAll_cons_eq_ok_iff, List.forall₂_cons_left_iff, ih]

/-- A tree has the value that its children and its step give it. -/
theorem evaluate_eq_ok_iff_children :
    registry.evaluate e = .ok value ↔
      ∃ values, registry.evaluateAll e.children = .ok values ∧
        registry.ownStep e values = .ok value := by
  rw [evaluate_eq]
  cases registry.evaluateAll e.children with
  | error error => simp [bind, Except.bind]
  | ok values => simp [bind, Except.bind]

/-- The evaluator gives the values that trees have from the bottom up. -/
theorem evaluate_eq_ok_iff : registry.evaluate e = .ok value ↔ registry.HasValue e value := by
  induction e using Expr.childInduction generalizing value with
  | hnode e ih =>
      rw [evaluate_eq_ok_iff_children]
      simp only [evaluateAll_eq_ok_iff]
      have hiff : ∀ child ∈ e.children, ∀ value,
          registry.evaluate child = .ok value ↔ registry.HasValue child value :=
        fun child hchild value => ih child hchild
      constructor
      · intro ⟨values, hvalues, hstep⟩
        have hchildren := (List.forall₂_and_left _ _).mpr ⟨hiff, hvalues⟩
        exact .node (hchildren.imp fun child value ⟨h, hvalue⟩ => (h value).mp hvalue) hstep
      · intro ⟨hchildren, hstep⟩
        have hvalues := (List.forall₂_and_left _ _).mpr ⟨hiff, hchildren⟩
        exact ⟨_, hvalues.imp fun child value ⟨h, hvalue⟩ => (h value).mpr hvalue, hstep⟩

theorem evaluateAll_eq_ok_iff_hasValue :
    registry.evaluateAll es = .ok values ↔ List.Forall₂ registry.HasValue es values := by
  simp only [evaluateAll_eq_ok_iff, evaluate_eq_ok_iff]

/-! ## Failures -/

/-- What a result has to do with the failures of nodes: with a value none of them fails, and
an error is that of the first. -/
def Accounts (registry : Registry) (nodes : List Expr) {α : Type} : Except EvalError α → Prop
  | .ok _ => ∀ node ∈ nodes, ∀ error, ¬ registry.FailsAt node error
  | .error error => registry.FirstFailure nodes error

theorem failsAt_iff :
    registry.FailsAt e error ↔ ∃ values, registry.evaluateAll e.children = .ok values ∧
      registry.ownStep e values = .error error := by
  simp only [FailsAt, evaluateAll_eq_ok_iff_hasValue]

section Accounts

variable {α β : Type} {nodes more : List Expr}

theorem Accounts.bind {result : Except EvalError α} {f : α → Except EvalError β}
    (hresult : registry.Accounts nodes result)
    (hnext : ∀ a, result = .ok a → registry.Accounts more (f a)) :
    registry.Accounts (nodes ++ more) (result >>= f) := by
  cases result with
  | error error =>
      obtain ⟨before, node, after, rfl, hbefore, hfails⟩ := hresult
      exact ⟨before, node, after ++ more, by simp, hbefore, hfails⟩
  | ok a =>
      have hnone : ∀ node ∈ nodes, ∀ error, ¬ registry.FailsAt node error := hresult
      have hmore := hnext a rfl
      show registry.Accounts (nodes ++ more) (f a)
      cases hf : f a with
      | error error =>
          rw [hf] at hmore
          obtain ⟨before, node, after, rfl, hbefore, hfails⟩ := hmore
          refine ⟨nodes ++ before, node, after, by simp, fun earlier hearlier => ?_, hfails⟩
          rcases List.mem_append.mp hearlier with hnode | hnode
          · exact hnone earlier hnode
          · exact hbefore earlier hnode
      | ok b =>
          rw [hf] at hmore
          intro node hnode
          rcases List.mem_append.mp hnode with hnode | hnode
          · exact hnone node hnode
          · exact hmore node hnode

/-- The step of a node accounts for the node. -/
theorem accounts_ownStep (hvalues : registry.evaluateAll e.children = .ok values) :
    registry.Accounts [e] (registry.ownStep e values) := by
  cases hstep : registry.ownStep e values with
  | error error =>
      exact ⟨[], e, [], rfl, by simp, failsAt_iff.mpr ⟨values, hvalues, hstep⟩⟩
  | ok value =>
      intro node hnode error hfails
      obtain rfl := List.mem_singleton.mp hnode
      obtain ⟨values', hvalues', hstep'⟩ := failsAt_iff.mp hfails
      rw [hvalues] at hvalues'
      obtain rfl := Except.ok.inj hvalues'
      rw [hstep] at hstep'
      cases hstep'

theorem accounts_evaluateAll
    (haccounts : ∀ e ∈ es, registry.Accounts e.nodes (registry.evaluate e)) :
    registry.Accounts (Expr.nodesAll es) (registry.evaluateAll es) := by
  induction es with
  | nil =>
      rw [evaluateAll]
      intro node hnode
      cases hnode
  | cons e es ih =>
      obtain ⟨hfirst, hothers⟩ := List.forall_mem_cons.mp haccounts
      rw [evaluateAll, Expr.nodesAll]
      refine hfirst.bind fun value _ => ?_
      rw [← List.append_nil (Expr.nodesAll es)]
      refine (ih hothers).bind fun values _ => ?_
      intro node hnode
      cases hnode

/-- The result for a tree accounts for the nodes in it. -/
theorem accounts_evaluate (registry : Registry) (e : Expr) :
    registry.Accounts e.nodes (registry.evaluate e) := by
  induction e using Expr.childInduction with
  | hnode e ih =>
      rw [evaluate_eq, Expr.nodes_eq]
      exact (accounts_evaluateAll ih).bind fun values hvalues => accounts_ownStep hvalues

end Accounts

theorem failsAt_unique {other : EvalError} (hfails : registry.FailsAt e error)
    (hother : registry.FailsAt e other) : error = other := by
  obtain ⟨values, hvalues, hstep⟩ := failsAt_iff.mp hfails
  obtain ⟨values', hvalues', hstep'⟩ := failsAt_iff.mp hother
  rw [hvalues] at hvalues'
  obtain rfl := Except.ok.inj hvalues'
  exact Except.error.inj (hstep.symm.trans hstep')

open Classical in
/-- The first failure is found by going through the nodes. -/
theorem FirstFailure.exists_find? {nodes : List Expr} (hfirst : registry.FirstFailure nodes error) :
    ∃ node, nodes.find? (fun node => ∃ error, registry.FailsAt node error) = some node ∧
      registry.FailsAt node error := by
  obtain ⟨before, node, after, hnodes, hbefore, hfails⟩ := hfirst
  refine ⟨node, List.find?_eq_some_iff_append.mpr ⟨?_, before, after, hnodes, ?_⟩, hfails⟩
  · exact decide_eq_true ⟨error, hfails⟩
  · intro earlier hearlier
    simpa using hbefore earlier hearlier

/-- There is one first failure. -/
theorem FirstFailure.eq {nodes : List Expr} {other : EvalError}
    (hfirst : registry.FirstFailure nodes error) (hother : registry.FirstFailure nodes other) :
    error = other := by
  obtain ⟨node, hfind, hfails⟩ := hfirst.exists_find?
  obtain ⟨node', hfind', hfails'⟩ := hother.exists_find?
  obtain rfl := Option.some.inj (hfind.symm.trans hfind')
  exact failsAt_unique hfails hfails'

/-- The error of a tree is that of the first node in post-order that fails. -/
theorem evaluate_eq_error_iff :
    registry.evaluate e = .error error ↔ registry.FirstFailure e.nodes error := by
  have haccounts := registry.accounts_evaluate e
  constructor
  · intro herror
    rwa [herror] at haccounts
  · intro hfirst
    cases hresult : registry.evaluate e with
    | error other =>
        rw [hresult] at haccounts
        rw [haccounts.eq hfirst]
    | ok value =>
        rw [hresult] at haccounts
        obtain ⟨before, node, after, hnodes, _, hfails⟩ := hfirst
        exact absurd hfails (haccounts node (by simp [hnodes]) error)

theorem exists_error_iff :
    (∃ error, registry.evaluate e = .error error) ↔
      ∃ node ∈ e.nodes, ∃ error, registry.FailsAt node error := by
  have haccounts := registry.accounts_evaluate e
  constructor
  · intro ⟨error, herror⟩
    obtain ⟨before, node, after, hnodes, _, hfails⟩ := evaluate_eq_error_iff.mp herror
    exact ⟨node, by simp [hnodes], error, hfails⟩
  · intro ⟨node, hnode, error, hfails⟩
    cases hresult : registry.evaluate e with
    | error error => exact ⟨error, rfl⟩
    | ok value =>
        rw [hresult] at haccounts
        exact absurd hfails (haccounts node hnode error)

end Registry

/-! ## Replacing a tree in a tree -/

namespace Expr

/-- The node with other children, as many as it has. -/
def withChildren : Expr → List Expr → Expr
  | binary _ op _, [left, right] => binary left op right
  | prefixed op _, [operand] => prefixed op operand
  | postfixed _ op, [operand] => postfixed operand op
  | call name _, args => call name args
  | e, _ => e

/-- The tree that is reached by going from child to child. -/
def subtree? : Expr → (path : List Nat) → Option Expr
  | e, [] => some e
  | e, index :: path => do subtree? (← e.children[index]?) path

/-- The tree with another one in the place that is reached by going from child to child. -/
def replaceAt : Expr → (path : List Nat) → (new : Expr) → Expr
  | _, [], new => new
  | e, index :: path, new =>
    e.withChildren (e.children.modify index fun child => replaceAt child path new)

theorem head_withChildren (e : Expr) (others : List Expr) :
    (e.withChildren others).head = e.head := by
  fun_cases withChildren e others <;> rfl

theorem children_withChildren {e : Expr} {others : List Expr}
    (hlength : others.length = e.children.length) : (e.withChildren others).children = others := by
  cases e with
  | number value => exact (List.eq_nil_of_length_eq_zero hlength).symm
  | binary left op right =>
      obtain ⟨first, second, rfl⟩ := List.length_eq_two.mp hlength
      rfl
  | prefixed op operand =>
      obtain ⟨only, rfl⟩ := List.length_eq_one_iff.mp hlength
      rfl
  | postfixed operand op =>
      obtain ⟨only, rfl⟩ := List.length_eq_one_iff.mp hlength
      rfl
  | call name args => rfl

end Expr

namespace Registry

variable {registry : Registry} {e : Expr} {es : List Expr}

theorem evaluateAll_modify {f : Expr → Expr} {index : Nat} {child : Expr}
    (hchild : es[index]? = some child)
    (hsame : registry.evaluate (f child) = registry.evaluate child) :
    registry.evaluateAll (es.modify index f) = registry.evaluateAll es := by
  induction es generalizing index with
  | nil => simp at hchild
  | cons e es ih =>
      cases index with
      | zero =>
          obtain rfl : e = child := by simpa using hchild
          rw [List.modify_zero_cons, evaluateAll, evaluateAll, hsame]
      | succ index =>
          rw [List.modify_succ_cons, evaluateAll, evaluateAll, ih (by simpa using hchild)]

/-- A tree of the same value may take the place of another, or one of the same error. -/
theorem evaluate_replaceAt {new sub : Expr} {path : List Nat}
    (hsub : e.subtree? path = some sub) (hsame : registry.evaluate new = registry.evaluate sub) :
    registry.evaluate (e.replaceAt path new) = registry.evaluate e := by
  induction path generalizing e with
  | nil =>
      obtain rfl := Option.some.inj hsub
      exact hsame
  | cons index path ih =>
      obtain ⟨child, hchild, hsub⟩ := Option.bind_eq_some_iff.mp hsub
      have hstep : registry.ownStep (e.replaceAt (index :: path) new) = registry.ownStep e := by
        unfold ownStep
        rw [Expr.replaceAt, Expr.head_withChildren]
      rw [evaluate_eq, hstep, Expr.replaceAt, Expr.children_withChildren (List.length_modify ..),
        evaluateAll_modify hchild (ih hsub), ← evaluate_eq]

/-- Registries that agree on the names in a tree, each in its role, give it one result. -/
theorem evaluate_congr_names {other : Registry}
    (hagree : ∀ node ∈ e.nodes, ∀ role name, node.head = .inr (role, name) →
      registry.find? role name = other.find? role name) :
    registry.evaluate e = other.evaluate e := by
  refine evaluate_congr fun node hnode => ?_
  cases node with
  | number value => trivial
  | binary left op right => exact findBinary?_congr (hagree _ hnode _ _ rfl)
  | prefixed op operand => exact findUnary?_congr (hagree _ hnode _ _ rfl)
  | postfixed operand op => exact findUnary?_congr (hagree _ hnode _ _ rfl)
  | call name args => exact findFunction?_congr (hagree _ hnode _ _ rfl)

/-! ## The result -/

/-- **The result of a tree is told by the steps of its nodes in post-order.**  The registry and
the tree may be any.  If no step fails, it is the value from the bottom up, and otherwise the
error of the first step that does.  So a tree in it may give way to its value, and only the
names in the tree are asked of the registry. -/
theorem evaluated_in_postOrder (registry : Registry) (e : Expr) :
    (∀ value, registry.evaluate e = .ok value ↔ registry.HasValue e value) ∧
      (∀ error, registry.evaluate e = .error error ↔ registry.FirstFailure e.nodes error) ∧
      ((∃ error, registry.evaluate e = .error error) ↔
        ∃ node ∈ e.nodes, ∃ error, registry.FailsAt node error) ∧
      (∀ path sub value, e.subtree? path = some sub → registry.evaluate sub = .ok value →
        registry.evaluate (e.replaceAt path (.number value)) = registry.evaluate e) ∧
      ∀ other : Registry, (∀ node ∈ e.nodes, ∀ role name, node.head = .inr (role, name) →
        registry.find? role name = other.find? role name) →
        registry.evaluate e = other.evaluate e := by
  refine ⟨fun value => evaluate_eq_ok_iff, fun error => evaluate_eq_error_iff, exists_error_iff,
    fun path sub value hsub hvalue => ?_, fun other hagree => evaluate_congr_names hagree⟩
  apply evaluate_replaceAt hsub
  rw [evaluate, hvalue]

/-- Two nodes of the second argument would fail, and the lower one does so first.  The first
argument may give way to its value. -/
theorem evaluated_in_postOrder_two_failures :
    let sum := Expr.binary (.number (.ofInt 2)) "+".toList (.number (.ofInt 3))
    let faulty := Expr.binary (.postfixed (.number (.ofInt (-1))) "!".toList) "?".toList
      (.number (.ofInt 0))
    let error := EvalError.invalidArgument "!".toList (.notNatural (.ofInt (-1)))
    standard.evaluate sum = .ok (.ofInt 5) ∧
      standard.evaluate (.call "max".toList [sum, faulty]) = .error error ∧
      standard.FirstFailure (Expr.call "max".toList [sum, faulty]).nodes error ∧
      standard.evaluate (.call "max".toList [.number (.ofInt 5), faulty]) = .error error := by
  intro sum faulty error
  obtain ⟨_, hfirst, _, hreplace, _⟩ :=
    evaluated_in_postOrder standard (.call "max".toList [sum, faulty])
  have hsum : standard.evaluate sum = .ok (.ofInt 5) := by decide +kernel
  have herror : standard.evaluate (.call "max".toList [sum, faulty]) = .error error := by
    decide +kernel
  refine ⟨hsum, herror, (hfirst error).mp herror, ?_⟩
  calc standard.evaluate (.call "max".toList [.number (.ofInt 5), faulty])
      = standard.evaluate (.call "max".toList [sum, faulty]) := hreplace [0] sum _ rfl hsum
    _ = .error error := herror

end Registry

end Reckoner
