import Reckoner.Proofs.Evaluation.PostOrder

/-!
# Undefined numbers are passed on

An undefined number is an ordinary value, and an operand like others.  Most rules make an
undefined number of it: they are contagious (`Definition.Contagious`).  A comparison gives zero
or one instead, a power may be 1 whatever its base or exponent is, and of two numbers the
smaller or larger one is the defined one.  The standard table gives `absorbingNames` to these
rules, and every other definition in it is contagious (`contagious_or_absorbs_standard`).

`Registry.passes_undefined` is the induction: under a node with a contagious definition, an
undefined child makes the value of the node undefined, so the number goes up from node to node as
long as it meets only such definitions.
-/

namespace Reckoner

/-! ## Arithmetic -/

namespace Number

theorem add_nan (x : Number) : nan.add x = nan ∧ x.add nan = nan := by
  cases x <;> exact ⟨rfl, rfl⟩

theorem multiply_nan (x : Number) : nan.multiply x = nan ∧ x.multiply nan = nan := by
  cases x <;> exact ⟨rfl, rfl⟩

theorem divide_nan (x : Number) : nan.divide x = nan ∧ x.divide nan = nan := by
  cases x <;> exact ⟨rfl, rfl⟩

theorem remainder_nan (x : Number) : nan.remainder x = nan ∧ x.remainder nan = nan := by
  cases x <;> exact ⟨rfl, rfl⟩

end Number

/-! ## Contagious rules -/

/-- An undefined operand on either side makes the result undefined. -/
def BinaryRule.Contagious (rule : BinaryRule) : Prop :=
  ∀ x, rule .nan x = .ok .nan ∧ rule x .nan = .ok .nan

def UnaryRule.Contagious (rule : UnaryRule) : Prop :=
  rule .nan = .ok .nan

namespace Rules

theorem contagious_add : BinaryRule.Contagious add := fun x => by
  simp [add, Number.add_nan]

theorem contagious_subtract : BinaryRule.Contagious subtract := fun x => by
  simp [subtract, Number.subtract, Number.negate, Number.add_nan]

theorem contagious_multiply : BinaryRule.Contagious multiply := fun x => by
  simp [multiply, Number.multiply_nan]

/-- The check for a zero divisor does not take an undefined number for one. -/
theorem contagious_divide : BinaryRule.Contagious divide := fun x => by
  simp [divide, Number.divide_nan]

theorem contagious_remainder : BinaryRule.Contagious remainder := fun x => by
  simp [remainder, Number.remainder_nan]

/-- An operand is undefined before it is made a word. -/
theorem contagious_onWords (operation : Word → Word → Word) :
    BinaryRule.Contagious (onWords operation) := fun x => by
  simp [onWords, Number.isNaN]

end Rules

namespace Definition

/-- An undefined number among as many values as the definition takes makes its value undefined. -/
def Contagious (definition : Definition) : Prop :=
  ∀ values : List Number, values.length = definition.arity → .nan ∈ values →
    definition.apply values = .ok .nan

theorem contagious_binary {operator : BinaryOperator} (hrule : operator.rule.Contagious) :
    (binary operator).Contagious := by
  intro values hlength hmem
  obtain ⟨x, y, rfl⟩ := List.length_eq_two.mp hlength
  rcases List.mem_pair.mp hmem with rfl | rfl
  · exact (hrule y).1
  · exact (hrule x).2

theorem contagious_unary {operator : UnaryOperator} (hrule : operator.rule.Contagious) :
    (unary operator).Contagious := by
  intro values hlength hmem
  obtain ⟨x, rfl⟩ := List.length_eq_one_iff.mp hlength
  obtain rfl := List.mem_singleton.mp hmem
  exact hrule

/-- A function of one argument is contagious if its rule is. -/
theorem contagious_function {f : Function} (harity : f.arity = 1)
    (hrule : f.rule [.nan] = .ok .nan) : (function f).Contagious := by
  intro values hlength hmem
  obtain ⟨x, rfl⟩ := List.length_eq_one_iff.mp (hlength.trans harity)
  obtain rfl := List.mem_singleton.mp hmem
  exact hrule

end Definition

/-! ## The standard table -/

/-- The names in the standard table whose rules may make a defined number of an undefined one:
comparisons, the power, and the smaller or larger of two numbers. -/
def absorbingNames : Role → List Text
  | .binary => ["==".toList, ">".toList, ">=".toList, "<".toList, "<=".toList, "^".toList,
      "pow".toList]
  | .unary _ => []
  | .function => ["min".toList, "max".toList]

/-- All names of the definition are such names. -/
def Definition.Absorbs (definition : Definition) : Prop :=
  ∀ name ∈ definition.names, name ∈ absorbingNames definition.role

instance (definition : Definition) : Decidable definition.Absorbs :=
  inferInstanceAs (Decidable (∀ name ∈ definition.names, name ∈ absorbingNames definition.role))

/-- The table of binary operators, row by row. -/
theorem contagious_or_absorbs_binary : ∀ operator ∈ standardBinary,
    operator.rule.Contagious ∨ (Definition.binary operator).Absorbs := by
  have hwords (operation : Word → Word → Word) := Rules.contagious_onWords operation
  simp only [standardBinary, List.forall_mem_cons]
  refine ⟨.inr (by decide), .inr (by decide), .inr (by decide), .inr (by decide),
    .inr (by decide), ?_⟩
  refine ⟨.inl (hwords _), .inl (hwords _), .inl (hwords _), .inl (hwords _), .inl (hwords _), ?_⟩
  refine ⟨.inl (hwords _), .inl (hwords _), .inl (hwords _), ?_⟩
  exact ⟨.inl Rules.contagious_add, .inl Rules.contagious_subtract, .inl Rules.contagious_multiply,
    .inl Rules.contagious_divide, .inl Rules.contagious_remainder, .inr (by decide), by simp⟩

/-- **A definition in the standard table passes undefined numbers on, or its names are among those
that need not.** -/
theorem contagious_or_absorbs_standard {definition : Definition}
    (hmem : definition ∈ standardDefinitions) : definition.Contagious ∨ definition.Absorbs := by
  simp only [standardDefinitions, List.mem_append, List.mem_map] at hmem
  obtain (⟨operator, hmem, rfl⟩ | ⟨operator, hmem, rfl⟩) | ⟨f, hmem, rfl⟩ := hmem
  · exact (contagious_or_absorbs_binary operator hmem).imp_left Definition.contagious_binary
  · left
    apply Definition.contagious_unary
    simp only [standardUnary, List.mem_cons, List.not_mem_nil, or_false] at hmem
    rcases hmem with rfl | rfl | rfl <;> rfl
  · simp only [standardFunctions, List.mem_cons, List.not_mem_nil, or_false] at hmem
    rcases hmem with rfl | rfl | rfl | rfl
    · exact .inl (Definition.contagious_function rfl rfl)
    · exact .inl (Definition.contagious_function rfl rfl)
    · exact .inr (by decide)
    · exact .inr (by decide)

theorem Registry.mem_standardDefinitions {role : Role} {definition : Definition}
    (hmem : definition ∈ standard.definitions role) : definition ∈ standardDefinitions := by
  rw [standardDefinitions, List.mem_append, List.mem_append]
  cases role with
  | binary => exact .inl (.inl hmem)
  | unary fixity => exact .inl (.inr hmem)
  | function => exact .inr hmem

theorem Registry.contagious_or_mem_absorbingNames {role : Role} {name : Text}
    {definition : Definition} (hfind : standard.find? role name = some definition) :
    definition.Contagious ∨ lower name ∈ absorbingNames role := by
  obtain ⟨hmem, rfl, hname⟩ := (reachable_standard.coherent.find?_eq_some_iff).mp hfind
  have hstandard := mem_standardDefinitions hmem
  exact (contagious_or_absorbs_standard hstandard).imp_right fun habsorbs => habsorbs _ hname

/-- None of these names is there without need. -/
theorem Registry.isNaN_eq_false_of_mem_absorbingNames (role : Role) :
    ∀ name ∈ absorbingNames role,
      (standard.operate role name [.nan, .zero]).map Number.isNaN = .ok false := by
  cases role with
  | binary => decide +kernel
  | unary fixity => exact nofun
  | function => decide +kernel

/-! ## Nodes -/

namespace Expr

/-- The nodes that are passed on the way to a tree, going from child to child. -/
def nodesAbove : Expr → (path : List Nat) → List Expr
  | _, [] => []
  | e, index :: path =>
    e :: match e.children[index]? with
      | some child => nodesAbove child path
      | none => []

/-- A node with a name that may stand for a defined number although a child is undefined: a
comparison, a power, or the smaller or larger of two numbers. -/
def Absorbs (e : Expr) : Prop :=
  ∃ named ∈ e.head.getRight?, lower named.2 ∈ absorbingNames named.1

instance (e : Expr) : Decidable e.Absorbs :=
  inferInstanceAs (Decidable (∃ named ∈ e.head.getRight?, _))

end Expr

namespace Registry

variable {registry : Registry} {e sub : Expr} {es : List Expr} {values : List Number}
  {value : Number}

theorem getElem?_of_evaluateAll {index : Nat} {child : Expr}
    (hvalues : registry.evaluateAll es = .ok values) (hchild : es[index]? = some child) :
    ∃ x, values[index]? = some x ∧ registry.evaluate child = .ok x := by
  induction es generalizing index values with
  | nil => simp at hchild
  | cons e es ih =>
      obtain ⟨first, others, hfirst, hothers, rfl⟩ := evaluateAll_cons_eq_ok_iff.mp hvalues
      cases index with
      | zero =>
          obtain rfl := Option.some.inj hchild
          exact ⟨first, rfl, hfirst⟩
      | succ index =>
          obtain ⟨x, hget, hx⟩ := ih hothers hchild
          exact ⟨x, hget, hx⟩

/-- A name with a contagious definition makes an undefined number of undefined values. -/
theorem operate_eq_nan {role : Role} {name : Text}
    (hdefinition : ∀ definition, registry.find? role name = some definition →
      definition.Contagious)
    (hnan : .nan ∈ values) (hvalue : registry.operate role name values = .ok value) :
    value = .nan := by
  unfold operate at hvalue
  cases hfind : registry.find? role name with
  | none => simp [hfind] at hvalue
  | some definition =>
      simp only [hfind] at hvalue
      by_cases hlength : values.length = definition.arity
      · rw [if_pos hlength, hdefinition definition hfind values hlength hnan] at hvalue
        exact (Except.ok.inj hvalue).symm
      · simp [hlength] at hvalue

/-- A node whose name has a contagious definition passes an undefined child on. -/
theorem passes_undefined_child {index : Nat} {child : Expr}
    (hdefinition : ∀ role name definition, e.head = .inr (role, name) →
      registry.find? role name = some definition → definition.Contagious)
    (hchild : e.children[index]? = some child) (hnan : registry.evaluate child = .ok .nan)
    (hvalue : registry.evaluate e = .ok value) : value = .nan := by
  obtain ⟨values, hvalues, hstep⟩ := evaluate_eq_ok_iff_children.mp hvalue
  obtain ⟨x, hget, hx⟩ := getElem?_of_evaluateAll hvalues hchild
  obtain rfl : x = .nan := Except.ok.inj (hx.symm.trans hnan)
  rw [ownStep] at hstep
  cases hhead : e.head with
  | inl number =>
      cases e with
      | number _ => simp [Expr.children] at hchild
      | _ => cases hhead
  | inr named =>
      obtain ⟨role, name⟩ := named
      rw [hhead] at hstep
      exact operate_eq_nan (fun definition => hdefinition role name definition hhead)
        (List.mem_of_getElem? hget) hstep

/-- **An undefined number goes up through contagious definitions.** -/
theorem passes_undefined {path : List Nat}
    (hdefinition : ∀ node ∈ e.nodesAbove path, ∀ role name definition,
      node.head = .inr (role, name) → registry.find? role name = some definition →
        definition.Contagious)
    (hsub : e.subtree? path = some sub) (hnan : registry.evaluate sub = .ok .nan)
    (hvalue : registry.evaluate e = .ok value) : value = .nan := by
  induction path generalizing e value with
  | nil =>
      obtain rfl := Option.some.inj hsub
      exact Except.ok.inj (hvalue.symm.trans hnan)
  | cons index path ih =>
      obtain ⟨child, hchild, hsub⟩ := Option.bind_eq_some_iff.mp hsub
      rw [Expr.nodesAbove, hchild] at hdefinition
      obtain ⟨hown, hbelow⟩ := List.forall_mem_cons.mp hdefinition
      obtain ⟨values, hvalues, _⟩ := evaluate_eq_ok_iff_children.mp hvalue
      obtain ⟨x, _, hx⟩ := getElem?_of_evaluateAll hvalues hchild
      obtain rfl := ih hbelow hsub hx
      exact passes_undefined_child hown hchild hx hvalue

/-- **In the standard table an undefined number makes all trees around it undefined**, up to a
comparison, a power, or the smaller or larger of two numbers, under whichever of their names. -/
theorem evaluate_eq_nan {path : List Nat} (hsub : e.subtree? path = some sub)
    (hnan : standard.evaluate sub = .ok .nan)
    (habove : ∀ node ∈ e.nodesAbove path, ¬ node.Absorbs)
    (hvalue : standard.evaluate e = .ok value) : value = .nan := by
  refine passes_undefined (fun node hnode role name definition hhead hfind => ?_) hsub hnan hvalue
  refine (contagious_or_mem_absorbingNames hfind).resolve_right fun hname => ?_
  exact habove node hnode ⟨(role, name), by simp [hhead], hname⟩

/-- A quotient by zero under a factorial, a product and a change of sign. -/
theorem evaluate_eq_nan_nested :
    let quotient := Expr.binary (.number .one) "/".toList (.number .zero)
    let e := Expr.prefixed "-".toList
      (.binary (.number .one) "Times".toList (.postfixed quotient "!".toList))
    standard.evaluate quotient = .ok .nan ∧
      (∀ node ∈ e.nodesAbove [0, 1, 0], ¬ node.Absorbs) ∧
      (∀ value, standard.evaluate e = .ok value → value = .nan) ∧
      standard.evaluate e = .ok .nan := by
  intro quotient e
  have hquotient : standard.evaluate quotient = .ok .nan := by decide +kernel
  have habove : ∀ node ∈ e.nodesAbove [0, 1, 0], ¬ node.Absorbs := by decide +kernel
  exact ⟨hquotient, habove, fun value => evaluate_eq_nan rfl hquotient habove, by decide +kernel⟩

end Registry

end Reckoner
