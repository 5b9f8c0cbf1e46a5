import Reckoner.Proofs.Config.Standard
import Reckoner.Proofs.Evaluation.PostOrder

/-!
# The applications of rules

A function rule reads its arguments by their numbers, so it must be given as many as it asks
for.  Trees do not see to that, since they may come from anywhere; the evaluator does, if the
number that it checks is the one that the rule asks for.

`Registry.trace` is the evaluator with a note of every rule that it applies and of the values
that the rule is applied to.  It is written as the evaluator is, part by part, and gives the
same results (`Traced.notes_evaluate`).  What it notes are definitions of the registry with as
many values as they take, whatever the tree.

In a registry that is built from a table the rules are those of the catalog, and each function
takes as many arguments as the catalog pairs with its rule (`Registry.CatalogOnly`).  That is
kept by registration, which changes names and nothing else.  And a rule of the catalog finds
its arguments exactly if it is given so many (`Catalog.functionRule_finds_iff`).
-/

namespace Reckoner

/-! ## Evaluation with notes -/

/-- A rule with the values that it is applied to. -/
structure Application where
  definition : Definition
  values : List Number

/-- A step of the evaluator that notes the applications, the latest first. -/
abbrev TracedM := ExceptT EvalError (StateM (List Application))

/-- The result of a step, and what has been noted by then. -/
def TracedM.run {α : Type} (traced : TracedM α) (noted : List Application) :
    Except EvalError α × List Application :=
  traced noted

namespace Traced

/-- Applies a rule, for the node with the given name. -/
def apply (name : Text) (definition : Definition) (values : List Number) : TracedM Number :=
  fun noted => (Registry.applied name (definition.apply values), ⟨definition, values⟩ :: noted)

def applyBinary (registry : Registry) (op : Text) (left right : Number) : TracedM Number :=
  match registry.findBinary? op with
  | none => throw (.unknown .binary op)
  | some operator => apply op (.binary operator) [left, right]

def applyUnary (registry : Registry) (fixity : Fixity) (op : Text) (operand : Number) :
    TracedM Number :=
  match registry.findUnary? fixity op with
  | none => throw (.unknown (.unary fixity) op)
  | some operator => apply op (.unary operator) [operand]

def applyFunction (registry : Registry) (name : Text) (args : List Number) : TracedM Number :=
  match registry.findFunction? name with
  | none => throw (.unknown .function name)
  | some f =>
    if args.length = f.arity then apply name (.function f) args
    else throw (.arity name f.arity args.length)

mutual

def evaluate (registry : Registry) : Expr → TracedM Number
  | .number value => return value
  | .binary left op right => do
    let leftValue ← evaluate registry left
    let rightValue ← evaluate registry right
    applyBinary registry op leftValue rightValue
  | .prefixed op operand => do
    let value ← evaluate registry operand
    applyUnary registry .prefixed op value
  | .postfixed operand op => do
    let value ← evaluate registry operand
    applyUnary registry .postfixed op value
  | .call name args => do
    let values ← evaluateAll registry args
    applyFunction registry name values

/-- The values of trees, from left to right. -/
def evaluateAll (registry : Registry) : List Expr → TracedM (List Number)
  | [] => return []
  | e :: es => do
    let value ← evaluate registry e
    let values ← evaluateAll registry es
    return value :: values

end

end Traced

/-- The result of a tree, and the applications that were made for it. -/
def Registry.trace (registry : Registry) (e : Expr) :
    Except EvalError Number × List Application :=
  (Traced.evaluate registry e).run []

/-! ## What is noted -/

/-- A definition that the registry finds, with as many values as its rule takes. -/
def Application.Fits (registry : Registry) (application : Application) : Prop :=
  application.values.length = application.definition.arity ∧
    ∃ role name, registry.find? role name = some application.definition

namespace TracedM

variable {registry : Registry} {α β : Type} {traced : TracedM α} {result : Except EvalError α}
  {f' : α → TracedM β} {f : α → Except EvalError β}

theorem run_bind {noted : List Application} :
    (traced >>= f').run noted = match traced.run noted with
      | (.ok a, later) => (f' a).run later
      | (.error error, later) => (.error error, later) := by
  show ExceptT.bind traced f' noted = _
  unfold run
  simp only [ExceptT.bind, ExceptT.mk, bind, StateT.bind]
  rcases traced noted with ⟨_ | _, _⟩ <;> rfl

/-- A step with notes has the result of the step without, and only notes what fits. -/
def Notes (registry : Registry) (traced : TracedM α) (result : Except EvalError α) : Prop :=
  ∀ noted : List Application, (∀ application ∈ noted, application.Fits registry) →
    (traced.run noted).1 = result ∧
      ∀ application ∈ (traced.run noted).2, application.Fits registry

namespace Notes

theorem bind (hfirst : Notes registry traced result) (hnext : ∀ a, Notes registry (f' a) (f a)) :
    Notes registry (traced >>= f') (result >>= f) := by
  intro noted hnoted
  obtain ⟨hresult, hfits⟩ := hfirst noted hnoted
  rw [run_bind]
  rcases hrun : traced.run noted with ⟨error | a, later⟩
  · rw [hrun] at hresult hfits
    subst hresult
    exact ⟨rfl, hfits⟩
  · rw [hrun] at hresult hfits
    subst hresult
    exact hnext a later hfits

theorem pure {a : α} : Notes registry (pure a) (.ok a) :=
  fun _ hnoted => ⟨rfl, hnoted⟩

theorem throw {error : EvalError} : Notes registry (throw error : TracedM α) (.error error) :=
  fun _ hnoted => ⟨rfl, hnoted⟩

theorem apply {role : Role} {name : Text} {definition : Definition} {values : List Number}
    (hfind : registry.find? role name = some definition)
    (harity : values.length = definition.arity) :
    Notes registry (Traced.apply name definition values)
      (Registry.applied name (definition.apply values)) := by
  intro noted hnoted
  exact ⟨rfl, List.forall_mem_cons.mpr ⟨⟨harity, role, name, hfind⟩, hnoted⟩⟩

end Notes

end TracedM

namespace Traced

open TracedM

variable {registry : Registry}

theorem notes_applyBinary (op : Text) (x y : Number) :
    Notes registry (applyBinary registry op x y) (registry.applyBinary op x y) := by
  unfold applyBinary Registry.applyBinary
  cases hfind : registry.findBinary? op with
  | none => exact .throw
  | some operator =>
      have hfound : registry.find? .binary op = some (.binary operator) := by
        rw [Registry.find?, hfind, Option.map_some]
      exact .apply hfound rfl

theorem notes_applyUnary (fixity : Fixity) (op : Text) (x : Number) :
    Notes registry (applyUnary registry fixity op x) (registry.applyUnary fixity op x) := by
  unfold applyUnary Registry.applyUnary
  cases hfind : registry.findUnary? fixity op with
  | none => exact .throw
  | some operator =>
      have hfound : registry.find? (.unary fixity) op = some (.unary operator) := by
        rw [Registry.find?, hfind, Option.map_some]
      exact .apply hfound rfl

theorem notes_applyFunction (name : Text) (args : List Number) :
    Notes registry (applyFunction registry name args) (registry.applyFunction name args) := by
  unfold applyFunction Registry.applyFunction
  cases hfind : registry.findFunction? name with
  | none => exact .throw
  | some f =>
      have hfound : registry.find? .function name = some (.function f) := by
        rw [Registry.find?, hfind, Option.map_some]
      dsimp only
      by_cases harity : args.length = f.arity
      · rw [if_pos harity, if_pos harity]
        exact .apply hfound harity
      · rw [if_neg harity, if_neg harity]
        exact .throw

mutual

/-- The notes change no result, and what is noted fits. -/
theorem notes_evaluate : ∀ e : Expr, Notes registry (evaluate registry e) (registry.evaluate e)
  | .number value => by
      rw [evaluate, Registry.evaluate]
      exact .pure
  | .binary left op right => by
      rw [evaluate, Registry.evaluate]
      refine (notes_evaluate left).bind fun x => (notes_evaluate right).bind fun y => ?_
      exact notes_applyBinary op x y
  | .prefixed op operand => by
      rw [evaluate, Registry.evaluate]
      exact (notes_evaluate operand).bind fun x => notes_applyUnary .prefixed op x
  | .postfixed operand op => by
      rw [evaluate, Registry.evaluate]
      exact (notes_evaluate operand).bind fun x => notes_applyUnary .postfixed op x
  | .call name args => by
      rw [evaluate, Registry.evaluate]
      exact (notes_evaluateAll args).bind fun values => notes_applyFunction name values

theorem notes_evaluateAll : ∀ es : List Expr,
    Notes registry (evaluateAll registry es) (registry.evaluateAll es)
  | [] => by
      rw [evaluateAll, Registry.evaluateAll]
      exact .pure
  | e :: es => by
      rw [evaluateAll, Registry.evaluateAll]
      refine (notes_evaluate e).bind fun value => (notes_evaluateAll es).bind fun values => ?_
      exact .pure

end

end Traced

/-! ## The rules of the catalog -/

namespace Catalog

variable {name : Text} {rule : BinaryRule}

/-- The binary rules reject nothing. -/
theorem exists_value_of_binaryRule (hmem : (name, rule) ∈ binaryRules) (x y : Number) :
    ∃ value, rule x y = .ok value := by
  have hall : ∀ entry ∈ binaryRules, ∃ value, entry.2 x y = .ok value := by
    simp only [binaryRules, List.forall_mem_cons, List.not_mem_nil, IsEmpty.forall_iff,
      implies_true, and_true]
    and_intros <;> exact ⟨_, rfl⟩
  exact hall _ hmem

/-- The unary rules miss no argument. -/
theorem unaryRule_ne_missingArgument {rule : UnaryRule} (hmem : (name, rule) ∈ unaryRules)
    (x : Number) (index : Nat) : rule x ≠ .error (.missingArgument index) := by
  have hall : ∀ entry ∈ unaryRules, entry.2 x ≠ .error (.missingArgument index) := by
    simp only [unaryRules, List.forall_mem_cons, List.not_mem_nil, IsEmpty.forall_iff,
      implies_true, and_true]
    refine ⟨by simp [Rules.identity], by simp [Rules.negate], ?_⟩
    unfold Rules.factorial
    split_ifs <;> simp
  exact hall _ hmem

/-- A rule that asks for its first argument only. -/
theorem asksForOne_finds_iff (f : Number → Number) (args : List Number) :
    (∀ index, (Rules.argument args 0 >>= fun x => pure (f x)) ≠
      .error (Rejection.missingArgument index)) ↔ 1 ≤ args.length := by
  cases args with
  | nil => simp [Rules.argument, bind, Except.bind]
  | cons x args => simp [Rules.argument, bind, Except.bind, pure, Except.pure]

/-- A rule that asks for its first two arguments. -/
theorem asksForTwo_finds_iff (f : Number → Number → Number) (args : List Number) :
    (∀ index, (Rules.argument args 0 >>= fun x => Rules.argument args 1 >>= fun y =>
      pure (f x y)) ≠ .error (Rejection.missingArgument index)) ↔ 2 ≤ args.length := by
  cases args with
  | nil => simp [Rules.argument, bind, Except.bind]
  | cons x args =>
      cases args with
      | nil => simp [Rules.argument, bind, Except.bind]
      | cons y args => simp [Rules.argument, bind, Except.bind, pure, Except.pure]

/-- A function rule finds all arguments that it asks for if and only if it is given as many as
are listed with it. -/
theorem functionRule_finds_iff {arity : Nat} {rule : FunctionRule}
    (hmem : (name, arity, rule) ∈ functionRules) (args : List Number) :
    (∀ index, rule args ≠ .error (.missingArgument index)) ↔ arity ≤ args.length := by
  have hall : ∀ entry ∈ functionRules,
      (∀ index, entry.2.2 args ≠ .error (.missingArgument index)) ↔ entry.2.1 ≤ args.length := by
    simp only [functionRules, List.forall_mem_cons, List.not_mem_nil, IsEmpty.forall_iff,
      implies_true, and_true]
    exact ⟨asksForOne_finds_iff Number.magnitude args,
      asksForOne_finds_iff (fun x => if x.isNaN then .nan else .ofWord (~~~x.toWord)) args,
      asksForTwo_finds_iff Number.min args, asksForTwo_finds_iff Number.max args⟩
  exact hall _ hmem

end Catalog

/-- The rule of a definition is one of the catalog, and that of a function is listed there with
the number of arguments that the function has. -/
def Definition.FromCatalog : Definition → Prop
  | binary operator => ∃ name, (name, operator.rule) ∈ Catalog.binaryRules
  | unary operator => ∃ name, (name, operator.rule) ∈ Catalog.unaryRules
  | function f => ∃ name, (name, f.arity, f.rule) ∈ Catalog.functionRules

section FromCatalog

variable {definition : Definition}

theorem Entry.Describes.fromCatalog {entry : Entry} (hdescribes : entry.Describes definition) :
    definition.FromCatalog := by
  cases hdescribes with
  | binary hrule => exact ⟨_, hrule⟩
  | unary hrule => exact ⟨_, hrule⟩
  | function hrule => exact ⟨_, hrule⟩

theorem Definition.FromCatalog.normalize (hcatalog : definition.FromCatalog) :
    definition.normalize.FromCatalog := by
  cases definition with
  | binary operator => exact hcatalog
  | unary operator => exact hcatalog
  | function f => exact hcatalog

/-- Given as many values as it takes, a rule of the catalog misses none. -/
theorem Definition.FromCatalog.apply_ne_missingArgument (hcatalog : definition.FromCatalog)
    {values : List Number} (harity : values.length = definition.arity) (index : Nat) :
    definition.apply values ≠ .error (.missingArgument index) := by
  cases definition with
  | binary operator =>
      obtain ⟨name, hrule⟩ := hcatalog
      obtain ⟨x, y, rfl⟩ := List.length_eq_two.mp harity
      obtain ⟨value, hvalue⟩ := Catalog.exists_value_of_binaryRule hrule x y
      rw [apply, hvalue]
      simp
  | unary operator =>
      obtain ⟨name, hrule⟩ := hcatalog
      obtain ⟨x, rfl⟩ := List.length_eq_one_iff.mp harity
      exact Catalog.unaryRule_ne_missingArgument hrule x index
  | function f =>
      obtain ⟨name, hrule⟩ := hcatalog
      exact (Catalog.functionRule_finds_iff hrule values).mpr (Nat.le_of_eq harity.symm) index

end FromCatalog

/-! ## Registries that are built from tables -/

namespace Registry

/-- All definitions have rules of the catalog. -/
def CatalogOnly (registry : Registry) : Prop :=
  ∀ definition ∈ registry.definitions definition.role, definition.FromCatalog

variable {registry next : Registry} {definition : Definition}

theorem catalogOnly_empty : empty.CatalogOnly := by
  intro definition hmem
  cases definition <;> cases hmem

theorem CatalogOnly.insert (honly : registry.CatalogOnly) (hcatalog : definition.FromCatalog) :
    (registry.insert definition).CatalogOnly := by
  intro other hmem
  rcases (mem_definitions_insert rfl).mp hmem with hold | rfl
  · exact honly other hold
  · exact hcatalog

theorem CatalogOnly.register (honly : registry.CatalogOnly) (hcatalog : definition.FromCatalog)
    (hregister : registry.register definition = (next, none)) : next.CatalogOnly := by
  obtain ⟨_, rfl⟩ := register_eq_none_iff.mp hregister
  exact honly.insert hcatalog.normalize

theorem CatalogOnly.registers {entries : List Entry} (honly : registry.CatalogOnly)
    (hregisters : Config.Registers registry entries next) : next.CatalogOnly := by
  induction hregisters with
  | nil => exact honly
  | cons hdescribes hregister _ ih => exact ih (honly.register hdescribes.fromCatalog hregister)

theorem catalogOnly_of_build {config : Config} (hbuild : config.build = .ok registry) :
    registry.CatalogOnly := by
  rw [Config.build, Config.definitions_eq_map_resolve] at hbuild
  exact catalogOnly_empty.registers (Config.registerAll_eq_ok_iff.mp hbuild)

/-- Both fixities keep their operators in one list, so what stands in the list of a role stands
in that of its own. -/
theorem mem_definitions_role {role : Role} (hmem : definition ∈ registry.definitions role) :
    definition ∈ registry.definitions definition.role := by
  cases role with
  | binary =>
      obtain ⟨operator, _, rfl⟩ := List.mem_map.mp hmem
      exact hmem
  | unary fixity =>
      obtain ⟨operator, _, rfl⟩ := List.mem_map.mp hmem
      exact hmem
  | function =>
      obtain ⟨f, _, rfl⟩ := List.mem_map.mp hmem
      exact hmem

theorem CatalogOnly.fromCatalog_of_find? (honly : registry.CatalogOnly) {role : Role} {name : Text}
    (hfind : registry.find? role name = some definition) : definition.FromCatalog := by
  rw [find?_eq_bind] at hfind
  obtain ⟨position, _, hget⟩ := Option.bind_eq_some_iff.mp hfind
  exact honly definition (mem_definitions_role (List.mem_of_getElem? hget))

/-- An argument is rejected by a rule that was found and given as many values as it takes. -/
theorem exists_of_operate_eq_invalidArgument {role : Role} {name other : Text}
    {values : List Number} {cause : Rejection}
    (hoperate : registry.operate role name values = .error (.invalidArgument other cause)) :
    ∃ definition, registry.find? role name = some definition ∧
      values.length = definition.arity ∧ definition.apply values = .error cause := by
  unfold operate at hoperate
  cases hfind : registry.find? role name with
  | none => simp [hfind] at hoperate
  | some definition =>
      simp only [hfind] at hoperate
      by_cases harity : values.length = definition.arity
      · rw [if_pos harity] at hoperate
        cases hrule : definition.apply values with
        | ok value => simp [hrule] at hoperate
        | error rejection =>
            obtain ⟨_, rfl⟩ : name = other ∧ rejection = cause := by simpa [hrule] using hoperate
            exact ⟨definition, rfl, harity, hrule⟩
      · rw [if_neg harity] at hoperate
        cases hoperate

/-- In a registry with rules of the catalog only, no node fails for want of an argument. -/
theorem CatalogOnly.evaluate_ne_missingArgument (honly : registry.CatalogOnly) (e : Expr)
    (name : Text) (index : Nat) :
    registry.evaluate e ≠ .error (.invalidArgument name (.missingArgument index)) := by
  intro herror
  obtain ⟨before, node, after, _, _, values, _, hstep⟩ := evaluate_eq_error_iff.mp herror
  unfold ownStep at hstep
  split at hstep
  · cases hstep
  · obtain ⟨definition, hfind, harity, hrule⟩ := exists_of_operate_eq_invalidArgument hstep
    exact (honly.fromCatalog_of_find? hfind).apply_ne_missingArgument harity index hrule

/-- The registry of the standard table or of a configuration. -/
inductive FromTable : Registry → Prop
  | standard {registry : Registry}
      (hbuild : Registry.build standardBinary standardUnary standardFunctions = .ok registry) :
      FromTable registry
  | config {config : Config} {registry : Registry} (hbuild : config.build = .ok registry) :
      FromTable registry

theorem FromTable.catalogOnly (htable : registry.FromTable) : registry.CatalogOnly := by
  cases htable with
  | standard hbuild =>
      obtain rfl := Except.ok.inj (build_standard.symm.trans hbuild)
      exact catalogOnly_of_build Config.build_standard
  | config hbuild => exact catalogOnly_of_build hbuild

/-- **Rules are given the arguments that they ask for.**  The registry is that of the standard
table or of any configuration, and the tree may be any, also one that no text stands for.  The
evaluator with notes has the results of the evaluator.  Each rule that it applies is given as
many values as its definition says, and stands in the catalog, that of a function with just
this number of arguments; so it misses none of them, and no tree fails for that reason. -/
theorem FromTable.applications (htable : registry.FromTable) (e : Expr) :
    (registry.trace e).1 = registry.evaluate e ∧
      (∀ application ∈ (registry.trace e).2,
        application.values.length = application.definition.arity ∧
          application.definition.FromCatalog ∧
          ∀ index, application.definition.apply application.values ≠
            .error (.missingArgument index)) ∧
      ∀ name index,
        registry.evaluate e ≠ .error (.invalidArgument name (.missingArgument index)) := by
  have honly := htable.catalogOnly
  have hnotes : TracedM.Notes registry (Traced.evaluate registry e) (registry.evaluate e) :=
    Traced.notes_evaluate e
  obtain ⟨hresult, hfits⟩ := hnotes [] (by simp)
  refine ⟨hresult, fun application hnoted => ?_, honly.evaluate_ne_missingArgument e⟩
  obtain ⟨harity, role, name, hfind⟩ := hfits application hnoted
  have hcatalog := honly.fromCatalog_of_find? hfind
  exact ⟨harity, hcatalog, hcatalog.apply_ne_missingArgument harity⟩

/-- A function under another name than its rule, called with two arguments, of which the second
is a call with one argument only.  The first argument is the one application that is made. -/
theorem FromTable.applications_renamed :
    let first := Expr.call "biggest".toList [.number .one, .number .zero]
    let faulty := Expr.call "biggest".toList [first, .call "biggest".toList [.number .zero]]
    ∃ registry, Config.renamed.build = .ok registry ∧
      (registry.trace faulty).2.map (·.values) = [[.one, .zero]] ∧
      (∀ application ∈ (registry.trace faulty).2,
        application.values.length = application.definition.arity ∧
          application.definition.FromCatalog ∧
          ∀ index, application.definition.apply application.values ≠
            .error (.missingArgument index)) ∧
      registry.evaluate faulty = .error (.arity "biggest".toList 2 1) := by
  intro first faulty
  have htable {registry : Registry} (hbuild : Config.renamed.build = .ok registry) :
      registry.FromTable := .config hbuild
  refine ⟨_, rfl, ?_, ((htable rfl).applications faulty).2.1, ?_⟩
  · decide +kernel
  · decide +kernel

end Registry

end Reckoner
