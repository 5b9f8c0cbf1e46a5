import Reckoner.Registry.Basic

/-!
# The steps of a registration

`Registry.add` checks the names of a definition first and writes to the registry
afterwards: one index entry for each name, the definition, and for an operator
the list of names.  The checks only read (`run_check`), and the writes do not
fail (`run_forM_enter`).  So a registration that fails has written nothing, and
one that succeeds has written everything (`run_add`).

`RegistryM.run` and its lemmas take a run apart at its binds; later proofs know a
registration by `register_eq` and never look inside the monad.  The parser is put
together from steps of the same kind, so what a bind does is said once for any
state (`bind_eq_match`).
-/

namespace Reckoner

/-- Of two steps that may fail, the second one begins in the state that the first
one leaves, unless that fails. -/
theorem bind_eq_match {ε σ α β : Type} (m : ExceptT ε (StateM σ) α)
    (f : α → ExceptT ε (StateM σ) β) (s : σ) :
    (m >>= f) s = match m s with
      | (.ok a, middle) => f a middle
      | (.error error, middle) => (.error error, middle) := by
  show ExceptT.bind m f s = _
  simp only [ExceptT.bind, ExceptT.mk, bind, StateT.bind]
  rcases m s with ⟨_ | _, _⟩ <;> rfl

namespace RegistryM

variable {α β : Type} {m : RegistryM α} {f : α → RegistryM β} {registry middle : Registry}

/-- The result of a step that begins with a registry, and the registry it
leaves. -/
def run (m : RegistryM α) (registry : Registry) : Except RegistryError α × Registry :=
  m registry

theorem run_bind :
    (m >>= f).run registry = match m.run registry with
      | (.ok a, middle) => (f a).run middle
      | (.error error, middle) => (.error error, middle) := by
  unfold run
  rw [bind_eq_match]
  rcases m registry with ⟨_ | _, _⟩ <;> rfl

theorem run_bind_of_ok {a : α} (hfirst : m.run registry = (.ok a, middle)) :
    (m >>= f).run registry = (f a).run middle := by
  rw [run_bind, hfirst]

theorem run_bind_of_error {error : RegistryError}
    (hfirst : m.run registry = (.error error, middle)) :
    (m >>= f).run registry = (.error error, middle) := by
  rw [run_bind, hfirst]

theorem run_get_bind {f : Registry → RegistryM β} :
    ((get : RegistryM Registry) >>= f).run registry = (f registry).run registry := rfl

theorem run_modify {change : Registry → Registry} :
    (modify change : RegistryM Unit).run registry = (.ok (), change registry) := rfl

theorem run_modify_bind {change : Registry → Registry} {f : Unit → RegistryM β} :
    ((modify change : RegistryM Unit) >>= f).run registry = (f ()).run (change registry) := rfl

end RegistryM

namespace Registry

open RegistryM

variable {registry : Registry} {role : Role} {names : List Text} {position : Nat}
  {definition : Definition} {error : RegistryError}

/-! ## Checks -/

/-- Checking the names does not change the registry. -/
theorem run_check :
    (check role names).run registry = match registry.namesError? role names with
      | some error => (.error error, registry)
      | none => (.ok (), registry) := by
  unfold check
  rw [run_get_bind]
  cases registry.namesError? role names <;> rfl

theorem run_check_of_none (hnone : registry.namesError? role names = none) :
    (check role names).run registry = (.ok (), registry) := by
  rw [run_check, hnone]

theorem run_check_of_some (hsome : registry.namesError? role names = some error) :
    (check role names).run registry = (.error error, registry) := by
  rw [run_check, hsome]

/-! ## Writes -/

theorem modifyIndex_modifyIndex {change later : Index → Index} :
    (registry.modifyIndex role change).modifyIndex role later =
      registry.modifyIndex role fun index => later (change index) := by
  rcases role with _ | ⟨_ | _⟩ | _ <;> rfl

/-- Entering names into an index does not fail. -/
theorem run_forM_enter :
    (names.forM (enter role position)).run registry =
      (.ok (), registry.modifyIndex role (·.insertAll names position)) := by
  induction names generalizing registry with
  | nil => rcases role with _ | ⟨_ | _⟩ | _ <;> rfl
  | cons name names ih =>
      have hcons : ((name :: names).forM (enter role position)).run registry =
          (names.forM (enter role position)).run
            (registry.modifyIndex role (·.insert name position)) := rfl
      rw [hcons, ih, modifyIndex_modifyIndex]
      rfl

/-! ## Registration -/

theorem run_addBinary_of_none {operator : BinaryOperator}
    (hnone : registry.namesError? .binary operator.aliases = none) :
    (addBinary operator).run registry = (.ok (), registry.insertBinary operator) := by
  unfold addBinary
  rw [run_bind_of_ok (run_check_of_none hnone), run_get_bind, run_bind_of_ok run_forM_enter,
    run_modify_bind, run_modify]
  rfl

theorem run_addUnary_of_none {operator : UnaryOperator}
    (hnone : registry.namesError? (.unary operator.fixity) operator.aliases = none) :
    (addUnary operator).run registry = (.ok (), registry.insertUnary operator) := by
  unfold addUnary insertUnary
  rw [run_bind_of_ok (run_check_of_none hnone), run_get_bind, run_bind_of_ok run_forM_enter,
    run_modify_bind, run_modify]
  cases operator.fixity <;> rfl

theorem run_addFunction_of_none {f : Function}
    (hnone : registry.namesError? .function [f.name] = none) :
    (addFunction f).run registry = (.ok (), registry.insertFunction f) := by
  unfold addFunction
  rw [run_bind_of_ok (run_check_of_none hnone)]
  rfl

/-- If the names have a fault, then the check is the last step. -/
theorem run_add_of_some
    (hsome : registry.namesError? definition.role definition.names = some error) :
    (add definition).run registry = (.error error, registry) := by
  cases definition with
  | binary operator => exact run_bind_of_error (run_check_of_some hsome)
  | unary operator => exact run_bind_of_error (run_check_of_some hsome)
  | function f => exact run_bind_of_error (run_check_of_some hsome)

/-- **A registration writes everything or nothing.** -/
theorem run_add :
    (add definition).run registry =
      match registry.namesError? definition.role definition.names with
      | some error => (.error error, registry)
      | none => (.ok (), registry.insert definition) := by
  cases hnames : registry.namesError? definition.role definition.names with
  | some error => exact run_add_of_some hnames
  | none =>
      cases definition with
      | binary operator => exact run_addBinary_of_none hnames
      | unary operator => exact run_addUnary_of_none hnames
      | function f => exact run_addFunction_of_none hnames

theorem register_eq :
    registry.register definition =
      match registry.namesError? definition.normalize.role definition.normalize.names with
      | some error => (registry, some error)
      | none => (registry.insert definition.normalize, none) := by
  have hrun : add definition.normalize registry = (add definition.normalize).run registry := rfl
  rw [register, hrun, run_add]
  cases registry.namesError? definition.normalize.role definition.normalize.names <;> rfl

end Registry

end Reckoner
