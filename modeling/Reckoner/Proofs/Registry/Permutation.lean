import Reckoner.Proofs.Parser.Agreement
import Reckoner.Proofs.Registry.Registration

/-!
# The order of registration

The order in which definitions are registered decides at which positions they
stand, and nothing else.

* Whether definitions can be registered in turn depends on each of them by
  itself and on each two of them, which must not declare one name in one role
  (`exists_takes_iff`).
* Registries with the same definitions agree, wherever the definitions stand
  (`agree_of_mem_definitions_iff`): each look-up finds the one definition that
  declares the name, and a list that is strictly sorted is known by its members.

So the outcome of a permutation is the same (`sameOutcome_of_perm`).
-/

namespace Reckoner

/-- Two definitions do not declare one name in one role. -/
def Definition.Apart (definition other : Definition) : Prop :=
  definition.role = other.role → ∀ name ∈ definition.names, name ∉ other.names

theorem Definition.Apart.symm {definition other : Definition} (hapart : definition.Apart other) :
    other.Apart definition :=
  fun hrole name hother hname => hapart hrole.symm name hname hother

namespace Registry

variable {registry other left : Registry} {definition : Definition} {definitions : List Definition}
  {role : Role} {name : Text}

/-! ## Which definitions can be registered in turn -/

theorem mem_names_index_insert :
    name ∈ ((registry.insert definition).index role).names ↔
      name ∈ (registry.index role).names ∨ definition.role = role ∧ name ∈ definition.names := by
  simp only [← Index.contains_iff_mem_names, Index.contains, index_insert]
  by_cases hrole : definition.role = role
  · by_cases hname : name ∈ definition.names <;>
      simp [hrole, hname, Index.position?_insertAll]
  · simp [hrole]

theorem admits_insert_iff {next : Definition} :
    (registry.insert definition).Admits next ↔ registry.Admits next ∧ definition.Apart next := by
  simp only [Admits, AdmitsName, mem_names_index_insert, Definition.Apart]
  grind

/-- **Definitions can be registered in turn** if and only if each of them can be
registered alone and no two declare one name in one role. -/
theorem exists_takes_iff :
    (∃ left, registry.Takes definitions left) ↔
      (∀ definition ∈ definitions, registry.Admits definition.normalize) ∧
        (definitions.map Definition.normalize).Pairwise Definition.Apart := by
  induction definitions generalizing registry with
  | nil => simp [takes_nil_iff]
  | cons definition definitions ih =>
      have hcons :
          (∃ left, registry.Takes (definition :: definitions) left) ↔
            registry.Admits definition.normalize ∧
              ∃ left, (registry.insert definition.normalize).Takes definitions left := by
        simp only [takes_cons_iff, register_eq_none_iff]
        exact ⟨fun ⟨left, _, ⟨hadmits, rfl⟩, hlater⟩ => ⟨hadmits, left, hlater⟩,
          fun ⟨hadmits, left, hlater⟩ => ⟨left, _, ⟨hadmits, rfl⟩, hlater⟩⟩
      rw [hcons, ih, List.forall_mem_cons, List.map_cons, List.pairwise_cons, List.forall_mem_map]
      simp only [admits_insert_iff]
      exact ⟨fun ⟨hadmits, hall, hpairs⟩ =>
          ⟨⟨hadmits, fun d hd => (hall d hd).1⟩, fun d hd => (hall d hd).2, hpairs⟩,
        fun ⟨⟨hadmits, hall⟩, hapart, hpairs⟩ =>
          ⟨hadmits, fun d hd => ⟨hall d hd, hapart d hd⟩, hpairs⟩⟩

theorem Takes.mem_definitions_iff (htakes : registry.Takes definitions left)
    (hrole : definition.role = role) :
    definition ∈ left.definitions role ↔
      definition ∈ registry.definitions role ∨
        definition ∈ definitions.map Definition.normalize := by
  induction htakes with
  | nil => simp
  | cons hregister _ ih =>
      obtain ⟨_, rfl⟩ := register_eq_none_iff.mp hregister
      rw [ih, mem_definitions_insert hrole, List.map_cons, List.mem_cons, or_assoc]

/-! ## Registries with the same definitions -/

/-- **Registries with the same definitions agree.** -/
theorem agree_of_mem_definitions_iff (hreach : registry.Reachable) (hother : other.Reachable)
    (hsame : ∀ definition : Definition, definition ∈ registry.definitions definition.role ↔
      definition ∈ other.definitions definition.role) : registry.Agree other := by
  have hnames : registry.SameNames other := by
    intro role name
    simp only [mem_names_iff_exists_mem_definitions]
    constructor
    · rintro ⟨definition, hmem, rfl, hname⟩
      exact ⟨definition, (hsame definition).mp hmem, rfl, hname⟩
    · rintro ⟨definition, hmem, rfl, hname⟩
      exact ⟨definition, (hsame definition).mpr hmem, rfl, hname⟩
  refine ⟨fun role name => Option.ext fun definition => ?_, hnames.isOperator_eq hreach hother,
    hnames.identifiers_eq hreach hother⟩
  · rw [hreach.coherent.find?_eq_some_iff, hother.coherent.find?_eq_some_iff]
    constructor
    · rintro ⟨hmem, rfl, hname⟩
      exact ⟨(hsame definition).mp hmem, rfl, hname⟩
    · rintro ⟨hmem, rfl, hname⟩
      exact ⟨(hsame definition).mpr hmem, rfl, hname⟩

/-! ## Permutations -/

/-- Nothing that is done with two registries tells them apart. -/
structure SameBehaviour (registry other : Registry) : Prop where
  identifiers : registry.identifiers = other.identifiers
  find? (role : Role) (name : Text) : registry.find? role name = other.find? role name
  parse (limit : Nat) (source : Text) : registry.parse limit source = other.parse limit source
  calculate (limit : Nat) (source : Text) :
    Calculator.calculate ⟨registry, limit⟩ source = Calculator.calculate ⟨other, limit⟩ source

/-- Both of two registries are built, or neither, and if they are, then nothing
tells them apart. -/
structure SameOutcome (built other : Except RegistryError Registry) : Prop where
  success_iff : (∃ registry, built = .ok registry) ↔ ∃ registry, other = .ok registry
  behaviour (registry registry' : Registry) :
    built = .ok registry → other = .ok registry' → registry.SameBehaviour registry'

theorem Agree.sameBehaviour (hagree : registry.Agree other) : registry.SameBehaviour other :=
  ⟨hagree.identifiers, hagree.find?, hagree.parse, hagree.calculate⟩

/-- A registry has the definitions it is built from, in normal form. -/
theorem mem_definitions_of_ofDefinitions (hbuilt : ofDefinitions definitions = .ok registry) :
    definition ∈ registry.definitions definition.role ↔
      definition ∈ definitions.map Definition.normalize := by
  have hnone : definition ∉ empty.definitions definition.role := by
    cases definition <;> simp [Registry.definitions, Definition.role, empty]
  rw [(ofDefinitions_eq_ok_iff.mp hbuilt).mem_definitions_iff rfl, or_iff_right hnone]

theorem sameOutcome_of_perm {others : List Definition} (hperm : definitions.Perm others) :
    SameOutcome (ofDefinitions definitions) (ofDefinitions others) where
  success_iff := by
    simp only [ofDefinitions_eq_ok_iff, exists_takes_iff, hperm.mem_iff,
      (hperm.map Definition.normalize).pairwise_iff Definition.Apart.symm]
  behaviour := by
    intro registry registry' hbuilt hbuilt'
    refine (agree_of_mem_definitions_iff (reachable_of_ofDefinitions hbuilt)
      (reachable_of_ofDefinitions hbuilt') fun definition => ?_).sameBehaviour
    rw [mem_definitions_of_ofDefinitions hbuilt, mem_definitions_of_ofDefinitions hbuilt',
      (hperm.map Definition.normalize).mem_iff]

/-- **The order of registration is not seen.**  Operators and functions in any
order, and registered in any order among each other, give a registry or none
alike, and one in which everything is read and computed alike. -/
theorem build_perm {binary binary' : List BinaryOperator} {unary unary' : List UnaryOperator}
    {functions functions' : List Function} (hbinary : binary.Perm binary')
    (hunary : unary.Perm unary') (hfunctions : functions.Perm functions') :
    SameOutcome (build binary unary functions) (build binary' unary' functions') ∧
    ∀ interleaved : List Definition,
      interleaved.Perm (binary.map Definition.binary ++ unary.map Definition.unary ++
        functions.map Definition.function) →
        SameOutcome (ofDefinitions interleaved) (build binary' unary' functions') := by
  have hall : (binary.map Definition.binary ++ unary.map Definition.unary ++
      functions.map Definition.function).Perm (binary'.map Definition.binary ++
        unary'.map Definition.unary ++ functions'.map Definition.function) :=
    ((hbinary.map _).append (hunary.map _)).append (hfunctions.map _)
  exact ⟨sameOutcome_of_perm hall, fun _ hperm => sameOutcome_of_perm (hperm.trans hall)⟩

/-- The standard table in reverse is built too, and reads every text alike. -/
theorem build_perm_standard_reverse :
    ∃ registry, ofDefinitions standardDefinitions.reverse = .ok registry ∧
      ∀ limit source, registry.parse limit source = standard.parse limit source := by
  have hsame := (build_perm (List.Perm.refl standardBinary) (List.Perm.refl standardUnary)
    (List.Perm.refl standardFunctions)).2 _ (List.reverse_perm _)
  obtain ⟨registry, hbuilt⟩ := hsame.success_iff.mpr ⟨_, build_standard⟩
  exact ⟨registry, hbuilt, (hsame.behaviour _ _ hbuilt build_standard).parse⟩

end Registry

end Reckoner
