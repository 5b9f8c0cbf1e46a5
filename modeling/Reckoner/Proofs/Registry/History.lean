import Reckoner.Proofs.Lexer.OperatorNames

/-!
# What every registry keeps to

A registry has a history: definitions are registered one by one or in turn, some
of them fail, and now and then a new registry is built in its place.  Whatever
the history, the registry is one that single registrations reach
(`reachable_after`), and so it is well-formed: its indexes and its list of
operator names tell exactly what its definitions declare, and every name is one
that the lexer can yield (`wellFormed_after`).
-/

namespace Reckoner

namespace Registry

variable {registry : Registry} {role : Role} {name : Text}

/-! ## Histories -/

/-- A change of a registry, which may fail. -/
inductive Change
  | register (definition : Definition)
  /-- Definitions are registered in turn up to the first that fails. -/
  | registerAll (definitions : List Definition)
  /-- A new registry takes the place of the old one. -/
  | build (binary : List BinaryOperator) (unary : List UnaryOperator) (functions : List Function)

/-- The registry that a change leaves, successful or not. -/
def apply (registry : Registry) : Change → Registry
  | .register definition => (registry.register definition).1
  | .registerAll definitions => (registry.registerAll definitions).1
  | .build binary unary functions =>
    match Registry.build binary unary functions with
    | .ok built => built
    | .error _ => registry

/-- The registry that changes of the empty one leave. -/
def after (changes : List Change) : Registry :=
  changes.foldl apply empty

theorem Reachable.apply (hreach : registry.Reachable) (change : Change) :
    (registry.apply change).Reachable := by
  cases change with
  | register definition => exact hreach.register_left definition
  | registerAll definitions => exact hreach.registerAll definitions
  | build binary unary functions =>
      simp only [Registry.apply]
      split
      · next hbuild => exact reachable_of_ofDefinitions hbuild
      · exact hreach

theorem reachable_after (changes : List Change) : (after changes).Reachable := by
  have hfold : ∀ {registry : Registry}, registry.Reachable →
      (changes.foldl Registry.apply registry).Reachable := by
    induction changes with
    | nil => exact id
    | cons change changes ih => exact fun hreach => ih (hreach.apply change)
  exact hfold .empty

/-! ## Names that the lexer can yield -/

/-- An operator name that stands alone is read as that operator. -/
theorem splits_of_mem_operatorNames (hreach : registry.Reachable)
    (hname : name ∈ registry.operatorNames) : registry.Splits name [.operator name] := by
  obtain ⟨hscan, hblank⟩ := scan_of_isOperator hreach (isOperator_of_mem hreach hname)
  obtain ⟨first, rest, rfl⟩ := List.exists_cons_of_ne_nil
    (ne_nil_of_operatorNameFault (operatorNameFault_of_mem hreach hname))
  have hsplits : registry.Splits (first :: rest ++ []) [.operator (first :: rest)] :=
    splits_append rfl (hblank first rfl) (by simpa using hscan) (by simp) splits_nil
  rwa [List.append_nil] at hsplits

/-- A function name that stands alone is read as that function, unless it also
names an operator. -/
theorem splits_of_mem_functionNames (hreach : registry.Reachable)
    (hname : name ∈ registry.names .function) (hoperator : registry.isOperator name = false) :
    registry.Splits name [.function name] := by
  obtain ⟨hsome, hletters⟩ := functionNameFault_eq_none_iff.mp (nameFault_of_mem_names hreach hname)
  have hfunction := findFunction?_isSome_of_mem hreach hname
  have hsplits := splits_functionWord hsome hletters hoperator hfunction (by simp [EndsWord])
    splits_nil
  rwa [List.append_nil] at hsplits

/-- A name that stands alone is one lexeme. -/
theorem splits_of_mem_names (hreach : registry.Reachable) (hname : name ∈ registry.names role) :
    registry.Splits name
      [if registry.isOperator name then .operator name else .function name] := by
  split
  · next hoperator =>
      have hlower := (isOperator_iff hreach).mp hoperator
      rw [lower_of_mem_names hreach hname] at hlower
      exact splits_of_mem_operatorNames hreach hlower
  · next hoperator =>
      have hnot : name ∉ registry.operatorNames := fun hmem =>
        hoperator (isOperator_of_mem hreach hmem)
      cases role with
      | binary => exact absurd (mem_operatorNames.mpr (.inl hname)) hnot
      | unary fixity => exact absurd (mem_operatorNames.mpr (.inr ⟨fixity, hname⟩)) hnot
      | function => exact splits_of_mem_functionNames hreach hname (Bool.eq_false_iff.mpr hoperator)

/-! ## Well-formed registries -/

/-- What holds between the definitions of a registry, its indexes, and its list
of operator names. -/
structure WellFormed (registry : Registry) : Prop where
  /-- The index of a role holds the names that the definitions of the role
  declare, each once. -/
  mem_index {role : Role} {name : Text} :
    name ∈ (registry.index role).names ↔ name ∈ registry.names role
  nodup_index (role : Role) : (registry.index role).names.Nodup
  /-- A name stands for a position in range, and there for a definition of the
  role that declares it. -/
  declares_of_position {role : Role} {name : Text} {position : Nat} :
    (registry.index role).position? name = some position →
      position < (registry.definitions role).length ∧ registry.Declares role name position
  /-- A declared name stands for the one position at which it is declared. -/
  position_of_declares {role : Role} {name : Text} {position : Nat} :
    registry.Declares role name position →
      (registry.index role).position? name = some position ∧
        ∀ other, registry.Declares role name other → other = position
  /-- A name is valid in its role, stands in lower case, and is a lexeme. -/
  valid {role : Role} {name : Text} : name ∈ registry.names role →
    name ≠ [] ∧ role.nameFault name = none ∧ lower name = name ∧
      registry.Splits name [if registry.isOperator name then .operator name else .function name]
  /-- The list of operator names is strictly sorted: names of more bytes come
  first, and names of as many bytes in the order of their bytes. -/
  sorted_identifiers : registry.identifiers.Pairwise fun s t =>
    t.bytes.length < s.bytes.length ∨
      s.bytes.length = t.bytes.length ∧ List.Lex (· < ·) s.bytes t.bytes
  nodup_identifiers : registry.identifiers.Nodup
  mem_identifiers {name : Text} : name ∈ registry.identifiers ↔
    name ∈ registry.names .binary ∨ name ∈ registry.names (.unary .prefixed) ∨
      name ∈ registry.names (.unary .postfixed)
  /-- A name is looked up in any case, and its definition is found. -/
  find?_eq_some_iff {role : Role} {name : Text} {definition : Definition} :
    registry.find? role name = some definition ↔
      definition ∈ registry.definitions role ∧ definition.role = role ∧
        lower name ∈ definition.names
  isOperator_iff {name : Text} : registry.isOperator name = true ↔ lower name ∈ registry.identifiers

theorem ne_nil_of_mem_names (hreach : registry.Reachable) (hname : name ∈ registry.names role) :
    name ≠ [] := by
  have hfault := nameFault_of_mem_names hreach hname
  cases role with
  | binary => exact ne_nil_of_operatorNameFault hfault
  | unary fixity => exact ne_nil_of_operatorNameFault hfault
  | function => exact (functionNameFault_eq_none_iff.mp hfault).1

/-- **Reachable registries are well-formed.** -/
theorem Reachable.wellFormed (hreach : registry.Reachable) : registry.WellFormed where
  mem_index := hreach.coherent.mem_names_index
  nodup_index := hreach.coherent.nodup_names
  declares_of_position := by
    intro role name position hposition
    have hdeclares := hreach.coherent.position?_eq_some_iff.mp hposition
    refine ⟨?_, hdeclares⟩
    obtain ⟨definition, hget, _⟩ := hdeclares
    exact (List.getElem?_eq_some_iff.mp hget).1
  position_of_declares hdeclares :=
    ⟨hreach.coherent.position?_eq_some_iff.mpr hdeclares,
      fun _ hother => hreach.coherent.eq_of_declares hother hdeclares⟩
  valid hname :=
    ⟨ne_nil_of_mem_names hreach hname, nameFault_of_mem_names hreach hname,
      lower_of_mem_names hreach hname, splits_of_mem_names hreach hname⟩
  sorted_identifiers := (pairwise_identifiers hreach).imp Text.longerFirst_iff.mp
  nodup_identifiers := nodup_identifiers hreach
  mem_identifiers := by
    intro name
    rw [mem_identifiers hreach, operatorNames, List.mem_append, List.mem_append, or_assoc]
  find?_eq_some_iff := hreach.coherent.find?_eq_some_iff
  isOperator_iff := (isOperator_iff hreach).trans (mem_identifiers hreach).symm

/-- **Whatever changes it went through, a registry is well-formed.** -/
theorem wellFormed_after (changes : List Change) : (after changes).WellFormed :=
  (reachable_after changes).wellFormed

end Registry

end Reckoner
