import Reckoner.Proofs.Registry.Steps
import Reckoner.Proofs.Text.Lowering
import Reckoner.Registry.Standard

/-!
# Reachable registries

A registry is *reachable* if it comes from the empty one by registering
definitions one after the other.  A definition that fails leaves the registry
as it is (`left_eq_of_register`), so failures add nothing to the reachable
registries, and neither do the batch forms: `Reachable.registerAll` and
`reachable_of_ofDefinitions` reduce them to single steps.

`Registry.Admits` says which definitions are registered: those whose names are
valid and new (`register_eq_none_iff`).

`Registry.names` says which names the definitions of a registry declare, apart
from any index.  In a reachable registry they stand in lower case
(`lower_of_mem_names`), and what registration checks holds of every one
(`nameFault_of_mem_names`).  The lexer and the parser use it in two forms: no
name is empty, and a name that begins with no letter holds neither blanks nor
punctuation.
-/

namespace Reckoner

namespace Registry

/-! ## The names of definitions -/

/-- The names that stand for a definition in a role. -/
def names (registry : Registry) : Role → List Text
  | .binary => registry.binary.flatMap (·.aliases)
  | .unary fixity => (registry.unary.filter (·.fixity = fixity)).flatMap (·.aliases)
  | .function => registry.functions.map (·.name)

/-- The names of operators of any kind. -/
def operatorNames (registry : Registry) : List Text :=
  registry.names .binary ++ registry.names (.unary .prefixed) ++
    registry.names (.unary .postfixed)

@[simp] theorem names_empty (role : Role) : empty.names role = [] := by
  cases role <;> rfl

end Registry

/-! ## Normal form -/

theorem mem_dropRepeats {seen names : List Text} {name : Text} :
    name ∈ dropRepeats seen names ↔ name ∈ names ∧ name ∉ seen := by
  induction names generalizing seen with
  | nil => simp [dropRepeats]
  | cons first others ih =>
      rw [dropRepeats]
      by_cases hname : name = first
      · subst hname
        split
        · next hseen => simp [ih, hseen]
        · next hseen => simp [hseen]
      · split <;> simp [ih, hname]

theorem mem_normalizeAliases {names : List Text} {name : Text} :
    name ∈ normalizeAliases names ↔ ∃ written ∈ names, lower written = name := by
  simp [normalizeAliases, mem_dropRepeats]

theorem lower_of_mem_names_normalize {definition : Definition} {name : Text}
    (hname : name ∈ definition.normalize.names) : lower name = name := by
  have hlowered : ∃ written, lower written = name := by
    cases definition with
    | binary operator =>
        obtain ⟨written, _, hlower⟩ := mem_normalizeAliases.mp hname
        exact ⟨written, hlower⟩
    | unary operator =>
        obtain ⟨written, _, hlower⟩ := mem_normalizeAliases.mp hname
        exact ⟨written, hlower⟩
    | function f => exact ⟨f.name, (List.mem_singleton.mp hname).symm⟩
  obtain ⟨written, rfl⟩ := hlowered
  exact lower_lower written

namespace Registry

/-! ## Reachable registries -/

/-- The registries that are built from the empty one by registering
definitions. -/
inductive Reachable : Registry → Prop
  | empty : Reachable empty
  | register {registry next : Registry} {definition : Definition} :
      Reachable registry → registry.register definition = (next, none) → Reachable next

/-! ## One registration -/

@[simp] theorem binary_insertUnary {registry : Registry} {operator : UnaryOperator} :
    (registry.insertUnary operator).binary = registry.binary := by
  unfold insertUnary
  split <;> rfl

@[simp] theorem unary_insertUnary {registry : Registry} {operator : UnaryOperator} :
    (registry.insertUnary operator).unary = registry.unary ++ [operator] := by
  unfold insertUnary
  split <;> rfl

@[simp] theorem functions_insertUnary {registry : Registry} {operator : UnaryOperator} :
    (registry.insertUnary operator).functions = registry.functions := by
  unfold insertUnary
  split <;> rfl

/-- A definition adds its names to its own role and to no other. -/
theorem mem_names_insert {registry : Registry} {definition : Definition} {role : Role}
    {name : Text} :
    name ∈ (registry.insert definition).names role ↔
      name ∈ registry.names role ∨ definition.role = role ∧ name ∈ definition.names := by
  cases definition with
  | binary operator =>
      cases role <;>
        simp [insert, insertBinary, rebuildIdentifiers, names, Definition.role, Definition.names]
  | unary operator =>
      cases role with
      | unary fixity =>
          by_cases hfixity : operator.fixity = fixity <;>
            simp [insert, names, Definition.role, Definition.names, hfixity]
      | binary => simp [insert, names, Definition.role]
      | function => simp [insert, names, Definition.role]
  | function f =>
      cases role <;>
        simp [insert, insertFunction, names, Definition.role, Definition.names, eq_comm]

/-! ## Admission -/

/-- A name is valid in a role, and new in it. -/
def AdmitsName (registry : Registry) (role : Role) (name : Text) : Prop :=
  role.nameFault name = none ∧ name ∉ (registry.index role).names

/-- A definition in normal form has names, all of them valid and new in its
role. -/
def Admits (registry : Registry) (definition : Definition) : Prop :=
  definition.names ≠ [] ∧ ∀ name ∈ definition.names, registry.AdmitsName definition.role name

theorem nameError?_eq_none_iff {registry : Registry} {role : Role} {name : Text} :
    registry.nameError? role name = none ↔ registry.AdmitsName role name := by
  rw [AdmitsName, ← Index.contains_iff_mem_names, nameError?]
  cases role.nameFault name <;> simp

theorem namesError?_eq_none_iff {registry : Registry} {definition : Definition} :
    registry.namesError? definition.role definition.names = none ↔ registry.Admits definition := by
  simp only [Admits, ← nameError?_eq_none_iff, namesError?]
  cases definition.names with
  | nil => simp
  | cons first others => rw [if_neg (by simp), List.findSome?_eq_none_iff]; simp

/-- **A definition can be registered if and only if it is admitted**, and then it
is inserted. -/
theorem register_eq_none_iff {registry next : Registry} {definition : Definition} :
    registry.register definition = (next, none) ↔
      registry.Admits definition.normalize ∧ next = registry.insert definition.normalize := by
  rw [← namesError?_eq_none_iff, register_eq]
  cases registry.namesError? definition.normalize.role definition.normalize.names with
  | some error => simp
  | none => simp [eq_comm]

/-- **A definition that cannot be registered leaves the registry as it is.** -/
theorem left_eq_of_register {registry left : Registry} {definition : Definition}
    {error : RegistryError} (hregister : registry.register definition = (left, some error)) :
    left = registry := by
  rw [register_eq] at hregister
  split at hregister
  · exact (Prod.mk.inj hregister).1.symm
  · exact absurd (Prod.mk.inj hregister).2 (by simp)

/-! ## Sequences of registrations -/

/-- Definitions are registered one after the other, and none of them fails. -/
inductive Takes : Registry → List Definition → Registry → Prop
  | nil {registry : Registry} : Takes registry [] registry
  | cons {registry next last : Registry} {definition : Definition} {definitions : List Definition} :
      registry.register definition = (next, none) → Takes next definitions last →
        Takes registry (definition :: definitions) last

theorem takes_nil_iff {registry left : Registry} : registry.Takes [] left ↔ left = registry :=
  ⟨fun htakes => by cases htakes; rfl, fun heq => heq ▸ .nil⟩

theorem takes_cons_iff {registry left : Registry} {definition : Definition}
    {definitions : List Definition} :
    registry.Takes (definition :: definitions) left ↔
      ∃ next, registry.register definition = (next, none) ∧ next.Takes definitions left := by
  constructor
  · rintro ⟨⟩
    next next hregister htakes => exact ⟨next, hregister, htakes⟩
  · exact fun ⟨next, hregister, htakes⟩ => .cons hregister htakes

/-- Definitions in turn without a failure are registered one by one. -/
theorem registerAll_eq_none_iff {registry left : Registry} {definitions : List Definition} :
    registry.registerAll definitions = (left, none) ↔ registry.Takes definitions left := by
  induction definitions generalizing registry with
  | nil => simp [registerAll, takes_nil_iff, eq_comm]
  | cons definition definitions ih =>
      rw [takes_cons_iff, registerAll]
      rcases registry.register definition with ⟨next, _ | error⟩
      · simp [ih]
      · simp

theorem Takes.eq_foldl {registry left : Registry} {definitions : List Definition}
    (htakes : registry.Takes definitions left) :
    left = (definitions.map Definition.normalize).foldl insert registry := by
  induction htakes with
  | nil => rfl
  | cons hregister _ ih =>
      obtain ⟨_, rfl⟩ := register_eq_none_iff.mp hregister
      exact ih

theorem Reachable.register_left {registry : Registry} (hreach : registry.Reachable)
    (definition : Definition) : (registry.register definition).1.Reachable := by
  rcases hregister : registry.register definition with ⟨left, _ | error⟩
  · exact .register hreach hregister
  · exact left_eq_of_register hregister ▸ hreach

theorem Reachable.registerAll {registry : Registry} (hreach : registry.Reachable)
    (definitions : List Definition) : (registry.registerAll definitions).1.Reachable := by
  induction definitions generalizing registry with
  | nil => exact hreach
  | cons definition definitions ih =>
      have hleft := hreach.register_left definition
      unfold Registry.registerAll
      split
      · next hregister =>
          rw [hregister] at hleft
          exact hleft
      · next hregister =>
          rw [hregister] at hleft
          exact ih hleft

theorem ofDefinitions_eq_ok_iff {registry : Registry} {definitions : List Definition} :
    ofDefinitions definitions = .ok registry ↔ empty.Takes definitions registry := by
  rw [← registerAll_eq_none_iff, ofDefinitions]
  rcases empty.registerAll definitions with ⟨built, _ | error⟩ <;> simp

theorem reachable_of_ofDefinitions {definitions : List Definition} {registry : Registry}
    (hbuild : ofDefinitions definitions = .ok registry) : registry.Reachable := by
  have hreach := Reachable.empty.registerAll definitions
  rwa [registerAll_eq_none_iff.mpr (ofDefinitions_eq_ok_iff.mp hbuild)] at hreach

/-- The standard table stands in normal form, and its definitions can be
registered one after the other. -/
theorem build_standard : build standardBinary standardUnary standardFunctions = .ok standard := by
  rcases hall : empty.registerAll standardDefinitions with ⟨left, failure⟩
  obtain rfl : failure = none := (congrArg Prod.snd hall).symm.trans (by decide +kernel)
  have htakes : empty.Takes standardDefinitions left := registerAll_eq_none_iff.mp hall
  have hnormal : standardDefinitions.map Definition.normalize = standardDefinitions := by rfl
  obtain rfl : left = standard := by rw [htakes.eq_foldl, hnormal, standard]
  exact ofDefinitions_eq_ok_iff.mpr htakes

/-- The standard table is built by registrations. -/
theorem reachable_standard : standard.Reachable :=
  reachable_of_ofDefinitions build_standard

/-- What registration checks of a name holds of all names of a reachable
registry. -/
theorem nameFault_of_mem_names {registry : Registry} (hreach : registry.Reachable) {role : Role}
    {name : Text} (hname : name ∈ registry.names role) : role.nameFault name = none := by
  induction hreach with
  | empty => simp [names_empty] at hname
  | register _ hregister ih =>
      obtain ⟨hadmits, rfl⟩ := register_eq_none_iff.mp hregister
      rcases mem_names_insert.mp hname with hold | ⟨rfl, hnew⟩
      · exact ih hold
      · exact (hadmits.2 name hnew).1

/-- The names in a reachable registry stand in lower case. -/
theorem lower_of_mem_names {registry : Registry} (hreach : registry.Reachable) {role : Role}
    {name : Text} (hname : name ∈ registry.names role) : lower name = name := by
  induction hreach with
  | empty => simp [names_empty] at hname
  | register _ hregister ih =>
      obtain ⟨_, rfl⟩ := register_eq_none_iff.mp hregister
      rcases mem_names_insert.mp hname with hold | ⟨_, hnew⟩
      · exact ih hold
      · exact lower_of_mem_names_normalize hnew

/-! ## Names of operators -/

theorem mem_operatorNames {registry : Registry} {name : Text} :
    name ∈ registry.operatorNames ↔
      name ∈ registry.names .binary ∨ ∃ fixity, name ∈ registry.names (.unary fixity) := by
  have hfixity : (∃ fixity, name ∈ registry.names (.unary fixity)) ↔
      name ∈ registry.names (.unary .prefixed) ∨ name ∈ registry.names (.unary .postfixed) :=
    ⟨fun ⟨fixity, h⟩ => by cases fixity <;> simp [h], fun h => h.elim (⟨_, ·⟩) (⟨_, ·⟩)⟩
  simp [operatorNames, hfixity]

theorem lower_of_mem_operatorNames {registry : Registry} (hreach : registry.Reachable)
    {name : Text} (hname : name ∈ registry.operatorNames) : lower name = name := by
  rcases mem_operatorNames.mp hname with hbinary | ⟨fixity, hunary⟩
  · exact lower_of_mem_names hreach hbinary
  · exact lower_of_mem_names hreach hunary

theorem operatorNameFault_of_mem {registry : Registry} (hreach : registry.Reachable)
    {name : Text} (hname : name ∈ registry.operatorNames) : operatorNameFault name = none := by
  rcases mem_operatorNames.mp hname with hbinary | ⟨fixity, hunary⟩
  · exact nameFault_of_mem_names hreach hbinary
  · exact nameFault_of_mem_names hreach hunary

end Registry

/-! ## Names without fault -/

theorem ne_nil_of_operatorNameFault {name : Text} (hfault : operatorNameFault name = none) :
    name ≠ [] := by
  rintro rfl
  simp [operatorNameFault] at hfault

/-- What it takes for a name to be the name of a function: it is a word. -/
theorem functionNameFault_eq_none_iff {name : Text} :
    functionNameFault name = none ↔ name ≠ [] ∧ ∀ c ∈ name, isLetter c = true := by
  simp [functionNameFault]

/-- What it takes for a name to be the name of an operator: it holds no blank
and no punctuation, and it is a word, or it begins with neither a letter nor a
digit and holds no letter with a case. -/
theorem operatorNameFault_cons_eq_none_iff {first : Char} {rest : Text} :
    operatorNameFault (first :: rest) = none ↔
      (∀ c ∈ first :: rest, isBlank c = false) ∧ (∀ c ∈ first :: rest, isPunctuation c = false) ∧
        first.isDigit = false ∧
        if isLetter first then ∀ c ∈ first :: rest, isLetter c = true
        else ∀ c ∈ first :: rest, isLowerOrUpper c = false := by
  have hnot : ∀ p : Char → Bool,
      (∀ c ∈ first :: rest, p c = false) ↔ (first :: rest).any p = false := by
    intro p
    simp only [List.any_eq_false, Bool.not_eq_true]
  rw [hnot, hnot, hnot, ← List.all_eq_true]
  simp only [operatorNameFault]
  -- the faults are tested in turn, so the truth values of the tests decide
  generalize (first :: rest).any isBlank = blank
  generalize (first :: rest).any isPunctuation = punctuation
  generalize first.isDigit = digit
  generalize isLetter first = letter
  cases blank <;> cases punctuation <;> cases digit <;> cases letter <;> simp

end Reckoner
