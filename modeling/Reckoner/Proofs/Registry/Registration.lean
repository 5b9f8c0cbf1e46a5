import Reckoner.Proofs.Registry.Identifiers

/-!
# What registration does

A definition is registered as a whole or not at all.

* `exists_register_eq_none_iff`: it is if its names are admitted, each of them
  valid in its role and new there.
* `find?_insert`: the new definition is then found by its names in its role, and
  every other look-up gives what it gave before.
* `register_eq_some_iff`: otherwise the registry that is left is the one that was
  there.  `FirstFault` says what the error is: that there is no name, or the fault
  of the first name that has one.  A name that is not valid is not asked for in
  the index.
* `registerAll_eq_some_iff`: of definitions that are registered in turn, those
  before the first that fails are kept.
-/

namespace Reckoner

namespace Registry

variable {registry next left : Registry} {definition : Definition} {role : Role} {name : Text}
  {error : RegistryError}

/-! ## Success -/

theorem exists_register_eq_none_iff :
    (∃ next, registry.register definition = (next, none)) ↔
      registry.Admits definition.normalize := by
  simp [register_eq_none_iff]

/-- A function has one name, which is a word. -/
theorem admits_function_iff {f : Function} :
    registry.Admits (.function f) ↔
      f.name ≠ [] ∧ (∀ c ∈ f.name, isLetter c = true) ∧ f.name ∉ registry.functionIndex.names := by
  simp [Admits, AdmitsName, Definition.names, Definition.role, Role.nameFault,
    functionNameFault_eq_none_iff, index, and_assoc]

theorem mem_definitions_insert {other : Definition} (hrole : other.role = role) :
    other ∈ (registry.insert definition).definitions role ↔
      other ∈ registry.definitions role ∨ other = definition := by
  by_cases hdefinition : definition.role = role
  · rw [← hdefinition, definitions_insert_role, List.mem_append, List.mem_singleton]
  · obtain ⟨others, hothers, hne⟩ := @definitions_insert_of_ne registry _ _ hdefinition
    have hother : other ∉ others := fun hmem => hne other hmem hrole
    have hnot : other ≠ definition := fun heq => hdefinition (heq ▸ hrole)
    simp [hothers, hother, hnot]

/-- Definitions have names. -/
theorem names_ne_nil_of_mem (hreach : registry.Reachable)
    (hmem : definition ∈ registry.definitions definition.role) : definition.names ≠ [] := by
  induction hreach with
  | empty => cases definition <;> simp [definitions, Definition.role, empty] at hmem
  | register _ hregister ih =>
      obtain ⟨hadmits, rfl⟩ := register_eq_none_iff.mp hregister
      rcases (mem_definitions_insert rfl).mp hmem with hold | rfl
      · exact ih hold
      · exact hadmits.1

/-- **The new definition is found by its names, and nothing else changes.** -/
theorem find?_insert (hcoherent : registry.Coherent) (hadmits : registry.Admits definition) :
    (registry.insert definition).find? role name =
      if definition.role = role ∧ lower name ∈ definition.names then some definition
      else registry.find? role name := by
  have hnext : (registry.insert definition).Coherent := hcoherent.insert hadmits
  refine Option.ext fun other => ?_
  rw [hnext.find?_eq_some_iff]
  split
  · next hfound =>
      obtain ⟨rfl, hname⟩ := hfound
      rw [Option.some.injEq]
      constructor
      · rintro ⟨hmem, hrole, hother⟩
        refine ((mem_definitions_insert hrole).mp hmem).elim (fun hold => ?_) Eq.symm
        -- a definition that had the name before leaves no room for a new one
        have hdeclared := mem_names_iff_exists_mem_definitions.mpr ⟨other, hold, hrole, hother⟩
        exact absurd (hcoherent.mem_names_index.mpr hdeclared) (hadmits.2 _ hname).2
      · rintro rfl
        exact ⟨(mem_definitions_insert rfl).mpr (.inr rfl), rfl, hname⟩
  · next hnot =>
      rw [hcoherent.find?_eq_some_iff]
      refine ⟨fun ⟨hmem, hrole, hname⟩ => ?_, fun ⟨hmem, hrole, hname⟩ =>
        ⟨(mem_definitions_insert hrole).mpr (.inl hmem), hrole, hname⟩⟩
      rcases (mem_definitions_insert hrole).mp hmem with hold | rfl
      · exact ⟨hold, hrole, hname⟩
      · exact absurd ⟨hrole, hname⟩ hnot

/-! ## Failure -/

/-- The error of a definition in normal form that cannot be registered. -/
inductive FirstFault (registry : Registry) (definition : Definition) : RegistryError → Prop
  | missing (hnone : definition.names = []) :
      FirstFault registry definition (.missing definition.role)
  | invalid {before later : List Text} {name : Text} {fault : NameFault}
      (hnames : definition.names = before ++ name :: later)
      (hbefore : ∀ earlier ∈ before, registry.AdmitsName definition.role earlier)
      (hfault : definition.role.nameFault name = some fault) :
      FirstFault registry definition (.invalid definition.role name fault)
  | duplicate {before later : List Text} {name : Text}
      (hnames : definition.names = before ++ name :: later)
      (hbefore : ∀ earlier ∈ before, registry.AdmitsName definition.role earlier)
      (hvalid : definition.role.nameFault name = none)
      (hname : name ∈ (registry.index definition.role).names) :
      FirstFault registry definition (.duplicate definition.role name)

theorem nameError?_eq_some_iff :
    registry.nameError? role name = some error ↔
      (∃ fault, role.nameFault name = some fault ∧ error = .invalid role name fault) ∨
        role.nameFault name = none ∧ name ∈ (registry.index role).names ∧
          error = .duplicate role name := by
  unfold nameError?
  cases role.nameFault name with
  | some fault => simp [eq_comm]
  | none => simp [Index.contains_iff_mem_names, @eq_comm _ error]

theorem namesError?_eq_some_iff :
    registry.namesError? definition.role definition.names = some error ↔
      registry.FirstFault definition error := by
  have hadmits (before : List Text) : (∀ earlier ∈ before,
      registry.nameError? definition.role earlier = none) ↔
        ∀ earlier ∈ before, registry.AdmitsName definition.role earlier := by
    simp only [nameError?_eq_none_iff]
  unfold namesError?
  constructor
  · intro herror
    split at herror
    · next hempty =>
        obtain rfl := Option.some.inj herror
        exact .missing (List.isEmpty_iff.mp hempty)
    · obtain ⟨before, name, later, hnames, hname, hbefore⟩ := List.findSome?_eq_some_iff.mp herror
      rcases nameError?_eq_some_iff.mp hname with ⟨fault, hfault, rfl⟩ | ⟨hvalid, hindex, rfl⟩
      · exact .invalid hnames ((hadmits before).mp hbefore) hfault
      · exact .duplicate hnames ((hadmits before).mp hbefore) hvalid hindex
  · intro hfault
    cases hfault with
    | missing hnone => simp [hnone]
    | invalid hnames hbefore hfault =>
        rw [if_neg (by simp [hnames]), List.findSome?_eq_some_iff]
        exact ⟨_, _, _, hnames, nameError?_eq_some_iff.mpr (.inl ⟨_, hfault, rfl⟩),
          (hadmits _).mpr hbefore⟩
    | duplicate hnames hbefore hvalid hname =>
        rw [if_neg (by simp [hnames]), List.findSome?_eq_some_iff]
        exact ⟨_, _, _, hnames, nameError?_eq_some_iff.mpr (.inr ⟨hvalid, hname, rfl⟩),
          (hadmits _).mpr hbefore⟩

/-- **Registration fails with the first fault**, and leaves the registry as it
is. -/
theorem register_eq_some_iff :
    registry.register definition = (left, some error) ↔
      left = registry ∧ registry.FirstFault definition.normalize error := by
  rw [← namesError?_eq_some_iff, register_eq]
  cases registry.namesError? definition.normalize.role definition.normalize.names with
  | some fault => simp [eq_comm]
  | none => simp

/-! ## Definitions in turn -/

theorem registerAll_cons_of_none {definitions : List Definition}
    (hregister : registry.register definition = (next, none)) :
    registry.registerAll (definition :: definitions) = next.registerAll definitions := by
  rw [registerAll, hregister]

theorem registerAll_cons_of_some {definitions : List Definition}
    (hregister : registry.register definition = (left, some error)) :
    registry.registerAll (definition :: definitions) = (left, some error) := by
  rw [registerAll, hregister]

/-- **Definitions in turn that fail leave those before the failing one.** -/
theorem registerAll_eq_some_iff {definitions : List Definition} :
    registry.registerAll definitions = (left, some error) ↔
      ∃ before failing later, definitions = before ++ failing :: later ∧
        registry.Takes before left ∧ left.register failing = (left, some error) := by
  induction definitions generalizing registry with
  | nil => simp [registerAll]
  | cons definition definitions ih =>
      constructor
      · intro hall
        rcases hregister : registry.register definition with ⟨next, _ | fault⟩
        · rw [registerAll_cons_of_none hregister] at hall
          obtain ⟨before, failing, later, rfl, hbefore, hfailing⟩ := ih.mp hall
          exact ⟨definition :: before, failing, later, rfl, .cons hregister hbefore, hfailing⟩
        · obtain ⟨rfl, rfl⟩ : next = left ∧ fault = error := by
            simpa [registerAll_cons_of_some hregister] using hall
          obtain rfl := left_eq_of_register hregister
          exact ⟨[], definition, definitions, rfl, .nil, hregister⟩
      · rintro ⟨before, failing, later, hsplit, hbefore, hfailing⟩
        cases hbefore with
        | nil =>
            obtain ⟨rfl, rfl⟩ := List.cons.inj hsplit
            exact registerAll_cons_of_some hfailing
        | cons hregister hbefore =>
            obtain ⟨rfl, rfl⟩ := List.cons.inj hsplit
            rw [registerAll_cons_of_none hregister]
            exact ih.mpr ⟨_, failing, later, rfl, hbefore, hfailing⟩

/-! ## All or nothing -/

/-- **Registration is all or nothing.**  It succeeds if and only if the names of
the definition are valid and new in its role; then the definition is found by
its names, and every other look-up is as before.  Otherwise the registry that is
left is, in every field, the one that was there, and the error tells the first
fault.  Definitions in turn that fail leave the registry that those before the
failing one lead to. -/
theorem register_all_or_nothing (hreach : registry.Reachable) (definition : Definition) :
    ((∃ next, registry.register definition = (next, none)) ↔
      registry.Admits definition.normalize) ∧
    (∀ f, (∃ next, registry.register (.function f) = (next, none)) ↔
      lower f.name ≠ [] ∧ (∀ c ∈ lower f.name, isLetter c = true) ∧
        lower f.name ∉ registry.functionIndex.names) ∧
    (∀ next, registry.register definition = (next, none) → ∀ role name,
      next.find? role name =
        if definition.role = role ∧ lower name ∈ definition.normalize.names then
          some definition.normalize
        else registry.find? role name) ∧
    (∀ left error, registry.register definition = (left, some error) →
      left = registry ∧ registry.FirstFault definition.normalize error) ∧
    ∀ definitions left error, registry.registerAll definitions = (left, some error) →
      ∃ before failing later, definitions = before ++ failing :: later ∧
        registry.Takes before left ∧ left.register failing = (left, some error) := by
  refine ⟨exists_register_eq_none_iff, fun f => ?_, fun next hregister role name => ?_,
    fun left error => register_eq_some_iff.mp,
    fun definitions left error => registerAll_eq_some_iff.mp⟩
  · exact exists_register_eq_none_iff.trans admits_function_iff
  · obtain ⟨hadmits, rfl⟩ := register_eq_none_iff.mp hregister
    rw [find?_insert hreach.coherent hadmits, Definition.role_normalize]

/-- A function that the standard table has not got is found by its name, in any
case, and leaves the operators as they are.  An operator with a new name and one
that the table has got is not registered, and its new name is not found. -/
theorem register_all_or_nothing_root :
    (∃ next, standard.register (.function ⟨"Root".toList, 1, Rules.magnitude⟩) = (next, none) ∧
      next.find? .function "ROOT".toList =
        some (.function ⟨"root".toList, 1, Rules.magnitude⟩) ∧
      next.find? .binary "+".toList = standard.find? .binary "+".toList) ∧
    ∃ left, standard.register
        (.binary ⟨["mean".toList, "+".toList], .additive, .left, Rules.add⟩) =
          (left, some (.duplicate .binary "+".toList)) ∧
      left = standard ∧ left.findBinary? "mean".toList = none := by
  constructor
  · obtain ⟨hsucceeds, _, hfind, _⟩ := register_all_or_nothing reachable_standard
      (.function ⟨"Root".toList, 1, Rules.magnitude⟩)
    have hadmits : standard.Admits
        (Definition.function ⟨"Root".toList, 1, Rules.magnitude⟩).normalize :=
      admits_function_iff.mpr
        ⟨by decide +kernel, List.all_eq_true.mp (by decide +kernel), by decide +kernel⟩
    obtain ⟨next, hregister⟩ := hsucceeds.mpr hadmits
    refine ⟨next, hregister, (hfind next hregister _ _).trans (if_pos ?_),
      (hfind next hregister _ _).trans (if_neg ?_)⟩
    · exact ⟨rfl, by decide +kernel⟩
    · rintro ⟨hrole, _⟩
      exact absurd hrole (by decide)
  · obtain ⟨_, _, _, hfails, _⟩ := register_all_or_nothing reachable_standard
      (.binary ⟨["mean".toList, "+".toList], .additive, .left, Rules.add⟩)
    rcases hregister : standard.register
      (.binary ⟨["mean".toList, "+".toList], .additive, .left, Rules.add⟩) with ⟨left, failure⟩
    obtain rfl : failure = some (.duplicate .binary "+".toList) :=
      (congrArg Prod.snd hregister).symm.trans (by decide +kernel)
    obtain ⟨rfl, _⟩ := hfails left _ hregister
    exact ⟨_, rfl, rfl, Option.isNone_iff_eq_none.mp (by decide +kernel)⟩

end Registry

end Reckoner
