import Mathlib.Data.List.Forall2
import Reckoner.Config.Basic
import Reckoner.Proofs.Registry.Registration
import Reckoner.Registry.Standard

/-!
# What a configuration builds

Building a configuration resolves the rule of an entry and registers the definition before it
looks at the next entry, while a registry is built from definitions that are all given
beforehand.  This file compares the two.

* `Entry.Describes` says which definition an entry stands for, by its members and the entry of
  the catalog under the lower case of its rule; `resolve_eq_ok_iff` and `resolve_eq_error_iff`
  say that resolving an entry finds this definition, or tells that there is none.
* `Config.Registers` registers the definitions of entries in turn.  A build that succeeds is such
  a run over all entries, and one that fails is a run up to the first entry that fails
  (`registerAll_eq_ok_iff`, `registerAll_eq_error_iff`).  An entry without a rule fails in any
  registry, so what else is wrong with it does not come to light.
* If all entries resolve, nothing is left of the interleaving
  (`registerAll_of_forall₂`).
-/

namespace Reckoner

/-! ## The rules of the catalog -/

namespace Catalog

/-- Under names that do not repeat, what is found is what is listed. -/
theorem lookup_eq_some_iff_mem {α : Type} {rules : List (Text × α)} {name : Text} {rule : α}
    (hnames : (rules.map Prod.fst).Nodup) :
    rules.lookup name = some rule ↔ (name, rule) ∈ rules := by
  induction rules with
  | nil => simp
  | cons entry rules ih =>
    obtain ⟨other, listed⟩ := entry
    obtain ⟨hfirst, hlater⟩ := List.nodup_cons.mp hnames
    by_cases hname : name = other
    · subst hname
      have hnot : (name, rule) ∉ rules := fun hmem => hfirst (List.mem_map.mpr ⟨_, hmem, rfl⟩)
      simp [hnot, eq_comm]
    · have hne : (name == other) = false := beq_false_of_ne hname
      simp [List.lookup_cons, hne, ih hlater, hname]

variable {name : Text}

theorem binaryRule?_eq_some_iff {rule : BinaryRule} :
    binaryRule? name = some rule ↔ (lower name, rule) ∈ binaryRules :=
  lookup_eq_some_iff_mem (by decide +kernel)

theorem unaryRule?_eq_some_iff {rule : UnaryRule} :
    unaryRule? name = some rule ↔ (lower name, rule) ∈ unaryRules :=
  lookup_eq_some_iff_mem (by decide +kernel)

theorem functionRule?_eq_some_iff {arity : Nat} {rule : FunctionRule} :
    functionRule? name = some (arity, rule) ↔ (lower name, arity, rule) ∈ functionRules :=
  lookup_eq_some_iff_mem (by decide +kernel)

end Catalog

/-! ## Entries of any kind -/

inductive Entry
  | binary (entry : BinaryEntry)
  | unary (entry : UnaryEntry)
  | function (entry : FunctionEntry)

namespace Entry

/-- The definition that an entry stands for: its rule is the one that the catalog lists under the
lower case of the name of the rule.  A function without a rule of its own asks for the rule of
its name, and has the number of arguments that is listed with the rule. -/
inductive Describes : Entry → Definition → Prop
  | binary {aliases : List Text} {precedence : Precedence} {associativity : Associativity}
      {name : Text} {rule : BinaryRule} (hrule : (lower name, rule) ∈ Catalog.binaryRules) :
      Describes (.binary ⟨aliases, precedence, associativity, name⟩)
        (.binary ⟨aliases, precedence, associativity, rule⟩)
  | unary {aliases : List Text} {fixity : Fixity} {precedence : Precedence} {name : Text}
      {rule : UnaryRule} (hrule : (lower name, rule) ∈ Catalog.unaryRules) :
      Describes (.unary ⟨aliases, fixity, precedence, name⟩)
        (.unary ⟨aliases, fixity, precedence, rule⟩)
  | function {name : Text} {own : Option Text} {arity : Nat} {rule : FunctionRule}
      (hrule : (lower (own.getD name), arity, rule) ∈ Catalog.functionRules) :
      Describes (.function ⟨name, own⟩) (.function ⟨name, arity, rule⟩)

/-- The error of an entry that stands for no definition. -/
def unknownRule : Entry → ConfigError
  | binary entry => .unknownRule .binary entry.rule
  | unary entry => .unknownRule .unary entry.rule
  | function entry => .unknownRule .function (entry.rule.getD entry.name)

def resolve : Entry → Except ConfigError Definition
  | binary entry => entry.resolve
  | unary entry => entry.resolve
  | function entry => entry.resolve

variable {entry : Entry} {definition : Definition} {error : ConfigError}

/-- An entry is resolved to what it describes. -/
theorem resolve_eq_ok_iff : entry.resolve = .ok definition ↔ entry.Describes definition := by
  constructor
  · intro hresolve
    cases entry with
    | binary entry =>
      simp only [resolve, BinaryEntry.resolve] at hresolve
      split at hresolve
      · cases hresolve
      · next hrule =>
        obtain rfl := Except.ok.inj hresolve
        exact .binary (Catalog.binaryRule?_eq_some_iff.mp hrule)
    | unary entry =>
      simp only [resolve, UnaryEntry.resolve] at hresolve
      split at hresolve
      · cases hresolve
      · next hrule =>
        obtain rfl := Except.ok.inj hresolve
        exact .unary (Catalog.unaryRule?_eq_some_iff.mp hrule)
    | function entry =>
      simp only [resolve, FunctionEntry.resolve] at hresolve
      split at hresolve
      · cases hresolve
      · next hrule =>
        obtain rfl := Except.ok.inj hresolve
        exact .function (Catalog.functionRule?_eq_some_iff.mp hrule)
  · rintro (hrule | hrule | hrule)
    · simp [resolve, BinaryEntry.resolve, Catalog.binaryRule?_eq_some_iff.mpr hrule]
    · simp [resolve, UnaryEntry.resolve, Catalog.unaryRule?_eq_some_iff.mpr hrule]
    · simp [resolve, FunctionEntry.resolve, FunctionEntry.ruleName,
        Catalog.functionRule?_eq_some_iff.mpr hrule]

theorem resolve_eq_unknownRule (hresolve : entry.resolve = .error error) :
    error = entry.unknownRule := by
  cases entry <;>
    simp only [resolve, BinaryEntry.resolve, UnaryEntry.resolve, FunctionEntry.resolve]
      at hresolve <;>
    split at hresolve <;> cases hresolve <;> rfl

/-- An entry that describes nothing has no rule in the catalog. -/
theorem resolve_eq_error_iff :
    entry.resolve = .error error ↔
      (∀ definition, ¬ entry.Describes definition) ∧ error = entry.unknownRule := by
  constructor
  · intro hresolve
    refine ⟨fun definition hdescribes => ?_, resolve_eq_unknownRule hresolve⟩
    rw [resolve_eq_ok_iff.mpr hdescribes] at hresolve
    cases hresolve
  · rintro ⟨hnone, rfl⟩
    cases hresolve : entry.resolve with
    | ok definition => exact absurd (resolve_eq_ok_iff.mp hresolve) (hnone definition)
    | error error => rw [resolve_eq_unknownRule hresolve]

/-- Why an entry fails where a registry has been reached.  Whether its rule is known is asked
first, and does not depend on the registry. -/
inductive FailsIn (registry : Registry) (entry : Entry) : ConfigError → Prop
  | unknownRule (hnone : ∀ definition, ¬ entry.Describes definition) :
      FailsIn registry entry entry.unknownRule
  | registration {left : Registry} {definition : Definition} {error : RegistryError}
      (hdescribes : entry.Describes definition)
      (hregister : registry.register definition = (left, some error)) :
      FailsIn registry entry (.registry error)

end Entry

/-! ## Entries in turn -/

namespace Config

/-- The entries of a configuration in the order in which they are registered. -/
def entries (config : Config) : List Entry :=
  config.binary.map .binary ++ config.unary.map .unary ++ config.functions.map .function

/-- The definitions of entries registered one after the other, all with success. -/
inductive Registers : Registry → List Entry → Registry → Prop
  | nil {registry : Registry} : Registers registry [] registry
  | cons {registry next last : Registry} {entry : Entry} {later : List Entry}
      {definition : Definition} (hdescribes : entry.Describes definition)
      (hregister : registry.register definition = (next, none))
      (hlater : Registers next later last) :
      Registers registry (entry :: later) last

theorem definitions_eq_map_resolve (config : Config) :
    config.definitions = config.entries.map Entry.resolve := by
  simp [definitions, entries, Function.comp_def, Entry.resolve]

variable {registry last : Registry} {entry : Entry} {entries : List Entry}
  {definition : Definition} {error : ConfigError}

theorem registerAll_cons_of_describes (hdescribes : entry.Describes definition) :
    registerAll registry ((entry :: entries).map Entry.resolve) =
      match registry.register definition with
      | (_, some error) => .error (.registry error)
      | (next, none) => registerAll next (entries.map Entry.resolve) := by
  rw [List.map_cons, Entry.resolve_eq_ok_iff.mpr hdescribes]
  rfl

theorem registerAll_cons_of_not_describes (hnone : ∀ definition, ¬ entry.Describes definition) :
    registerAll registry ((entry :: entries).map Entry.resolve) = .error entry.unknownRule := by
  rw [List.map_cons, Entry.resolve_eq_error_iff.mpr ⟨hnone, rfl⟩, registerAll]

/-- **A build that succeeds** has registered what each entry describes. -/
theorem registerAll_eq_ok_iff :
    registerAll registry (entries.map Entry.resolve) = .ok last ↔
      Registers registry entries last := by
  constructor
  · intro hall
    induction entries generalizing registry with
    | nil =>
      obtain rfl : registry = last := Except.ok.inj hall
      exact .nil
    | cons entry entries ih =>
      by_cases hnone : ∀ definition, ¬ entry.Describes definition
      · rw [registerAll_cons_of_not_describes hnone] at hall
        cases hall
      · obtain ⟨definition, hdescribes⟩ := not_forall_not.mp hnone
        rw [registerAll_cons_of_describes hdescribes] at hall
        split at hall
        · cases hall
        · next hregister => exact .cons hdescribes hregister (ih hall)
  · intro hregisters
    induction hregisters with
    | nil => rfl
    | cons hdescribes hregister _ ih =>
      rw [registerAll_cons_of_describes hdescribes, hregister]
      exact ih

/-- **A build that fails** has registered what the entries before the first failure describe. -/
theorem registerAll_eq_error_iff :
    registerAll registry (entries.map Entry.resolve) = .error error ↔
      ∃ before failing later reached, entries = before ++ failing :: later ∧
        Registers registry before reached ∧ failing.FailsIn reached error := by
  constructor
  · intro hall
    induction entries generalizing registry with
    | nil => cases hall
    | cons entry entries ih =>
      by_cases hnone : ∀ definition, ¬ entry.Describes definition
      · rw [registerAll_cons_of_not_describes hnone] at hall
        obtain rfl := Except.error.inj hall
        exact ⟨[], entry, entries, registry, rfl, .nil, .unknownRule hnone⟩
      · obtain ⟨definition, hdescribes⟩ := not_forall_not.mp hnone
        rw [registerAll_cons_of_describes hdescribes] at hall
        split at hall
        · next hregister =>
          obtain rfl := Except.error.inj hall
          exact ⟨[], entry, entries, registry, rfl, .nil, .registration hdescribes hregister⟩
        · next hregister =>
          obtain ⟨before, failing, later, reached, rfl, hbefore, hfails⟩ := ih hall
          exact ⟨entry :: before, failing, later, reached, rfl,
            .cons hdescribes hregister hbefore, hfails⟩
  · rintro ⟨before, failing, later, reached, rfl, hbefore, hfails⟩
    induction hbefore with
    | nil =>
      cases hfails with
      | unknownRule hnone => exact registerAll_cons_of_not_describes hnone
      | registration hdescribes hregister =>
        rw [List.nil_append, registerAll_cons_of_describes hdescribes, hregister]
    | cons hdescribes hregister _ ih =>
      rw [List.cons_append, registerAll_cons_of_describes hdescribes, hregister]
      exact ih hfails

/-! ## Definitions that are given beforehand -/

/-- The registry after definitions in turn, or the error of the first that fails. -/
def registeredAll (registry : Registry) (definitions : List Definition) :
    Except RegistryError Registry :=
  match registry.registerAll definitions with
  | (last, none) => .ok last
  | (_, some error) => .error error

theorem ofDefinitions_eq_registeredAll (definitions : List Definition) :
    Registry.ofDefinitions definitions = registeredAll .empty definitions :=
  rfl

/-- Without an unknown rule it makes no difference that the entries are resolved one by one. -/
theorem registerAll_of_forall₂ {definitions : List Definition}
    (hdescribes : List.Forall₂ Entry.Describes entries definitions) :
    registerAll registry (entries.map Entry.resolve) =
      (registeredAll registry definitions).mapError .registry := by
  induction hdescribes generalizing registry with
  | nil => rfl
  | cons hdescribes _ ih =>
    rw [registerAll_cons_of_describes hdescribes, registeredAll]
    split
    · next hregister => rw [Registry.registerAll_cons_of_some hregister]; rfl
    · next hregister => rw [Registry.registerAll_cons_of_none hregister]; exact ih

/-- What entries of one kind describe is of that kind. -/
theorem exists_forall₂_of_kind {α β : Type} {wrap : α → Entry} (kind : β → Definition)
    (hkind : ∀ {a definition}, (wrap a).Describes definition → ∃ b, kind b = definition)
    {items : List α} (hitems : ∀ a ∈ items, ∃ definition, (wrap a).Describes definition) :
    ∃ found : List β, List.Forall₂ Entry.Describes (items.map wrap) (found.map kind) := by
  induction items with
  | nil => exact ⟨[], .nil⟩
  | cons a items ih =>
    obtain ⟨⟨definition, hdescribes⟩, hitems⟩ := List.forall_mem_cons.mp hitems
    obtain ⟨b, rfl⟩ := hkind hdescribes
    obtain ⟨found, hfound⟩ := ih hitems
    exact ⟨b :: found, .cons hdescribes hfound⟩

theorem exists_forall₂_describes {config : Config}
    (hresolves : ∀ entry ∈ config.entries, ∃ definition, entry.Describes definition) :
    ∃ (binary : List BinaryOperator) (unary : List UnaryOperator) (functions : List Function),
      List.Forall₂ Entry.Describes config.entries
        (binary.map .binary ++ unary.map .unary ++ functions.map .function) := by
  simp only [Config.entries, List.forall_mem_append, List.forall_mem_map] at hresolves
  obtain ⟨⟨hbinary, hunary⟩, hfunctions⟩ := hresolves
  obtain ⟨binary, hbinary⟩ := exists_forall₂_of_kind .binary
    (by rintro _ _ ⟨⟩; exact ⟨_, rfl⟩) hbinary
  obtain ⟨unary, hunary⟩ := exists_forall₂_of_kind .unary
    (by rintro _ _ ⟨⟩; exact ⟨_, rfl⟩) hunary
  obtain ⟨functions, hfunctions⟩ := exists_forall₂_of_kind .function
    (by rintro _ _ ⟨⟩; exact ⟨_, rfl⟩) hfunctions
  exact ⟨binary, unary, functions, List.rel_append (List.rel_append hbinary hunary) hfunctions⟩

/-! ## Building -/

/-- **A configuration is built entry by entry, like a registry from the definitions.**  If the
rule of every entry is in the catalog, the outcome is that of building the registry from the
definitions that the entries describe.  In any case, a build succeeds if and only if all entries
describe definitions that can be registered after those before them, and the error of a build
that fails is that of the first entry that does not; an unknown rule comes before a fault of the
names. -/
theorem build_eq_registry_build (config : Config) :
    ((∀ entry ∈ config.entries, ∃ definition, entry.Describes definition) →
      ∃ (binary : List BinaryOperator) (unary : List UnaryOperator) (functions : List Function),
        List.Forall₂ Entry.Describes config.entries
            (binary.map .binary ++ unary.map .unary ++ functions.map .function) ∧
          config.build = (Registry.build binary unary functions).mapError .registry) ∧
    (∀ registry, config.build = .ok registry ↔ Registers .empty config.entries registry) ∧
    ∀ error, config.build = .error error ↔
      ∃ before failing later reached, config.entries = before ++ failing :: later ∧
        Registers .empty before reached ∧ failing.FailsIn reached error := by
  rw [build, definitions_eq_map_resolve]
  refine ⟨fun hresolves => ?_, fun registry => registerAll_eq_ok_iff,
    fun error => registerAll_eq_error_iff⟩
  obtain ⟨binary, unary, functions, hdescribes⟩ := exists_forall₂_describes hresolves
  refine ⟨binary, unary, functions, hdescribes, ?_⟩
  rw [Registry.build, ofDefinitions_eq_registeredAll]
  exact registerAll_of_forall₂ hdescribes

/-- A table with a rule in capital letters and a function under another name than its rule. -/
def renamed : Config :=
  ⟨[⟨["PLUS".toList], .additive, .left, "ADD".toList⟩], [], [⟨"biggest".toList, some "Max".toList⟩]⟩

theorem build_eq_registry_build_renamed :
    (∀ entry ∈ renamed.entries, ∃ definition, entry.Describes definition) ∧
      ∃ (binary : List BinaryOperator) (unary : List UnaryOperator) (functions : List Function),
        List.Forall₂ Entry.Describes renamed.entries
            (binary.map .binary ++ unary.map .unary ++ functions.map .function) ∧
          renamed.build = (Registry.build binary unary functions).mapError .registry := by
  have hresolves : ∀ entry ∈ renamed.entries, ∃ definition, entry.Describes definition := by
    intro entry hentry
    simp only [Config.entries, renamed, List.map_cons, List.map_nil, List.append_nil,
      List.singleton_append, List.mem_cons, List.not_mem_nil, or_false] at hentry
    obtain rfl | rfl := hentry <;> exact ⟨_, Entry.resolve_eq_ok_iff.mp rfl⟩
  obtain ⟨hbuild, _⟩ := build_eq_registry_build renamed
  exact ⟨hresolves, hbuild hresolves⟩

end Config

end Reckoner
