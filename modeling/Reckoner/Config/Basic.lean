import Reckoner.Registry.Basic
import Reckoner.Rules.Catalog

/-!
# Tables as data

A configuration describes a registry without functions in it: its rules are
names from the catalog.  Building it resolves the names and registers the
definitions in order, binary operators first, then unary ones, then functions;
the first definition that fails is the error.
-/

namespace Reckoner

/-! ## Entries -/

structure BinaryEntry where
  aliases : List Text
  precedence : Precedence
  associativity : Associativity
  rule : Text
  deriving DecidableEq

structure UnaryEntry where
  aliases : List Text
  fixity : Fixity
  precedence : Precedence
  rule : Text
  deriving DecidableEq

structure FunctionEntry where
  name : Text
  /-- The name of its rule, if that is not the name of the function. -/
  rule : Option Text
  deriving DecidableEq

/-- The name of the rule of a function. -/
def FunctionEntry.ruleName (entry : FunctionEntry) : Text :=
  entry.rule.getD entry.name

structure Config where
  binary : List BinaryEntry
  unary : List UnaryEntry
  functions : List FunctionEntry
  deriving DecidableEq

/-! ## Errors -/

inductive RuleKind
  | binary
  | unary
  | function
  deriving DecidableEq

def RuleKind.describe : RuleKind → String
  | binary => "binary"
  | unary => "unary"
  | function => "function"

/-- Why a configuration describes no registry. -/
inductive ConfigError
  /-- The catalog has no rule of that name. -/
  | unknownRule (kind : RuleKind) (name : Text)
  /-- A definition cannot be registered. -/
  | registry (error : RegistryError)
  deriving DecidableEq

def ConfigError.message : ConfigError → String
  | unknownRule kind name => "unknown " ++ kind.describe ++ " rule '" ++ String.ofList name ++ "'"
  | registry error => error.message

/-! ## Building -/

def BinaryEntry.resolve (entry : BinaryEntry) : Except ConfigError Definition :=
  match Catalog.binaryRule? entry.rule with
  | none => .error (.unknownRule .binary entry.rule)
  | some rule => .ok (.binary ⟨entry.aliases, entry.precedence, entry.associativity, rule⟩)

def UnaryEntry.resolve (entry : UnaryEntry) : Except ConfigError Definition :=
  match Catalog.unaryRule? entry.rule with
  | none => .error (.unknownRule .unary entry.rule)
  | some rule => .ok (.unary ⟨entry.aliases, entry.fixity, entry.precedence, rule⟩)

/-- The definition that an entry describes, with the number of arguments that
its rule takes. -/
def FunctionEntry.resolve (entry : FunctionEntry) : Except ConfigError Definition :=
  match Catalog.functionRule? entry.ruleName with
  | none => .error (.unknownRule .function entry.ruleName)
  | some (arity, rule) => .ok (.function ⟨entry.name, arity, rule⟩)

namespace Config

def empty : Config := ⟨[], [], []⟩

/-- The definitions that the entries describe, in the order in which they are
registered. -/
def definitions (config : Config) : List (Except ConfigError Definition) :=
  config.binary.map BinaryEntry.resolve ++ config.unary.map UnaryEntry.resolve ++
    config.functions.map FunctionEntry.resolve

/-- The registry with definitions added in turn, or the first failure: that a
definition does not resolve, or that it cannot be registered. -/
def registerAll : Registry → List (Except ConfigError Definition) → Except ConfigError Registry
  | registry, [] => .ok registry
  | _, .error error :: _ => .error error
  | registry, .ok definition :: later =>
    match registry.register definition with
    | (_, some error) => .error (.registry error)
    | (next, none) => registerAll next later

/-- The registry that a configuration describes, or its first failure. -/
def build (config : Config) : Except ConfigError Registry :=
  registerAll .empty config.definitions

end Config

end Reckoner
