import Reckoner.Registry.Index
import Reckoner.Registry.Name

/-!
# Registries

A registry is the grammar of the expressions that are read with it: its
operators and functions, in the order in which they were registered.  Each role
has names of its own, so that one symbol may be a binary and a prefix operator;
within a role a name stands for one definition.

Beside the definitions a registry keeps an index for each role, in which names
are looked up in lower case, and a list of all names of operators, against which
symbols are matched.

Registering a definition changes the registry step by step: its names are
checked, each is entered into the index of its role, the definition is put
behind the others, and for an operator the list of names is made anew.  A step
that fails leaves the registry as the steps before it have made it.
-/

namespace Reckoner

/-! ## Errors -/

/-- Why a definition cannot be registered. -/
inductive RegistryError
  /-- The name stands for another definition in the same role. -/
  | duplicate (role : Role) (name : Text)
  /-- The definition has no name. -/
  | missing (role : Role)
  /-- The name cannot be a name in this role. -/
  | invalid (role : Role) (name : Text) (fault : NameFault)
  deriving DecidableEq

def RegistryError.message : RegistryError → String
  | duplicate role name =>
    role.describe ++ " identifier '" ++ String.ofList name ++ "' is already registered"
  | missing role => role.describe ++ " declared without any identifier"
  | invalid role name fault =>
    "invalid " ++ role.describe ++ " identifier '" ++ String.ofList name ++ "': " ++ fault.describe

/-! ## Registries -/

/-- Operators and functions, with the positions of their names in the lists. -/
structure Registry where
  binary : List BinaryOperator
  unary : List UnaryOperator
  functions : List Function
  binaryIndex : Index
  prefixedIndex : Index
  postfixedIndex : Index
  functionIndex : Index
  /-- The names of operators of any kind, each once, longer names first. -/
  identifiers : List Text

/-- A step that changes a registry.  An error leaves the registry as the step
has changed it. -/
abbrev RegistryM := ExceptT RegistryError (StateM Registry)

namespace Registry

def empty : Registry := ⟨[], [], [], .empty, .empty, .empty, .empty, []⟩

def isEmpty (registry : Registry) : Bool :=
  registry.binary.isEmpty && registry.unary.isEmpty && registry.functions.isEmpty

/-- The index of the names in a role. -/
def index (registry : Registry) : Role → Index
  | .binary => registry.binaryIndex
  | .unary .prefixed => registry.prefixedIndex
  | .unary .postfixed => registry.postfixedIndex
  | .function => registry.functionIndex

/-! ## Look-up -/

def findBinary? (registry : Registry) (name : Text) : Option BinaryOperator := do
  registry.binary[← registry.binaryIndex.position? (lower name)]?

/-- The unary operator of a name on one side of its operand. -/
def findUnary? (registry : Registry) (fixity : Fixity) (name : Text) : Option UnaryOperator := do
  registry.unary[← (registry.index (.unary fixity)).position? (lower name)]?

def findFunction? (registry : Registry) (name : Text) : Option Function := do
  registry.functions[← registry.functionIndex.position? (lower name)]?

/-- The definition of a name in a role. -/
def find? (registry : Registry) (role : Role) (name : Text) : Option Definition :=
  match role with
  | .binary => (registry.findBinary? name).map .binary
  | .unary fixity => (registry.findUnary? fixity name).map .unary
  | .function => (registry.findFunction? name).map .function

/-- Whether a name stands for an operator of any kind. -/
def isOperator (registry : Registry) (name : Text) : Bool :=
  let key := lower name
  registry.binaryIndex.contains key || registry.prefixedIndex.contains key ||
    registry.postfixedIndex.contains key

/-! ## Registration -/

/-- The fault of one name of a definition to be registered: one of the name in
itself, or that the role has it already. -/
def nameError? (registry : Registry) (role : Role) (name : Text) : Option RegistryError :=
  match role.nameFault name with
  | some fault => some (.invalid role name fault)
  | none => if (registry.index role).contains name then some (.duplicate role name) else none

/-- The fault of the first of the names that has one, or that there is none. -/
def namesError? (registry : Registry) (role : Role) (names : List Text) : Option RegistryError :=
  if names.isEmpty then some (.missing role) else names.findSome? (registry.nameError? role)

/-- A list of names in the order of `Text.longerFirst` with one name more. -/
def insertName (name : Text) : List Text → List Text
  | [] => [name]
  | other :: others =>
    if Text.longerFirst other name then other :: insertName name others
    else name :: other :: others

/-- A list of names in which each of neighbours that are equal stands once. -/
def mergeNeighbours : List Text → List Text
  | [] => []
  | [name] => [name]
  | name :: other :: others =>
    if name = other then mergeNeighbours (other :: others)
    else name :: mergeNeighbours (other :: others)

/-- The registry with its list of operator names made anew from the indexes. -/
def rebuildIdentifiers (registry : Registry) : Registry :=
  let names := registry.binaryIndex.names ++ registry.prefixedIndex.names ++
    registry.postfixedIndex.names
  { registry with identifiers := mergeNeighbours (names.foldr insertName []) }

/-! ### What a registration amounts to -/

/-- The registry with a binary operator more, behind the others. -/
def insertBinary (registry : Registry) (operator : BinaryOperator) : Registry :=
  rebuildIdentifiers { registry with
    binary := registry.binary ++ [operator]
    binaryIndex := registry.binaryIndex.insertAll operator.aliases registry.binary.length }

/-- The registry with a unary operator more, behind the others on either side. -/
def insertUnary (registry : Registry) (operator : UnaryOperator) : Registry :=
  let position := registry.unary.length
  let extended := { registry with unary := registry.unary ++ [operator] }
  rebuildIdentifiers (match operator.fixity with
    | .prefixed => { extended with
        prefixedIndex := registry.prefixedIndex.insertAll operator.aliases position }
    | .postfixed => { extended with
        postfixedIndex := registry.postfixedIndex.insertAll operator.aliases position })

/-- The registry with a function more, behind the others. -/
def insertFunction (registry : Registry) (f : Function) : Registry :=
  { registry with
    functions := registry.functions ++ [f]
    functionIndex := registry.functionIndex.insert f.name registry.functions.length }

/-- The registry with one definition more. -/
def insert (registry : Registry) : Definition → Registry
  | .binary operator => registry.insertBinary operator
  | .unary operator => registry.insertUnary operator
  | .function f => registry.insertFunction f

/-! ### The steps of a registration -/

/-- The registry with another index of the names in a role. -/
def modifyIndex (registry : Registry) (role : Role) (change : Index → Index) : Registry :=
  match role with
  | .binary => { registry with binaryIndex := change registry.binaryIndex }
  | .unary .prefixed => { registry with prefixedIndex := change registry.prefixedIndex }
  | .unary .postfixed => { registry with postfixedIndex := change registry.postfixedIndex }
  | .function => { registry with functionIndex := change registry.functionIndex }

/-- Fails with the first fault of the names. -/
def check (role : Role) (names : List Text) : RegistryM Unit := do
  match (← get).namesError? role names with
  | some error => throw error
  | none => return

/-- Enters a name into the index of a role. -/
def enter (role : Role) (position : Nat) (name : Text) : RegistryM Unit :=
  modify (·.modifyIndex role (·.insert name position))

def addBinary (operator : BinaryOperator) : RegistryM Unit := do
  check .binary operator.aliases
  let position := (← get).binary.length
  operator.aliases.forM (enter .binary position)
  modify fun registry => { registry with binary := registry.binary ++ [operator] }
  modify rebuildIdentifiers

def addUnary (operator : UnaryOperator) : RegistryM Unit := do
  check (.unary operator.fixity) operator.aliases
  let position := (← get).unary.length
  operator.aliases.forM (enter (.unary operator.fixity) position)
  modify fun registry => { registry with unary := registry.unary ++ [operator] }
  modify rebuildIdentifiers

def addFunction (f : Function) : RegistryM Unit := do
  check .function [f.name]
  enter .function (← get).functions.length f.name
  modify fun registry => { registry with functions := registry.functions ++ [f] }

/-- Adds a definition in normal form. -/
def add : Definition → RegistryM Unit
  | .binary operator => addBinary operator
  | .unary operator => addUnary operator
  | .function f => addFunction f

/-- The registry that is left when a definition is added, and the error if that
fails. -/
def register (registry : Registry) (definition : Definition) : Registry × Option RegistryError :=
  match add definition.normalize registry with
  | (.ok (), left) => (left, none)
  | (.error error, left) => (left, some error)

/-- The registry that is left when definitions are added in turn up to the first
that fails, and the error of that one. -/
def registerAll : Registry → List Definition → Registry × Option RegistryError
  | registry, [] => (registry, none)
  | registry, definition :: definitions =>
    match registry.register definition with
    | (left, some error) => (left, some error)
    | (left, none) => left.registerAll definitions

/-- The registry of the given definitions, or the error of the first that
fails. -/
def ofDefinitions (definitions : List Definition) : Except RegistryError Registry :=
  match empty.registerAll definitions with
  | (registry, none) => .ok registry
  | (_, some error) => .error error

/-- The registry of the given operators and functions, or the error of the
first that fails. -/
def build (binary : List BinaryOperator) (unary : List UnaryOperator)
    (functions : List Function) : Except RegistryError Registry :=
  ofDefinitions (binary.map .binary ++ unary.map .unary ++ functions.map .function)

end Registry

end Reckoner
