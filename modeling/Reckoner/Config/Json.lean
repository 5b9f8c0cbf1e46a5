import Reckoner.Config.Basic
import Reckoner.Json.Decode
import Reckoner.Json.Reader
import Reckoner.Json.Writer

/-!
# Configurations in JSON

A configuration is written as an object with its three lists; the rule of a
function is left out if the function has none of its own.  On reading, absent
lists are empty, an absent associativity groups to the left, and the rule of a
function may be absent or null.
-/

namespace Reckoner

/-! ## Names of choices -/

def associativityNames : List (Text × Associativity) :=
  [("left".toList, .left), ("right".toList, .right)]

def Associativity.name : Associativity → Text
  | left => "left".toList
  | right => "right".toList

def fixityNames : List (Text × Fixity) :=
  [("prefix".toList, .prefixed), ("postfix".toList, .postfixed)]

def Fixity.name : Fixity → Text
  | prefixed => "prefix".toList
  | postfixed => "postfix".toList

/-- The precedence of a number literal. -/
def Precedence.ofJson? (json : Json) : Option Precedence := do
  let level ← json.asInt? minPrecedence maxPrecedence
  Precedence.ofInt? level

/-! ## Entries -/

namespace BinaryEntry

def toJson (entry : BinaryEntry) : Json := .object [
  Json.member "identifiers" (.ofTexts entry.aliases),
  Json.member "precedence" (.ofInt entry.precedence.level),
  Json.member "associativity" (.ofText entry.associativity.name),
  Json.member "rule" (.ofText entry.rule)]

def fieldNames : List Text :=
  ["identifiers".toList, "precedence".toList, "associativity".toList, "rule".toList]

def ofJson? (json : Json) : Option BinaryEntry := do
  match ← json.asFields? fieldNames with
  | [some aliases, some precedence, associativity, some rule] =>
    let aliases ← aliases.asTexts?
    let precedence ← Precedence.ofJson? precedence
    let associativity ← match associativity with
      | none => some .left
      | some associativity => associativity.asChoice? associativityNames
    let rule ← rule.asText?
    return ⟨aliases, precedence, associativity, rule⟩
  | _ => none

end BinaryEntry

namespace UnaryEntry

def toJson (entry : UnaryEntry) : Json := .object [
  Json.member "identifiers" (.ofTexts entry.aliases),
  Json.member "fixity" (.ofText entry.fixity.name),
  Json.member "precedence" (.ofInt entry.precedence.level),
  Json.member "rule" (.ofText entry.rule)]

def fieldNames : List Text :=
  ["identifiers".toList, "fixity".toList, "precedence".toList, "rule".toList]

def ofJson? (json : Json) : Option UnaryEntry := do
  match ← json.asFields? fieldNames with
  | [some aliases, some fixity, some precedence, some rule] =>
    let aliases ← aliases.asTexts?
    let fixity ← fixity.asChoice? fixityNames
    let precedence ← Precedence.ofJson? precedence
    let rule ← rule.asText?
    return ⟨aliases, fixity, precedence, rule⟩
  | _ => none

end UnaryEntry

namespace FunctionEntry

def toJson (entry : FunctionEntry) : Json := .object
  (Json.member "name" (.ofText entry.name) ::
    (match entry.rule with
      | none => []
      | some rule => [Json.member "rule" (.ofText rule)]))

def fieldNames : List Text :=
  ["name".toList, "rule".toList]

/-- The rule of an entry, which may be absent or null. -/
def ruleOfJson? : Option Json → Option (Option Text)
  | none => some none
  | some .null => some none
  | some json => json.asText?.map some

def ofJson? (json : Json) : Option FunctionEntry := do
  match ← json.asFields? fieldNames with
  | [some name, rule] =>
    let name ← name.asText?
    let rule ← ruleOfJson? rule
    return ⟨name, rule⟩
  | _ => none

end FunctionEntry

/-! ## Configurations -/

namespace Config

def toJson (config : Config) : Json := .object [
  Json.member "binary" (.array (config.binary.map BinaryEntry.toJson)),
  Json.member "unary" (.array (config.unary.map UnaryEntry.toJson)),
  Json.member "functions" (.array (config.functions.map FunctionEntry.toJson))]

def fieldNames : List Text :=
  ["binary".toList, "unary".toList, "functions".toList]

/-- The entries of an array, and none if the array is absent. -/
def entriesOfJson? {α : Type} (entry : Json → Option α) : Option Json → Option (List α)
  | none => some []
  | some json => do
    let items ← json.asItems?
    items.mapM entry

def ofJson? (json : Json) : Option Config := do
  match ← json.asFields? fieldNames with
  | [binary, unary, functions] =>
    let binary ← entriesOfJson? BinaryEntry.ofJson? binary
    let unary ← entriesOfJson? UnaryEntry.ofJson? unary
    let functions ← entriesOfJson? FunctionEntry.ofJson? functions
    return ⟨binary, unary, functions⟩
  | _ => none

/-- A configuration as an indented JSON text. -/
def write (config : Config) : Text :=
  Json.indented 0 config.toJson

/-- The configuration that a JSON text stands for. -/
def read? (text : Text) : Option Config := do
  let json ← Json.parse? text
  ofJson? json

end Config

end Reckoner
