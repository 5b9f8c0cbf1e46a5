import Reckoner.Expr.Basic
import Reckoner.Json.Decode
import Reckoner.Json.Reader
import Reckoner.Json.Writer

/-!
# Expressions in JSON

A tree is written as an object with one member, whose name tells the kind of
node and whose value holds its parts.  A number that is not finite has no JSON
form and is written as null.

Reading is bounded: at most `maxNesting` arrays and objects may stand inside
each other.  A node that holds trees takes two of them, and a call one more for
its arguments.
-/

namespace Reckoner.Expr

/-! ## Writing -/

/-- A number as a literal in scientific layout. -/
def numberToJson (value : Number) : Json :=
  match value.scientific? with
  | some literal => .number literal
  | none => .null

mutual

def toJson : Expr → Json
  | number value => .object [Json.member "Number" (numberToJson value)]
  | binary left op right => .object [Json.member "Binary" (.object [
      Json.member "left" left.toJson,
      Json.member "op" (.ofText op),
      Json.member "right" right.toJson])]
  | prefixed op operand => .object [Json.member "Prefix" (.object [
      Json.member "op" (.ofText op),
      Json.member "operand" operand.toJson])]
  | postfixed operand op => .object [Json.member "Postfix" (.object [
      Json.member "operand" operand.toJson,
      Json.member "op" (.ofText op)])]
  | call name args => .object [Json.member "Call" (.object [
      Json.member "name" (.ofText name),
      Json.member "args" (.array (toJsonAll args))])]

def toJsonAll : List Expr → List Json
  | [] => []
  | e :: es => e.toJson :: toJsonAll es

end

/-- A tree as a compact JSON text. -/
def write (expr : Expr) : Text :=
  expr.toJson.compact

/-! ## Reading -/

/-- The number of arrays and objects of a tree that may stand inside each
other. -/
def maxNesting : Nat := 127

/-- The parts of a node of a kind: the names of its fields, and what it makes of
their values with a reader for trees and one for lists of trees. -/
def nodeOfJson? (tree : Json → Option Expr) (trees : Json → Option (List Expr))
    (tag : Text) (content : Json) : Option Expr :=
  if tag = "Binary".toList then do
    match ← content.asFields? ["left".toList, "op".toList, "right".toList] with
    | [some left, some op, some right] =>
      return binary (← tree left) (← op.asText?) (← tree right)
    | _ => none
  else if tag = "Prefix".toList then do
    match ← content.asFields? ["op".toList, "operand".toList] with
    | [some op, some operand] => return prefixed (← op.asText?) (← tree operand)
    | _ => none
  else if tag = "Postfix".toList then do
    match ← content.asFields? ["operand".toList, "op".toList] with
    | [some operand, some op] => return postfixed (← tree operand) (← op.asText?)
    | _ => none
  else if tag = "Call".toList then do
    match ← content.asFields? ["name".toList, "args".toList] with
    | [some name, some args] => return call (← name.asText?) (← trees args)
    | _ => none
  else none

/-- The tree of a tagged value in which at most `nesting` arrays and objects
stand inside each other. -/
def ofJson? : (nesting : Nat) → Json → Option Expr
  | 0, _ => none
  | nesting + 1, json => do
    let (tag, content) ← json.asTagged?
    if tag = "Number".toList then return number (← content.asNumber?)
    else match nesting with
      | 0 => none
      | 1 => nodeOfJson? (ofJson? 0) (fun _ => none) tag content
      | nesting + 2 =>
        nodeOfJson? (ofJson? (nesting + 1))
          (fun args => do (← args.asItems?).mapM (ofJson? nesting)) tag content

/-- The tree that a JSON text stands for. -/
def read? (text : Text) : Option Expr := do
  let json ← Json.parse? text
  ofJson? maxNesting json

end Reckoner.Expr
