import Reckoner.Json.Number

/-!
# Decoding JSON values

How values are decoded into the types of a program.  A record is decoded from an
object, whose unknown members are passed over and whose known members must not
repeat, or from an array of its fields in order, which may end early.  A choice
among names is decoded from the name, or from an object whose only member has
that name and the value null.
-/

namespace Reckoner.Json

def asText? : Json → Option Text
  | string content => content
  | _ => none

def asTexts? : Json → Option (List Text)
  | array items => items.mapM asText?
  | _ => none

/-- The whole number of a number literal within bounds. -/
def asInt? (least greatest : Int) : Json → Option Int
  | number literal => do
    let value ← wholeValue? literal
    if least ≤ value ∧ value ≤ greatest then some value else none
  | _ => none

/-- The finite binary64 number of a number literal. -/
def asNumber? : Json → Option Number
  | number literal =>
    let value := numberValue literal
    if value.isFinite then some value else none
  | _ => none

def asItems? : Json → Option (List Json)
  | array items => some items
  | _ => none

/-- The members of an object whose keys all denote texts. -/
def textKeys? (members : List (Option Text × Json)) : Option (List (Text × Json)) :=
  members.mapM fun (key, value) => key.map fun key => (key, value)

/-- The value of a known member, or that there is none; a member that repeats is
rejected. -/
def memberValue? (members : List (Text × Json)) (name : Text) : Option (Option Json) :=
  match members.filter fun entry => entry.1 = name with
  | [] => some none
  | [(_, value)] => some (some value)
  | _ => none

/-- The values of the fields of a record, each of which may be absent. -/
def asFields? (names : List Text) : Json → Option (List (Option Json))
  | object members => do
    let members ← textKeys? members
    names.mapM (memberValue? members)
  | array items =>
    if items.length ≤ names.length then
      some (items.map some ++ List.replicate (names.length - items.length) none)
    else none
  | _ => none

/-- The choice that a name stands for, among choices with names. -/
def asChoice? {α : Type} (choices : List (Text × α)) : Json → Option α
  | string (some name) => choices.lookup name
  | object [(some name, null)] => choices.lookup name
  | _ => none

/-- The name and content of a tagged value, an object with one member. -/
def asTagged? : Json → Option (Text × Json)
  | object [(some tag, content)] => some (tag, content)
  | _ => none

end Reckoner.Json
