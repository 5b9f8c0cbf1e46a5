import Reckoner.Json.Decode
import Reckoner.Json.Reader
import Reckoner.Json.Writer
import Reckoner.Parser.Basic

/-!
# Parser options

The options of a parser, and their JSON form: an object with the limit, which is
the default one if it is absent.
-/

namespace Reckoner

structure ParserOptions where
  /-- The limit of nesting and height. -/
  maxDepth : Nat
  deriving DecidableEq

namespace ParserOptions

/-- The largest limit that can be asked for. -/
def greatestMaxDepth : Int := Nat.pow 2 64 - 1

def toJson (options : ParserOptions) : Json :=
  .object [Json.member "max_depth" (.ofInt options.maxDepth)]

def ofJson? (json : Json) : Option ParserOptions := do
  match ← json.asFields? ["max_depth".toList] with
  | [none] => return ⟨defaultMaxDepth⟩
  | [some limit] => return ⟨(← limit.asInt? 0 greatestMaxDepth).toNat⟩
  | _ => none

/-- The options as a compact JSON text. -/
def write (options : ParserOptions) : Text :=
  options.toJson.compact

/-- The options that a JSON text stands for. -/
def read? (text : Text) : Option ParserOptions := do
  let json ← Json.parse? text
  ofJson? json

end ParserOptions

end Reckoner
