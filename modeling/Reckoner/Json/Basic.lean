import Reckoner.Text.Basic

/-!
# JSON values

A JSON text as a value.  Numbers are kept as they are written, and the members
of an object in order and with repeats, because what a reader accepts depends
on both.

A string literal that holds a lone half of a surrogate pair denotes no text.
Such a string may stand where its content does not matter, so it is a value
without content rather than an error of the text.
-/

namespace Reckoner

inductive Json
  | null
  | bool (value : Bool)
  /-- A number, as it is written. -/
  | number (literal : Text)
  /-- A string, without content if it denotes no text. -/
  | string (content : Option Text)
  | array (items : List Json)
  | object (members : List (Option Text × Json))

namespace Json

def ofText (text : Text) : Json := string (some text)

def ofTexts (texts : List Text) : Json := array (texts.map ofText)

def ofInt (i : Int) : Json :=
  number ((if i < 0 then ['-'] else []) ++ Nat.toDigits 10 i.natAbs)

def member (key : String) (value : Json) : Option Text × Json :=
  (some key.toList, value)

end Json

end Reckoner
