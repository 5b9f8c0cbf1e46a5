import Reckoner.Json.Literal

/-!
# Reading JSON

A text is a JSON value with blanks around it and nothing else.  The grammar is
strict: no other blanks than space, tab and line ends, no leading zeros, no
commas at the end of a list.
-/

namespace Reckoner.Json

/-- Whether a character is blank between the parts of a JSON text. -/
def isSpace (c : Char) : Bool :=
  c == ' ' || c == '\t' || c == '\n' || c == '\r'

/-- A text without the blanks at its beginning. -/
def skipSpaces (text : Text) : Text :=
  text.dropWhile isSpace

mutual

/-- The value at the beginning of a text behind any blanks, and the text behind
it; `steps` bounds the values, items and members that are read. -/
def takeValue : (steps : Nat) → Text → Option (Json × Text)
  | 0, _ => none
  | steps + 1, text =>
    match skipSpaces text with
    | 'n' :: 'u' :: 'l' :: 'l' :: rest => some (null, rest)
    | 't' :: 'r' :: 'u' :: 'e' :: rest => some (bool true, rest)
    | 'f' :: 'a' :: 'l' :: 's' :: 'e' :: rest => some (bool false, rest)
    | '"' :: text => do
      let (content, rest) ← takeString text
      return (string content, rest)
    | '[' :: text =>
      match skipSpaces text with
      | ']' :: rest => some (array [], rest)
      | text => do
        let (items, rest) ← takeItems steps text
        return (array items, rest)
    | '{' :: text =>
      match skipSpaces text with
      | '}' :: rest => some (object [], rest)
      | text => do
        let (members, rest) ← takeMembers steps text
        return (object members, rest)
    | text => do
      let (literal, rest) ← takeNumber text
      return (number literal, rest)

/-- The items of an array up to its closing bracket, of which there is at least
one, and the text behind the bracket. -/
def takeItems : (steps : Nat) → Text → Option (List Json × Text)
  | 0, _ => none
  | steps + 1, text => do
    let (item, text) ← takeValue steps text
    match skipSpaces text with
    | ',' :: text => do
      let (items, rest) ← takeItems steps text
      return (item :: items, rest)
    | ']' :: rest => some ([item], rest)
    | _ => none

/-- The members of an object up to its closing brace, of which there is at least
one, and the text behind the brace. -/
def takeMembers : (steps : Nat) → Text → Option (List (Option Text × Json) × Text)
  | 0, _ => none
  | steps + 1, text =>
    match skipSpaces text with
    | '"' :: text => do
      let (key, text) ← takeString text
      match skipSpaces text with
      | ':' :: text => do
        let (value, text) ← takeValue steps text
        match skipSpaces text with
        | ',' :: text => do
          let (members, rest) ← takeMembers steps text
          return ((key, value) :: members, rest)
        | '}' :: rest => some ([(key, value)], rest)
        | _ => none
      | _ => none
    | _ => none

end

/-! ## Blanks in front

The reader does not look at the blanks in front of what it reads. -/

section

variable {steps : Nat} {text other : Text}

theorem takeValue_congr (hskip : skipSpaces text = skipSpaces other) :
    takeValue steps text = takeValue steps other := by
  cases steps with
  | zero => rfl
  | succ steps => rw [takeValue, takeValue, hskip]

theorem takeItems_congr (hskip : skipSpaces text = skipSpaces other) :
    takeItems steps text = takeItems steps other := by
  cases steps with
  | zero => rfl
  | succ steps => rw [takeItems, takeItems, takeValue_congr hskip]

theorem takeMembers_congr (hskip : skipSpaces text = skipSpaces other) :
    takeMembers steps text = takeMembers steps other := by
  cases steps with
  | zero => rfl
  | succ steps => rw [takeMembers, takeMembers, hskip]

end

/-- The value that a text stands for.  Every value and every list takes at least
one character of the text. -/
def parse? (text : Text) : Option Json :=
  match takeValue (2 * text.length + 2) text with
  | some (value, rest) => if (skipSpaces rest).isEmpty then some value else none
  | none => none

end Reckoner.Json
