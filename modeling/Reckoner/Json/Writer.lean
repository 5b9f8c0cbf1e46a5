import Reckoner.Json.Basic

/-!
# Writing JSON

Two layouts: compact, without any blanks, and indented, with a line for every
item and two blanks for every level of nesting.  In strings only quotes,
backslashes and control characters are escaped.
-/

namespace Reckoner.Json

/-! ## Strings -/

/-- A digit of a number below 16, in lower case. -/
def hexDigit (n : Nat) : Char :=
  Nat.digitChar n

/-- A character inside a string literal. -/
def escapeChar (c : Char) : Text :=
  if c = '"' then ['\\', '"']
  else if c = '\\' then ['\\', '\\']
  else if c = '\x08' then ['\\', 'b']
  else if c = '\x0c' then ['\\', 'f']
  else if c = '\n' then ['\\', 'n']
  else if c = '\r' then ['\\', 'r']
  else if c = '\t' then ['\\', 't']
  else if c.toNat < 32 then
    ['\\', 'u', '0', '0', hexDigit (c.toNat / 16), hexDigit (c.toNat % 16)]
  else [c]

def quote (text : Text) : Text :=
  '"' :: (text.flatMap escapeChar ++ ['"'])

/-- The literal of a string.  One without content is written as the empty
string. -/
def quoteContent (content : Option Text) : Text :=
  quote (content.getD [])

/-! ## Compact layout -/

mutual

/-- A value without blanks. -/
def compact : Json → Text
  | null => "null".toList
  | bool value => (if value then "true" else "false").toList
  | number literal => literal
  | string content => quoteContent content
  | array items => '[' :: (compactItems items ++ [']'])
  | object members => '{' :: (compactMembers members ++ ['}'])

/-- Items without blanks, with a comma between any two. -/
def compactItems : List Json → Text
  | [] => []
  | item :: items =>
    compact item ++ (if items.isEmpty then [] else ',' :: compactItems items)

/-- Members without blanks, with a comma between any two. -/
def compactMembers : List (Option Text × Json) → Text
  | [] => []
  | (key, value) :: members =>
    quoteContent key ++ ':' :: (compact value ++
      (if members.isEmpty then [] else ',' :: compactMembers members))

end

/-! ## Indented layout -/

/-- A new line at a level of nesting. -/
def newLine (level : Nat) : Text :=
  '\n' :: List.replicate (2 * level) ' '

mutual

/-- A value at a level of nesting, with its parts on lines of their own. -/
def indented (level : Nat) : Json → Text
  | null => "null".toList
  | bool value => (if value then "true" else "false").toList
  | number literal => literal
  | string content => quoteContent content
  | array items =>
    if items.isEmpty then ['[', ']']
    else '[' :: (indentedItems (level + 1) items ++ newLine level ++ [']'])
  | object members =>
    if members.isEmpty then ['{', '}']
    else '{' :: (indentedMembers (level + 1) members ++ newLine level ++ ['}'])

/-- Items on lines of their own, with a comma between any two. -/
def indentedItems (level : Nat) : List Json → Text
  | [] => []
  | item :: items =>
    newLine level ++ indented level item ++
      (if items.isEmpty then [] else ',' :: indentedItems level items)

/-- Members on lines of their own, with a comma between any two. -/
def indentedMembers (level : Nat) : List (Option Text × Json) → Text
  | [] => []
  | (key, value) :: members =>
    newLine level ++ quoteContent key ++ ':' :: ' ' :: (indented level value ++
      (if members.isEmpty then [] else ',' :: indentedMembers level members))

end

end Reckoner.Json
