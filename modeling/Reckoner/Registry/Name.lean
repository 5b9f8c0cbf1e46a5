import Reckoner.Registry.Definition
import Reckoner.Text.Alphabetic
import Reckoner.Text.Blank

/-!
# Names

Which names a definition may have.  An operator is written as a word, a run of
letters, or as a symbol, which begins with no letter.  A symbol must not be
mistaken for a blank, a number or punctuation, and must not hold letters with a
case, because symbols are matched character by character while names are
compared in lower case.  A function is always a word.
-/

namespace Reckoner

/-- Why a name cannot be registered. -/
inductive NameFault
  | empty
  | holdsBlank
  | holdsPunctuation
  | beginsWithDigit
  | mixedWord
  | casedSymbol
  | notWord
  deriving DecidableEq

def NameFault.describe : NameFault → String
  | empty => "identifiers cannot be empty"
  | holdsBlank => "identifiers cannot contain whitespace"
  | holdsPunctuation => "identifiers cannot contain parentheses or commas"
  | beginsWithDigit => "identifiers cannot start with a digit"
  | mixedWord => "identifiers starting with a letter must consist of letters only"
  | casedSymbol => "symbolic identifiers cannot contain cased letters"
  | notWord => "function names must be a non-empty run of letters"

/-- Whether a character separates the parts of an expression: a parenthesis or
a comma. -/
def isPunctuation (c : Char) : Bool :=
  c == '(' || c == ')' || c == ','

/-- The first fault of a name as the name of an operator. -/
def operatorNameFault : Text → Option NameFault
  | [] => some .empty
  | c :: rest =>
    if (c :: rest).any isBlank then some .holdsBlank
    else if (c :: rest).any isPunctuation then some .holdsPunctuation
    else if c.isDigit then some .beginsWithDigit
    else if isLetter c then
      if (c :: rest).all isLetter then none else some .mixedWord
    else if (c :: rest).any isLowerOrUpper then some .casedSymbol
    else none

/-- The fault of a name as the name of a function. -/
def functionNameFault (name : Text) : Option NameFault :=
  if name.isEmpty || !name.all isLetter then some .notWord else none

/-- The first fault of a name in a role. -/
def Role.nameFault : Role → Text → Option NameFault
  | function => functionNameFault
  | _ => operatorNameFault

end Reckoner
