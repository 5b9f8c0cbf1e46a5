import Reckoner.Text.CodeTable

/-!
# Blanks

A blank is a character with the property `White_Space` of the Unicode character
database.  Blanks separate lexemes and are no part of any.
-/

namespace Reckoner

/-- The code points with the property `White_Space`. -/
def blankTable : CodeTable := [
  (0x9, 0xD), (0x20, 0x20), (0x85, 0x85), (0xA0, 0xA0), (0x1680, 0x1680), (0x2000, 0x200A),
  (0x2028, 0x2029), (0x202F, 0x202F), (0x205F, 0x205F), (0x3000, 0x3000)]

def isBlank (c : Char) : Bool :=
  blankTable.contains c.toNat

end Reckoner
