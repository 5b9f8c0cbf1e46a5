import Reckoner.Json.Basic

/-!
# JSON literals

Reading the literals of numbers and strings.  A number literal keeps its text;
its value is read off later.  A string literal is read as its characters and the
surrogate halves among its escapes, which are then joined in pairs.
-/

namespace Reckoner.Json

/-! ## Number literals -/

/-- The digits at the beginning of a text, of which there must be one, and the
text behind them. -/
def takeDigits (text : Text) : Option (Text × Text) :=
  match text.takeWhile Char.isDigit with
  | [] => none
  | digits => some (digits, text.dropWhile Char.isDigit)

/-- The digits before the point: a lone zero, or digits that do not begin with
zero. -/
def takeWhole (text : Text) : Option (Text × Text) := do
  let (digits, rest) ← takeDigits text
  match digits with
  | '0' :: _ :: _ => none
  | _ => some (digits, rest)

/-- A point with the digits behind it, if there is a point. -/
def takeFraction : Text → Option (Text × Text)
  | '.' :: text => do
    let (digits, rest) ← takeDigits text
    return ('.' :: digits, rest)
  | text => some ([], text)

/-- The sign of an exponent, if there is one, and the text behind it. -/
def takeExponentSign : Text → Text × Text
  | '+' :: rest => (['+'], rest)
  | '-' :: rest => (['-'], rest)
  | rest => ([], rest)

/-- An exponent with its mark, if there is a mark. -/
def takeExponent : Text → Option (Text × Text)
  | [] => some ([], [])
  | c :: text =>
    if c = 'e' ∨ c = 'E' then do
      let (sign, text) := takeExponentSign text
      let (digits, rest) ← takeDigits text
      return (c :: (sign ++ digits), rest)
    else some ([], c :: text)

/-- A minus sign, if there is one, and the text behind it. -/
def takeMinus : Text → Text × Text
  | '-' :: rest => (['-'], rest)
  | rest => ([], rest)

/-- The number literal at the beginning of a text, and the text behind it. -/
def takeNumber (text : Text) : Option (Text × Text) := do
  let (sign, text) := takeMinus text
  let (whole, text) ← takeWhole text
  let (fraction, text) ← takeFraction text
  let (exponent, rest) ← takeExponent text
  return (sign ++ whole ++ fraction ++ exponent, rest)

/-! ## String literals -/

/-- A piece of a string literal: a character, or half of a surrogate pair. -/
inductive Piece
  | char (c : Char)
  | half (code : Nat)
  deriving DecidableEq

def hexValue? (c : Char) : Option Nat :=
  if c.isDigit then some (c.toNat - 48)
  else if 'a' ≤ c ∧ c ≤ 'f' then some (c.toNat - 87)
  else if 'A' ≤ c ∧ c ≤ 'F' then some (c.toNat - 55)
  else none

/-- The piece that a four-digit escape stands for. -/
def Piece.ofCode (code : Nat) : Piece :=
  if 0xD800 ≤ code ∧ code ≤ 0xDFFF then half code else char (Char.ofNat code)

/-- The piece behind a backslash, and the text behind it. -/
def takeEscape : Text → Option (Piece × Text)
  | '"' :: rest => some (.char '"', rest)
  | '\\' :: rest => some (.char '\\', rest)
  | '/' :: rest => some (.char '/', rest)
  | 'b' :: rest => some (.char '\x08', rest)
  | 'f' :: rest => some (.char '\x0c', rest)
  | 'n' :: rest => some (.char '\n', rest)
  | 'r' :: rest => some (.char '\r', rest)
  | 't' :: rest => some (.char '\t', rest)
  | 'u' :: a :: b :: c :: d :: rest => do
    let a ← hexValue? a
    let b ← hexValue? b
    let c ← hexValue? c
    let d ← hexValue? d
    return (.ofCode (((a * 16 + b) * 16 + c) * 16 + d), rest)
  | _ => none

/-- The pieces of a string literal behind its opening quote, and the text behind
its closing one.  Control characters must be escaped. -/
def takePieces : (steps : Nat) → Text → Option (List Piece × Text)
  | 0, _ => none
  | _ + 1, [] => none
  | steps + 1, c :: text =>
    if c = '"' then some ([], text)
    else if c = '\\' then do
      let (piece, text) ← takeEscape text
      let (pieces, rest) ← takePieces steps text
      return (piece :: pieces, rest)
    else if c.toNat < 32 then none
    else do
      let (pieces, rest) ← takePieces steps text
      return (.char c :: pieces, rest)

/-- The character of a surrogate pair. -/
def pairChar (high low : Nat) : Char :=
  Char.ofNat (0x10000 + (high - 0xD800) * 0x400 + (low - 0xDC00))

/-- The text of pieces, if every half of a pair stands before or behind its
other half. -/
def joinPieces : List Piece → Option Text
  | [] => some []
  | .char c :: pieces => do
    let text ← joinPieces pieces
    return c :: text
  | .half high :: .half low :: pieces =>
    if high < 0xDC00 ∧ 0xDC00 ≤ low then do
      let text ← joinPieces pieces
      return pairChar high low :: text
    else none
  | .half _ :: _ => none

/-- The content of a string literal behind its opening quote, and the text
behind its closing one. -/
def takeString (text : Text) : Option (Option Text × Text) := do
  let (pieces, rest) ← takePieces (text.length + 1) text
  return (joinPieces pieces, rest)

end Reckoner.Json
