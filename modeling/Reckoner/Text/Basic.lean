/-!
# Texts and their bytes

A text is the list of its characters.  Places in a text are counted in the
bytes of its UTF-8 form, so this module measures texts in bytes and orders the
names of a registry by that measure.
-/

namespace Reckoner

/-- A text, as the list of its characters. -/
abbrev Text := List Char

namespace Text

/-- The number of bytes of a text in UTF-8. -/
def byteLength : Text → Nat
  | [] => 0
  | c :: rest => c.utf8Size + byteLength rest

@[simp] theorem byteLength_nil : byteLength [] = 0 := rfl

@[simp] theorem byteLength_cons (c : Char) (t : Text) :
    byteLength (c :: t) = c.utf8Size + byteLength t := rfl

@[simp] theorem byteLength_append (s t : Text) :
    byteLength (s ++ t) = byteLength s + byteLength t := by
  induction s with
  | nil => simp
  | cons c s ih => simp only [List.cons_append, byteLength_cons, ih, Nat.add_assoc]

/-- Whether `s` is less than `t` in code point order, which is also the order
of the bytes of their UTF-8 forms. -/
def less : Text → Text → Bool
  | _, [] => false
  | [], _ :: _ => true
  | c :: s, d :: t => c.toNat < d.toNat || (c == d && less s t)

/-- Whether `s` is tried before `t` when a text is matched against names: the
longer name first, names of one length in code point order. -/
def longerFirst (s t : Text) : Bool :=
  byteLength t < byteLength s || (byteLength s == byteLength t && less s t)

end Text

end Reckoner
