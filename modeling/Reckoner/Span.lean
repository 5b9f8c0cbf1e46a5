/-!
# Spans

A span is a range of bytes of a source text, from its first byte to just
behind its last one.  A span may be empty; nothing forbids one that is
reversed or lies outside the text.
-/

namespace Reckoner

/-- A range of byte offsets, closed at `start` and open at `stop`. -/
structure Span where
  start : Nat
  stop : Nat
  deriving DecidableEq

namespace Span

/-- The smallest span that covers two spans. -/
def merge (a b : Span) : Span :=
  ⟨min a.start b.start, max a.stop b.stop⟩

/-- Whether a span covers no byte. -/
def isEmpty (a : Span) : Bool :=
  a.start == a.stop

/-- The number of possible offsets, which are counted in 64 bits. -/
def offsetCount : Nat := Nat.pow 2 64

/-- A span in a message: the place where it begins, and its end too if it
covers more than one byte.  The byte behind the last possible offset is counted
as byte zero. -/
def describe (a : Span) : String :=
  if (a.start + 1) % offsetCount < a.stop then
    toString a.start ++ ":" ++ toString a.stop
  else toString a.start

end Span

end Reckoner
