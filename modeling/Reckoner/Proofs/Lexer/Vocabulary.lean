import Reckoner.Lexer.Stream
import Reckoner.Proofs.Registry.Identifiers

/-!
# The vocabulary of the lexer

The lexer asks a registry three things: whether a word names an operator, whether it names
a function, and which names of operators there are.  Registries that answer these alike
split every text alike, errors included (`LexemeStream.ofText_congr`).

All three are settled by the names that each role has.  So registries with the same
vocabulary (`Registry.SameNames`) split every text alike, whatever the names stand for
(`SameNames.ofText_eq`).
-/

namespace Reckoner

variable {registry other : Registry}

section Congruence

variable (hoperator : ∀ name, registry.isOperator name = other.isOperator name)
  (hfunction : ∀ name,
    (registry.findFunction? name).isSome = (other.findFunction? name).isSome)
  (hidentifiers : registry.identifiers = other.identifiers)

include hoperator hfunction hidentifiers

theorem Cursor.next_congr (cursor : Cursor) : cursor.next registry = cursor.next other := by
  simp only [Cursor.next, Cursor.readLexeme, Cursor.readWord, Cursor.readSymbol, hoperator,
    hfunction, hidentifiers]

theorem LexemeStream.ofText_congr (source : Text) :
    ofText registry source = ofText other source := by
  have hunfold : ∀ steps cursor, unfold registry steps cursor = unfold other steps cursor := by
    intro steps
    induction steps with
    | zero => intro cursor; rfl
    | succ steps ih =>
        intro cursor
        have hnext := Cursor.next_congr hoperator hfunction hidentifiers
        simp only [unfold, hnext, ih]
  exact hunfold _ _

end Congruence

namespace Registry

/-- Two registries have the same names in every role. -/
def SameNames (registry other : Registry) : Prop :=
  ∀ role name, name ∈ registry.names role ↔ name ∈ other.names role

namespace SameNames

variable (hsame : registry.SameNames other) (hreach : registry.Reachable)
  (hother : other.Reachable)

include hsame

theorem mem_operatorNames_iff {name : Text} :
    name ∈ registry.operatorNames ↔ name ∈ other.operatorNames := by
  rw [mem_operatorNames, mem_operatorNames]
  exact or_congr (hsame .binary name) (exists_congr fun fixity => hsame (.unary fixity) name)

include hreach hother

theorem isOperator_eq (name : Text) : registry.isOperator name = other.isOperator name := by
  rw [Bool.eq_iff_iff, isOperator_iff hreach, isOperator_iff hother, hsame.mem_operatorNames_iff]

theorem isSome_findFunction?_eq (name : Text) :
    (registry.findFunction? name).isSome = (other.findFunction? name).isSome := by
  rw [Bool.eq_iff_iff, findFunction?_isSome_iff hreach, findFunction?_isSome_iff hother]
  exact hsame .function (lower name)

/-- A list that is strictly sorted is known by its members. -/
theorem identifiers_eq : registry.identifiers = other.identifiers := by
  have hperm : registry.identifiers.Perm other.identifiers := by
    refine (List.perm_ext_iff_of_nodup (nodup_identifiers hreach) (nodup_identifiers hother)).mpr ?_
    intro name
    rw [mem_identifiers hreach, mem_identifiers hother, hsame.mem_operatorNames_iff]
  exact hperm.eq_of_pairwise
    (fun _ _ _ _ hlonger hback => absurd hback (Text.not_longerFirst_of hlonger))
    (pairwise_identifiers hreach) (pairwise_identifiers hother)

/-- **Registries with the same names split every text alike.** -/
theorem ofText_eq (source : Text) :
    LexemeStream.ofText registry source = LexemeStream.ofText other source :=
  LexemeStream.ofText_congr (hsame.isOperator_eq hreach hother)
    (hsame.isSome_findFunction?_eq hreach hother) (hsame.identifiers_eq hreach hother) source

end SameNames

end Registry

end Reckoner
