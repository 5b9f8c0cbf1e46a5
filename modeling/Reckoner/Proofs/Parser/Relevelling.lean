import Reckoner.Proofs.Lexer.Vocabulary
import Reckoner.Proofs.Parser.Simulation
import Reckoner.Proofs.Registry.Permutation

/-!
# Only the order of precedences matters

Two registries have the same definitions, but the binary and the prefix operators of the
second stand on the levels that a function `f` gives to those of the first, and the postfix
operators of both on any.  If `f` keeps the order of the levels and their signs, then both
read every text alike, as the same tree or with the same error
(`Registry.parse_eq_of_relevels`).

Both registries have the same names, so the lexemes are the same, and the parsers go in step.
What they do not share is the least precedence of an operator.  It is 0 in parentheses, the
level of a prefix operator behind it, and the level of a binary operator or the next number
behind that.  The two least precedences of a moment need not be given by `f`, but they make
the same cut through the levels: they let through an operator of the first registry if and
only if they let through its counterpart (`Registry.SameCut`).

* `sameCut_zero`: this is where the signs come in.
* `sameCut_level`, `sameCut_next`: this is where the order comes in.  For an operator that
  groups to the left the next number must be a level too, or else the minimum stays where
  it is and operators of the same level are let through.
-/

namespace Reckoner

/-! ## The same definition on another level -/

/-- A definition, and the same one on the level that `f` gives.  The level of a postfix
operator has no meaning, so it is free. -/
inductive Definition.Relevels (f : Int → Int) : Definition → Definition → Prop
  | binary {aliases : List Text} {precedence precedence' : Precedence}
      {associativity : Associativity} {rule : BinaryRule}
      (hlevel : precedence'.level = f precedence.level) :
      Relevels f (.binary ⟨aliases, precedence, associativity, rule⟩)
        (.binary ⟨aliases, precedence', associativity, rule⟩)
  | prefixed {aliases : List Text} {precedence precedence' : Precedence} {rule : UnaryRule}
      (hlevel : precedence'.level = f precedence.level) :
      Relevels f (.unary ⟨aliases, .prefixed, precedence, rule⟩)
        (.unary ⟨aliases, .prefixed, precedence', rule⟩)
  | postfixed {aliases : List Text} {precedence precedence' : Precedence} {rule : UnaryRule} :
      Relevels f (.unary ⟨aliases, .postfixed, precedence, rule⟩)
        (.unary ⟨aliases, .postfixed, precedence', rule⟩)
  | function (function : Function) : Relevels f (.function function) (.function function)

/-- A binary or a prefix operator on the level. -/
def Definition.StandsOn (level : Int) : Definition → Prop
  | .binary operator => operator.precedence.level = level
  | .unary operator => operator.fixity = .prefixed ∧ operator.precedence.level = level
  | .function _ => False

namespace Definition.Relevels

variable {f : Int → Int} {definition definition' : Definition}

theorem role_eq (hrelevels : definition.Relevels f definition') :
    definition.role = definition'.role := by
  cases hrelevels <;> rfl

theorem names_eq (hrelevels : definition.Relevels f definition') :
    definition.names = definition'.names := by
  cases hrelevels <;> rfl

end Definition.Relevels

namespace Registry

variable {registry other : Registry} {f : Int → Int} {level level' : Int}

/-- A binary or a prefix operator stands on the level. -/
def Uses (registry : Registry) (level : Int) : Prop :=
  ∃ definition, definition ∈ registry.definitions definition.role ∧ definition.StandsOn level

/-- No operator that groups to the left stands on the highest level. -/
def LeavesRoom (registry : Registry) : Prop :=
  ∀ operator, .binary operator ∈ registry.definitions .binary → operator.associativity = .left →
    operator.precedence.level ≠ maxPrecedence

/-- Two registries have the same definitions on levels of the same order. -/
structure Relevels (f : Int → Int) (registry other : Registry) : Prop where
  forth {definition : Definition} (hmem : definition ∈ registry.definitions definition.role) :
    ∃ definition' ∈ other.definitions definition.role, definition.Relevels f definition'
  back {definition' : Definition} (hmem : definition' ∈ other.definitions definition'.role) :
    ∃ definition ∈ registry.definitions definition'.role, definition.Relevels f definition'
  /-- The order of the levels is kept. -/
  lt_of_lt {level level' : Int} (hlevel : registry.Uses level) (hlevel' : registry.Uses level')
    (hlt : level < level') : f level < f level'
  /-- The signs of the levels are kept. -/
  nonneg_iff {level : Int} (hlevel : registry.Uses level) : 0 ≤ f level ↔ 0 ≤ level
  leavesRoom : registry.LeavesRoom
  leavesRoom' : other.LeavesRoom

/-! ## The same cut -/

/-- Two least precedences let through the same levels. -/
def SameCut (registry : Registry) (f : Int → Int) (minimum minimum' : Int) : Prop :=
  ∀ level, registry.Uses level → (level < minimum ↔ f level < minimum')

namespace Relevels

variable (hrelevels : registry.Relevels f other)

include hrelevels

theorem lt_iff_lt (hlevel : registry.Uses level) (hlevel' : registry.Uses level') :
    f level < f level' ↔ level < level' := by
  constructor
  · intro hlt
    rcases Int.lt_trichotomy level level' with hless | rfl | hmore
    · exact hless
    · exact absurd hlt (Int.lt_irrefl _)
    · exact absurd hlt (Int.lt_asymm (hrelevels.lt_of_lt hlevel' hlevel hmore))
  · exact hrelevels.lt_of_lt hlevel hlevel'

/-- In parentheses. -/
theorem sameCut_zero : registry.SameCut f 0 0 := by
  intro level hlevel
  rw [← Int.not_le, ← Int.not_le, hrelevels.nonneg_iff hlevel]

/-- Behind a prefix operator, or one that groups to the right. -/
theorem sameCut_level (hlevel : registry.Uses level) : registry.SameCut f level (f level) :=
  fun _ hother => (hrelevels.lt_iff_lt hother hlevel).symm

/-- Behind an operator that groups to the left. -/
theorem sameCut_next (hlevel : registry.Uses level) :
    registry.SameCut f (level + 1) (f level + 1) := by
  intro level' hlevel'
  calc level' < level + 1
      ↔ ¬ level < level' := by omega
    _ ↔ ¬ f level < f level' := not_congr (hrelevels.lt_iff_lt hlevel hlevel').symm
    _ ↔ f level' < f level + 1 := by omega

end Relevels

/-! ## Look-up -/

theorem rightMinimum_of_left {operator : BinaryOperator} (hroom : registry.LeavesRoom)
    (hmem : .binary operator ∈ registry.definitions .binary)
    (hleft : operator.associativity = .left) :
    operator.rightMinimum = operator.precedence.level + 1 := by
  have hlevel := operator.precedence.inRange.2
  have hne := hroom operator hmem hleft
  rw [BinaryOperator.rightMinimum, hleft]
  exact Int.min_eq_left (by omega)

/-- What a relation of look-ups says of what they find. -/
theorem rel_of_rel_map {α β : Type} {wrap : α → β} {r : β → β → Prop} {r' : α → α → Prop}
    (himp : ∀ a a', r (wrap a) (wrap a') → r' a a') {found found' : Option α}
    (hrel : Option.Rel r (found.map wrap) (found'.map wrap)) : Option.Rel r' found found' := by
  cases found <;> cases found' <;> cases hrel
  · exact .none
  · next h => exact .some (himp _ _ h)

namespace Relevels

variable (hrelevels : registry.Relevels f other) (hreach : registry.Reachable)
  (hother : other.Reachable)

include hrelevels

theorem sameNames : registry.SameNames other := by
  intro role name
  rw [mem_names_iff_exists_mem_definitions, mem_names_iff_exists_mem_definitions]
  constructor
  · rintro ⟨definition, hmem, rfl, hname⟩
    obtain ⟨definition', hmem', hsame⟩ := hrelevels.forth hmem
    exact ⟨definition', hmem', hsame.role_eq.symm, hsame.names_eq ▸ hname⟩
  · rintro ⟨definition', hmem', rfl, hname⟩
    obtain ⟨definition, hmem, hsame⟩ := hrelevels.back hmem'
    exact ⟨definition, hmem, hsame.role_eq, hsame.names_eq ▸ hname⟩

include hreach hother

/-- A name stands for a definition and its counterpart, or for none in both. -/
theorem rel_find? (role : Role) (name : Text) :
    Option.Rel (fun definition definition' => definition.role = role ∧
        definition ∈ registry.definitions role ∧ definition' ∈ other.definitions role ∧
        definition.Relevels f definition')
      (registry.find? role name) (other.find? role name) := by
  cases hfind : registry.find? role name with
  | some definition =>
      obtain ⟨hmem, rfl, hname⟩ := hreach.coherent.find?_eq_some_iff.mp hfind
      obtain ⟨definition', hmem', hsame⟩ := hrelevels.forth hmem
      have hfind' : other.find? definition.role name = some definition' :=
        hother.coherent.find?_eq_some_iff.mpr
          ⟨hmem', hsame.role_eq.symm, hsame.names_eq ▸ hname⟩
      rw [hfind']
      exact .some ⟨rfl, hmem, hmem', hsame⟩
  | none =>
      have hnone : ¬ (other.find? role name).isSome = true := by
        intro hsome
        have hname := (find?_isSome_iff hother).mp hsome
        have hfound := (find?_isSome_iff hreach).mpr ((hrelevels.sameNames role _).mpr hname)
        simp [hfind] at hfound
      rw [Option.not_isSome_iff_eq_none.mp hnone]
      exact .none

/-- **The registries answer alike**, with least precedences that make the same cuts. -/
theorem likens : registry.Likens Eq Eq (registry.SameCut f) other where
  merge := by
    rintro a _ b _ rfl rfl
    rfl
  zero := hrelevels.sameCut_zero
  binary := by
    rintro name _ rfl
    refine rel_of_rel_map ?_ (hrelevels.rel_find? hreach hother .binary name)
    rintro operator operator' ⟨_, hmem, hmem', hsame⟩
    have huses : registry.Uses operator.precedence.level := ⟨.binary operator, hmem, rfl⟩
    cases hsame with
    | @binary _ precedence precedence' associativity _ hlevel =>
        constructor
        · cases associativity with
          | left =>
              rw [rightMinimum_of_left hrelevels.leavesRoom hmem rfl,
                rightMinimum_of_left hrelevels.leavesRoom' hmem' rfl]
              show registry.SameCut f (precedence.level + 1) (precedence'.level + 1)
              rw [hlevel]
              exact hrelevels.sameCut_next huses
          | right =>
              show registry.SameCut f precedence.level precedence'.level
              rw [hlevel]
              exact hrelevels.sameCut_level huses
        · intro minimum minimum' hcut
          show precedence.level < minimum ↔ precedence'.level < minimum'
          rw [hlevel]
          exact hcut precedence.level huses
  prefixed := by
    rintro name _ rfl
    refine rel_of_rel_map ?_ (hrelevels.rel_find? hreach hother (.unary .prefixed) name)
    rintro operator operator' ⟨hrole, hmem, _, hsame⟩
    have hfixity : operator.fixity = .prefixed := Role.unary.inj hrole
    have huses : registry.Uses operator.precedence.level :=
      ⟨.unary operator, hmem, hfixity, rfl⟩
    cases hsame with
    | @prefixed _ precedence precedence' _ hlevel =>
        show registry.SameCut f precedence.level precedence'.level
        rw [hlevel]
        exact hrelevels.sameCut_level huses
    | postfixed => exact nomatch hfixity
  postfixed := by
    rintro name _ rfl
    rw [Bool.eq_iff_iff, findUnary?_isSome_iff hreach, findUnary?_isSome_iff hother]
    exact hrelevels.sameNames _ _
  function := by
    rintro name _ rfl
    refine rel_of_rel_map ?_ (hrelevels.rel_find? hreach hother .function name)
    rintro _ _ ⟨_, _, _, hsame⟩
    cases hsame
    rfl

end Relevels

/-! ## Texts -/

/-- **Only the order of precedences matters.**  Registries with the same definitions on
levels of the same order and of the same signs read every text alike under every limit, as
the same tree or with the same error. -/
theorem parse_eq_of_relevels (hreach : registry.Reachable) (hother : other.Reachable)
    (hrelevels : registry.Relevels f other) (limit : Nat) (source : Text) :
    registry.parse limit source = other.parse limit source := by
  have hstream : (LexemeStream.ofText registry source).Alike Eq Eq
      (LexemeStream.ofText other source) := by
    rw [hrelevels.sameNames.ofText_eq hreach hother]
    exact .refl (fun _ => rfl) (fun _ => rfl) _
  have hresults := parse_alike (hrelevels.likens hreach hother) hstream limit
  generalize registry.parse limit source = result, other.parse limit source = result'
    at hresults
  cases hresults with
  | ok htree => rw [htree.eq]
  | error herror => rw [herror.eq]

/-! ### Tables -/

theorem exists_mem_of_forall₂ {α β : Type} {related : α → β → Prop} {items : List α}
    {items' : List β} (hsame : List.Forall₂ related items items') {item : α}
    (hmem : item ∈ items) : ∃ item' ∈ items', related item item' := by
  induction hsame with
  | nil => simp at hmem
  | cons hfirst _ ih =>
      rcases List.mem_cons.mp hmem with rfl | hmem
      · exact ⟨_, List.mem_cons_self, hfirst⟩
      · obtain ⟨item', hmem', hrelated⟩ := ih hmem
        exact ⟨item', List.mem_cons_of_mem _ hmem', hrelated⟩

/-- It is enough to compare the tables that two registries are built from. -/
theorem counterparts_of_ofDefinitions {definitions definitions' : List Definition}
    (hbuilt : ofDefinitions definitions = .ok registry)
    (hbuilt' : ofDefinitions definitions' = .ok other)
    (hsame : List.Forall₂ (Definition.Relevels f) (definitions.map Definition.normalize)
      (definitions'.map Definition.normalize)) :
    (∀ {definition}, definition ∈ registry.definitions definition.role →
      ∃ definition' ∈ other.definitions definition.role, definition.Relevels f definition') ∧
    ∀ {definition'}, definition' ∈ other.definitions definition'.role →
      ∃ definition ∈ registry.definitions definition'.role, definition.Relevels f definition' := by
  constructor
  · intro definition hmem
    rw [mem_definitions_of_ofDefinitions hbuilt] at hmem
    obtain ⟨definition', hmem', hrelevels⟩ := exists_mem_of_forall₂ hsame hmem
    refine ⟨definition', ?_, hrelevels⟩
    rw [hrelevels.role_eq, mem_definitions_of_ofDefinitions hbuilt']
    exact hmem'
  · intro definition' hmem'
    rw [mem_definitions_of_ofDefinitions hbuilt'] at hmem'
    have hback : List.Forall₂ (flip (Definition.Relevels f)) (definitions'.map Definition.normalize)
      (definitions.map Definition.normalize) := List.Forall₂.flip hsame
    obtain ⟨definition, hmem, hrelevels⟩ := exists_mem_of_forall₂ hback hmem'
    refine ⟨definition, ?_, hrelevels⟩
    rw [← Definition.Relevels.role_eq hrelevels, mem_definitions_of_ofDefinitions hbuilt]
    exact hmem

/-- A table with the levels left open. -/
def arithmeticOn (sequence sum power bang : Precedence) : List Definition := [
  .binary ⟨[";".toList], sequence, .left, Rules.subtract⟩,
  .binary ⟨["+".toList], sum, .left, Rules.add⟩,
  .binary ⟨["^".toList], power, .right, Rules.power⟩,
  .unary ⟨["-".toList], .prefixed, sum, Rules.negate⟩,
  .unary ⟨["!".toList], .postfixed, bang, Rules.factorial⟩]

theorem leavesRoom_arithmeticOn {sequence sum power bang : Precedence}
    (hbuilt : ofDefinitions (arithmeticOn sequence sum power bang) = .ok registry)
    (hsequence : sequence.level ≠ maxPrecedence) (hsum : sum.level ≠ maxPrecedence) :
    registry.LeavesRoom := by
  intro operator hmem hleft
  have hlisted : Definition.binary operator ∈
      (arithmeticOn sequence sum power bang).map Definition.normalize :=
    (mem_definitions_of_ofDefinitions hbuilt).mp hmem
  simp only [arithmeticOn, List.map_cons, List.map_nil, List.mem_cons, List.not_mem_nil, or_false,
    Definition.normalize, Definition.binary.injEq, reduceCtorEq] at hlisted
  rcases hlisted with rfl | rfl | rfl
  · exact hsequence
  · exact hsum
  · exact nomatch hleft

/-- The levels -1, 2 and 3, and -20, 1 and 8. -/
theorem parse_eq_of_relevels_arithmetic :
    ∃ registry other,
      ofDefinitions (arithmeticOn ⟨-1, by decide⟩ ⟨2, by decide⟩ ⟨3, by decide⟩ ⟨6, by decide⟩) =
        .ok registry ∧
      ofDefinitions (arithmeticOn ⟨-20, by decide⟩ ⟨1, by decide⟩ ⟨8, by decide⟩ ⟨-6, by decide⟩) =
        .ok other ∧
      registry.Relevels (7 * · - 13) other ∧
      registry.parse 9 "-1 + 2 ^ 3! ; 4".toList = other.parse 9 "-1 + 2 ^ 3! ; 4".toList := by
  obtain ⟨registry, hbuilt⟩ : ∃ registry, ofDefinitions (arithmeticOn ⟨-1, by decide⟩
      ⟨2, by decide⟩ ⟨3, by decide⟩ ⟨6, by decide⟩) = .ok registry := ⟨_, rfl⟩
  obtain ⟨other, hbuilt'⟩ : ∃ other, ofDefinitions (arithmeticOn ⟨-20, by decide⟩
      ⟨1, by decide⟩ ⟨8, by decide⟩ ⟨-6, by decide⟩) = .ok other := ⟨_, rfl⟩
  have hsame : List.Forall₂ (Definition.Relevels (7 * · - 13))
      ((arithmeticOn ⟨-1, by decide⟩ ⟨2, by decide⟩ ⟨3, by decide⟩ ⟨6, by decide⟩).map
        Definition.normalize)
      ((arithmeticOn ⟨-20, by decide⟩ ⟨1, by decide⟩ ⟨8, by decide⟩ ⟨-6, by decide⟩).map
        Definition.normalize) :=
    .cons (.binary rfl) (.cons (.binary rfl) (.cons (.binary rfl)
      (.cons (.prefixed rfl) (.cons .postfixed .nil))))
  have hrelevels : registry.Relevels (7 * · - 13) other := by
    refine ⟨(counterparts_of_ofDefinitions hbuilt hbuilt' hsame).1,
      (counterparts_of_ofDefinitions hbuilt hbuilt' hsame).2, ?_, ?_, ?_, ?_⟩
    · intro level level' _ _ hlt
      show 7 * level - 13 < 7 * level' - 13
      omega
    · rintro level ⟨definition, hmem, hstands⟩
      rw [mem_definitions_of_ofDefinitions hbuilt] at hmem
      have hlevel : level = -1 ∨ level = 2 ∨ level = 3 := by
        simp only [arithmeticOn, List.map_cons, List.map_nil, List.mem_cons, List.not_mem_nil,
          or_false] at hmem
        rcases hmem with rfl | rfl | rfl | rfl | rfl
        · exact .inl hstands.symm
        · exact .inr (.inl hstands.symm)
        · exact .inr (.inr hstands.symm)
        · exact .inr (.inl hstands.2.symm)
        · exact nomatch hstands.1
      show 0 ≤ 7 * level - 13 ↔ 0 ≤ level
      omega
    · exact leavesRoom_arithmeticOn hbuilt (by decide) (by decide)
    · exact leavesRoom_arithmeticOn hbuilt' (by decide) (by decide)
  exact ⟨registry, other, hbuilt, hbuilt', hrelevels,
    parse_eq_of_relevels (reachable_of_ofDefinitions hbuilt) (reachable_of_ofDefinitions hbuilt')
      hrelevels 9 _⟩

end Registry

end Reckoner
