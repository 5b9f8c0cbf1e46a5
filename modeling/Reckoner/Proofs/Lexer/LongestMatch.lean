import Reckoner.Proofs.Lexer.Positions
import Reckoner.Proofs.Registry.History

/-!
# Symbols are matched at their longest

Behind the blanks, a character that is no letter, no digit and no punctuation begins a symbol.
The lexer takes the first name of a list that the text goes on with.  Which names stand in the
list, and in which order, is made anew with every operator that is registered; seen from outside,
the lexer takes the longest alias of all operators, whatever their kind, and finds nothing only
if no alias begins the text.

`Registry.IsAlias` speaks of the operators alone, and `Registry.IsLongest` of their aliases: of
the list nothing is left in the statement.
-/

namespace Reckoner

namespace Registry

variable {registry : Registry} {name : Text}

/-! ## Aliases -/

/-- The name is an alias of a binary, prefix or postfix operator. -/
def IsAlias (registry : Registry) (name : Text) : Prop :=
  (∃ operator ∈ registry.binary, name ∈ operator.aliases) ∨
    ∃ operator ∈ registry.unary, name ∈ operator.aliases

/-- An alias that begins the text, while no longer one does. -/
structure IsLongest (registry : Registry) (text name : Text) : Prop where
  isAlias : registry.IsAlias name
  begins : name <+: text
  none_longer : ∀ other, registry.IsAlias other → name.length < other.length → ¬ other <+: text

theorem mem_operatorNames_iff_isAlias : name ∈ registry.operatorNames ↔ registry.IsAlias name := by
  rw [mem_operatorNames]
  refine or_congr (by simp [names]) ?_
  constructor
  · rintro ⟨fixity, hname⟩
    obtain ⟨operator, hoperator, hname⟩ := List.mem_flatMap.mp hname
    exact ⟨operator, (List.mem_filter.mp hoperator).1, hname⟩
  · rintro ⟨operator, hoperator, hname⟩
    exact ⟨operator.fixity, List.mem_flatMap.mpr
      ⟨operator, List.mem_filter.mpr ⟨hoperator, by simp⟩, hname⟩⟩

/-- The first hit in the list of operator names is the longest alias. -/
theorem find?_identifiers_eq_some_iff_isLongest (hreach : registry.Reachable) {text : Text} :
    registry.identifiers.find? (·.isPrefixOf text) = some name ↔ registry.IsLongest text name := by
  rw [find?_identifiers_eq_some_iff hreach, mem_operatorNames_iff_isAlias]
  constructor
  · rintro ⟨halias, hbegins, hlongest⟩
    refine ⟨halias, hbegins, fun other hother hlonger hbegins' => ?_⟩
    have hle := hlongest other (mem_operatorNames_iff_isAlias.mpr hother) hbegins'
    omega
  · rintro ⟨halias, hbegins, hnone⟩
    refine ⟨halias, hbegins, fun other hother hbegins' => Nat.not_lt.mp fun hlonger => ?_⟩
    exact hnone other (mem_operatorNames_iff_isAlias.mp hother) hlonger hbegins'

theorem find?_identifiers_eq_none_iff (hreach : registry.Reachable) {text : Text} :
    registry.identifiers.find? (·.isPrefixOf text) = none ↔
      ∀ name, registry.IsAlias name → ¬ name <+: text := by
  simp only [List.find?_eq_none, List.isPrefixOf_iff_prefix, mem_identifiers hreach,
    mem_operatorNames_iff_isAlias]

end Registry

/-! ## Symbols -/

namespace Cursor

variable {registry : Registry} {cursor : Cursor} {c : Char} {rest : Text}

/-- What is neither a letter nor a digit nor punctuation begins a symbol. -/
theorem next_eq_readSymbol (hrest : cursor.rest.dropWhile isBlank = c :: rest)
    (hletter : isLetter c = false) (hdigit : c.isDigit = false)
    (hpunctuation : isPunctuation c = false) :
    cursor.next registry = cursor.skipBlanks.readSymbol registry c := by
  have hbehind : cursor.skipBlanks.rest = c :: rest := (rest_skipBlanks cursor).trans hrest
  simp only [isPunctuation, Bool.or_eq_false_iff, beq_eq_false_iff_ne] at hpunctuation
  simp only [next, readLexeme, hbehind, hletter, hdigit, hpunctuation, Bool.false_eq_true, if_false]

end Cursor

namespace Registry

/-- **Longest match.**  Whatever registrations a registry went through, successful or not: where
behind the blanks a character stands that is no letter, no digit and no punctuation, the lexer
yields the longest alias of an operator that begins the text there, and stands behind it; or, if
and only if no alias begins the text, it finds the character to be unknown. -/
theorem next_longest (changes : List Change) {cursor : Cursor} {c : Char} {rest : Text}
    (hrest : cursor.rest.dropWhile isBlank = c :: rest) (hletter : isLetter c = false)
    (hdigit : c.isDigit = false) (hpunctuation : isPunctuation c = false) :
    let registry := after changes
    let behind := cursor.skipBlanks
    let span := behind.spanOf [c]
    let unknown := (.error (.unknownCharacter c span ⟨cursor.source, span⟩), behind)
    (cursor.next registry = unknown ∨
      ∃ name, registry.IsLongest (c :: rest) name ∧
        cursor.next registry =
          (.ok ⟨.operator name, behind.spanOf name⟩, behind.advance name)) ∧
    (cursor.next registry = unknown ↔ ∀ name, registry.IsAlias name → ¬ name <+: c :: rest) := by
  intro registry behind span unknown
  have hreach : registry.Reachable := reachable_after changes
  have hbehind : behind.rest = c :: rest := (Cursor.rest_skipBlanks cursor).trans hrest
  rw [Cursor.next_eq_readSymbol hrest hletter hdigit hpunctuation,
    ← find?_identifiers_eq_none_iff hreach, Cursor.readSymbol, hbehind]
  cases hfind : registry.identifiers.find? (·.isPrefixOf (c :: rest)) with
  | none => exact ⟨.inl rfl, iff_of_true rfl rfl⟩
  | some name =>
      have hlongest := (find?_identifiers_eq_some_iff_isLongest hreach).mp hfind
      exact ⟨.inr ⟨name, hlongest, rfl⟩, iff_of_false (by simp [Cursor.emit, unknown]) (by simp)⟩

/-- Of the three operators that begin the text the longest is taken; a registration that fails, for
an alias that is there already, adds none. -/
theorem next_longest_shift :
    let changes := [.build standardBinary standardUnary standardFunctions,
      .register (.binary ⟨[">>>=".toList, "+".toList], .shift, .left, Rules.shiftUp⟩)]
    let cursor := Cursor.start " >>>= 2".toList
    (cursor.rest.dropWhile isBlank = '>' :: ">>= 2".toList ∧ isLetter '>' = false ∧
        '>'.isDigit = false ∧ isPunctuation '>' = false) ∧
      (after changes).IsLongest ('>' :: ">>= 2".toList) ">>>".toList ∧
      cursor.next (after changes) =
        (.ok ⟨.operator ">>>".toList, ⟨1, 4⟩⟩, ⟨" >>>= 2".toList, 4, "= 2".toList⟩) := by
  intro changes cursor
  have hrest : cursor.rest.dropWhile isBlank = '>' :: ">>= 2".toList := by decide +kernel
  have hletter : isLetter '>' = false := by decide +kernel
  have hanswer : cursor.next (after changes) =
      (.ok ⟨.operator ">>>".toList, ⟨1, 4⟩⟩, ⟨" >>>= 2".toList, 4, "= 2".toList⟩) := by
    decide +kernel
  refine ⟨⟨hrest, hletter, rfl, rfl⟩, ?_, hanswer⟩
  rcases (next_longest changes hrest hletter rfl rfl).1 with hunknown | ⟨name, hlongest, hname⟩
  · exact absurd (hanswer.symm.trans hunknown) (by simp)
  · obtain ⟨rfl, _⟩ : ">>>".toList = name ∧ _ := by
      simpa using congrArg Prod.fst (hanswer.symm.trans hname)
    exact hlongest

end Registry

end Reckoner
