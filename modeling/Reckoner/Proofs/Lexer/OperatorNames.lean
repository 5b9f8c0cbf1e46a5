import Reckoner.Proofs.Lexer.Splitting
import Reckoner.Proofs.Lexer.Tiling
import Reckoner.Proofs.Text.Casing

/-!
# The operator names of registry and lexer

The registry takes a text for an operator if the lower case of the text is registered as
one.  The lexer proceeds in another way: it takes a whole word and asks the registry for
it, but a symbol it compares with the registered names as they are, and the case of the
text is not touched.  The two agree (`isOperator_iff_answer`) because of what is checked
when a name is registered.

* A name that begins with a letter consists of letters.  So does every text that has this
  name as its lower case (`isLetter_of_lower`), and the lexer takes it as one word.
* A name that begins with no letter holds no cased letters.  Then the only text that has
  this name as its lower case is the name (`lower_eq_self`), and the lexer finds it.
-/

namespace Reckoner

/-! ## What the lexer makes of one name -/

/-- Wherever the lexer finds an operator, the registry knows the name. -/
theorem Scan.isOperator {registry : Registry} (hreach : registry.Reachable) {rest name text : Text}
    (hscan : Scan registry rest (.operator name) text) : registry.isOperator name = true := by
  cases hscan with
  | operatorWord _ _ hoperator => exact hoperator
  | symbol _ _ _ hfind =>
      have hname := ((Registry.find?_identifiers_eq_some_iff hreach).mp hfind).1
      exact Registry.isOperator_of_mem hreach hname

namespace Registry

variable {registry : Registry} {text : Text} {first : Char} {rest : Text}

/-- A registered symbol that stands alone is found, for no longer name fits. -/
theorem scan_symbol (hreach : registry.Reachable)
    (hname : first :: rest ∈ registry.operatorNames) (hletter : isLetter first = false) :
    Scan registry (first :: rest) (.operator (first :: rest)) (first :: rest) := by
  obtain ⟨hclass, hdigit⟩ := class_of_symbol hreach hname
  refine .symbol hdigit hletter (hclass first List.mem_cons_self).2 ?_
  rw [find?_identifiers_eq_some_iff hreach]
  refine ⟨hname, List.prefix_rfl, ?_⟩
  intro other _ hbegins
  exact hbegins.length_le

/-- A text that the registry takes for an operator is one lexeme. -/
theorem scan_of_isOperator (hreach : registry.Reachable)
    (hoperator : registry.isOperator text = true) :
    Scan registry text (.operator text) text ∧ ∀ c ∈ text.head?, isBlank c = false := by
  have hname := (isOperator_iff hreach).mp hoperator
  have hfault := operatorNameFault_of_mem hreach hname
  obtain ⟨first, rest, hlower⟩ := List.exists_cons_of_ne_nil (ne_nil_of_operatorNameFault hfault)
  rw [hlower] at hfault
  obtain ⟨hblank, _, _, hclass⟩ := operatorNameFault_cons_eq_none_iff.mp hfault
  by_cases hletter : isLetter first = true
  · -- a word
    rw [if_pos hletter, ← hlower] at hclass
    have hletters := isLetter_of_lower hclass
    cases text with
    | nil => exact nomatch hlower
    | cons c later =>
        have hc := hletters c List.mem_cons_self
        have hword : (c :: later).takeWhile isLetter = c :: later :=
          List.takeWhile_eq_self_iff.mpr hletters
        exact ⟨.operatorWord hc hword hoperator, by simpa using isBlank_of_isLetter hc⟩
  · -- a symbol, which lowering does not change
    rw [if_neg hletter, ← hlower] at hclass
    obtain rfl : text = first :: rest := (lower_eq_self hclass).symm.trans hlower
    rw [hlower] at hname
    exact ⟨scan_symbol hreach hname (Bool.eq_false_iff.mpr hletter),
      by simpa using hblank first List.mem_cons_self⟩

/-! ## Registry and lexer -/

/-- A text that the registry takes for an operator is split into just that operator. -/
theorem tokenizes_of_isOperator (hreach : registry.Reachable)
    (hoperator : registry.isOperator text = true) :
    registry.Tokenizes text [⟨.operator text, ⟨0, text.byteLength⟩⟩] := by
  obtain ⟨hscan, hblank⟩ := scan_of_isOperator hreach hoperator
  have hskip : (Cursor.start text).skipBlanks = Cursor.start text := by
    cases text with
    | nil => rfl
    | cons c rest => simp [Cursor.start, Cursor.skipBlanks, hblank c rfl]
  have hnext : (Cursor.start text).next registry =
      (.ok ⟨.operator text, ⟨0, text.byteLength⟩⟩, (Cursor.start text).advance text) := by
    refine Cursor.next_eq_ok_iff.mpr ⟨text, ?_, ?_, ?_⟩
    · rw [hskip]
      exact hscan
    · rw [hskip]
      simp [Cursor.spanOf, Cursor.start]
    · rw [hskip]
  refine .lexeme hnext (by simp) (.ended (Cursor.next_eq_ended_iff.mpr ⟨?_, rfl, rfl⟩))
  simp [Cursor.start, Cursor.advance]

/-- **Registry and lexer agree on the names of operators.**  The registry takes a text for
an operator if and only if the first lexeme of the text is an operator with this name.
Whatever case a name is looked up in, the lexer yields it in that case. -/
theorem isOperator_iff_answer (hreach : registry.Reachable) (text : Text) :
    (registry.isOperator text = true ↔
      ∃ span, registry.answer text 0 = .ok ⟨.operator text, span⟩) ∧
    ∀ role ≠ .function, (registry.find? role text).isSome = true →
      registry.Tokenizes text [⟨.operator text, ⟨0, text.byteLength⟩⟩] := by
  constructor
  · constructor
    · intro hoperator
      cases tokenizes_of_isOperator hreach hoperator with
      | lexeme hnext _ _ => exact ⟨_, congrArg Prod.fst hnext⟩
    · rintro ⟨span, hanswer⟩
      obtain ⟨_, hscan, _, _⟩ := Cursor.next_eq_ok_iff.mp (next_position_of_answer hanswer)
      exact hscan.isOperator hreach
  · intro role hrole hfind
    have hname := (find?_isSome_iff hreach).mp hfind
    apply tokenizes_of_isOperator hreach
    rw [isOperator_iff hreach]
    cases role with
    | binary => exact mem_operatorNames.mpr (.inl hname)
    | unary fixity => exact mem_operatorNames.mpr (.inr ⟨fixity, hname⟩)
    | function => exact absurd rfl hrole

/-- A word in another case than it is registered in, and a symbol that begins others. -/
theorem isOperator_iff_answer_mod :
    (∃ span, standard.answer "Mod".toList 0 = .ok ⟨.operator "Mod".toList, span⟩) ∧
      standard.Tokenizes "Mod".toList [⟨.operator "Mod".toList, ⟨0, 3⟩⟩] ∧
      standard.Tokenizes ">>>".toList [⟨.operator ">>>".toList, ⟨0, 3⟩⟩] := by
  obtain ⟨hiff, hfound⟩ := isOperator_iff_answer reachable_standard "Mod".toList
  obtain ⟨_, hshift⟩ := isOperator_iff_answer reachable_standard ">>>".toList
  exact ⟨hiff.mp (by decide +kernel), hfound .binary (by simp) (by decide +kernel),
    hshift .binary (by simp) (by decide +kernel)⟩

end Registry

end Reckoner
