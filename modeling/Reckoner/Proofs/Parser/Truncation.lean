import Reckoner.Proofs.Parser.Depth
import Reckoner.Proofs.Parser.Execution
import Reckoner.Proofs.Parser.Places
import Reckoner.Registry.Standard

/-!
# The limit only truncates

A lower limit changes nothing but that the parser may give up for its depth: it never
leads to another tree or to another error.

Two runs with different limits go in step (`Truncates`) until the one with the lower
limit ends for its depth.  Each part of the parser has this property if the functions
for its operands have it, and the parser itself by induction on the lower budget.  The
budgets differ from the start, so both are kept general; what ties them together is
only that one is no larger than the other.

`Depth` says when the lower limit is high enough: if it exceeds the number of lexemes
that are yielded before the first end of input or error.
-/

namespace Reckoner

/-! ## Runs in step -/

/-- A step does what another one does, unless it ends with the error that it is too deep
for its limit. -/
def ParserM.Truncates (limit : Nat) {α : Type} (m m' : ParserM α) : Prop :=
  ∀ s : ParserState, m.run s = m'.run s ∨
    ∃ span snippet, (m.run s).1 = .error (.tooDeep limit span snippet)

namespace ParserM.Truncates

variable {α β : Type} {limit limit' : Nat} {m m' : ParserM α} {f f' : α → ParserM β}

theorem refl (m : ParserM α) : Truncates limit m m :=
  fun _ => Or.inl rfl

theorem bind (hfirst : Truncates limit m m') (hnext : ∀ a, Truncates limit (f a) (f' a)) :
    Truncates limit (m >>= f) (m' >>= f') := by
  intro s
  rcases hfirst s with hsame | ⟨span, snippet, hdeep⟩
  · rw [run_bind, run_bind, ← hsame]
    rcases m.run s with ⟨error | a, t⟩
    · exact Or.inl rfl
    · exact hnext a t
  · refine Or.inr ⟨span, snippet, ?_⟩
    rw [run_bind]
    rcases hrun : m.run s with ⟨error | a, t⟩
    · obtain rfl : error = .tooDeep limit span snippet := by simpa [hrun] using hdeep
      rfl
    · simp [hrun] at hdeep

theorem wrap (hle : limit ≤ limit') (expr : Expr) (height : Nat) (span : Span) :
    Truncates limit (Parser.wrap limit expr height span) (Parser.wrap limit' expr height span) := by
  intro s
  rw [run_wrap, run_wrap]
  by_cases hdeep : limit < height
  · exact Or.inr ⟨span, _, by rw [if_pos hdeep]⟩
  · exact Or.inl (by rw [if_neg hdeep, if_neg (by omega)])

end ParserM.Truncates

namespace Parser

open ParserM

variable {registry : Registry} {limit limit' : Nat} {operand operand' : Int → ParserM Node}

section Parts

variable (hle : limit ≤ limit')

include hle

theorem truncates_postfixChain (rounds : Nat) (node : Node) :
    Truncates limit (postfixChain registry limit rounds node)
      (postfixChain registry limit' rounds node) := by
  induction rounds generalizing node with
  | zero => exact .refl _
  | succ rounds ih =>
      refine (Truncates.refl _).bind fun current => ?_
      split
      · split
        · refine (Truncates.refl _).bind fun _ => (Truncates.wrap hle _ _ _).bind fun wrapped => ?_
          exact ih wrapped
        · exact .refl _
      · exact .refl _

variable (hoperand : ∀ minimum, Truncates limit (operand minimum) (operand' minimum))

include hoperand

omit hle in
theorem truncates_arguments (rounds : Nat) (args : List Node) :
    Truncates limit (arguments operand rounds args) (arguments operand' rounds args) := by
  induction rounds generalizing args with
  | zero => exact .refl _
  | succ rounds ih =>
      refine (Truncates.refl _).bind fun current => ?_
      split
      · exact (Truncates.refl _).bind fun _ => (hoperand 0).bind fun arg => ih _
      · exact .refl _

omit hle in
theorem truncates_argumentList :
    Truncates limit (argumentList operand) (argumentList operand') := by
  refine (Truncates.refl _).bind fun current => ?_
  split
  · exact .refl _
  · refine (hoperand 0).bind fun first => (Truncates.refl _).bind fun rounds => ?_
    exact truncates_arguments hoperand rounds [first]

theorem truncates_call (name : Text) :
    Truncates limit (call registry limit operand name) (call registry limit' operand' name) := by
  refine (Truncates.refl _).bind fun current => ?_
  split
  · exact .refl _
  · refine (Truncates.refl _).bind fun _ => (Truncates.refl _).bind fun opening => ?_
    split
    · exact .refl _
    · refine (Truncates.refl _).bind fun _ => ?_
      refine (truncates_argumentList hoperand).bind fun args => ?_
      refine (Truncates.refl _).bind fun close => ?_
      split
      · exact .refl _
      · exact .wrap hle _ _ _

theorem truncates_atom :
    Truncates limit (atom registry limit operand) (atom registry limit' operand') := by
  refine (Truncates.refl _).bind fun current => ?_
  split
  · exact .refl _
  · refine (Truncates.refl _).bind fun _ => (hoperand 0).bind fun inner => ?_
    exact .refl _
  · split
    · exact .refl _
    · refine (Truncates.refl _).bind fun _ => (hoperand _).bind fun inner => ?_
      exact .wrap hle _ _ _
  · exact truncates_call hle hoperand _
  · exact .refl _

theorem truncates_primary :
    Truncates limit (primary registry limit operand) (primary registry limit' operand') := by
  refine (truncates_atom hle hoperand).bind fun node => (Truncates.refl _).bind fun rounds => ?_
  exact truncates_postfixChain hle rounds node

theorem truncates_binaryChain (minimum : Int) (rounds : Nat) (left : Node) :
    Truncates limit (binaryChain registry limit operand minimum rounds left)
      (binaryChain registry limit' operand' minimum rounds left) := by
  induction rounds generalizing left with
  | zero => exact .refl _
  | succ rounds ih =>
      refine (Truncates.refl _).bind fun current => ?_
      split
      · split
        · exact .refl _
        split
        · exact .refl _
        · refine (Truncates.refl _).bind fun _ => (hoperand _).bind fun right => ?_
          exact (Truncates.wrap hle _ _ _).bind fun joined => ih joined
      · exact .refl _

end Parts

theorem truncates_expression (hle : limit ≤ limit') {budget budget' : Nat}
    (hbudget : budget ≤ budget') (minimum : Int) :
    Truncates limit (expression registry limit budget minimum)
      (expression registry limit' budget' minimum) := by
  induction budget generalizing budget' minimum with
  | zero => exact fun s => Or.inr ⟨s.current.span, _, rfl⟩
  | succ budget ih =>
      obtain ⟨budget', rfl⟩ := Nat.exists_eq_add_one_of_ne_zero (Nat.ne_zero_of_lt hbudget)
      have hoperand := fun minimum => ih (Nat.le_of_succ_le_succ hbudget) minimum
      refine (truncates_primary hle hoperand).bind fun left => ?_
      refine (Truncates.refl _).bind fun rounds => ?_
      exact truncates_binaryChain hle hoperand minimum rounds left

theorem truncates_parse (hle : limit ≤ limit') :
    Truncates limit (parse registry limit) (parse registry limit') :=
  (truncates_expression hle hle 0).bind fun _ => .refl _

end Parser

/-! ## Texts -/

namespace Registry

variable {registry : Registry} {limit limit' : Nat} {source : Text}

theorem parse_eq_or_tooDeep (hreach : registry.Reachable) (hle : limit ≤ limit') :
    registry.parse limit source = registry.parse limit' source ∨
      ∃ span, registry.parse limit source = .error (.tooDeep limit span ⟨source, span⟩) := by
  have htruncates : registry.parse limit source = registry.parse limit' source ∨
      ∃ span snippet, registry.parse limit source = .error (.tooDeep limit span snippet) := by
    unfold Registry.parse
    split
    · exact Or.inl rfl
    · next s _ => exact (Parser.truncates_parse hle s).imp_left (congrArg Prod.fst)
  refine htruncates.imp_right fun ⟨span, snippet, hdeep⟩ => ⟨span, ?_⟩
  obtain rfl : snippet = ⟨source, span⟩ := (located_of_parse hreach hdeep).snippet_eq
  exact hdeep

theorem parse_ne_tooDeep (hreach : registry.Reachable) {n : Nat}
    (hyields : registry.YieldsFirst source n) (hlimit : n + 1 ≤ limit) (bound : Nat) (span : Span)
    (snippet : Snippet) : registry.parse limit source ≠ .error (.tooDeep bound span snippet) := by
  intro hparse
  unfold Registry.parse at hparse
  split at hparse
  · next error hstart =>
      -- an error at the first lexeme is one of the lexer
      unfold ParserState.start at hstart
      split at hstart
      · exact absurd hstart (by simp)
      · obtain rfl := Except.error.inj hstart
        exact absurd hparse (by simp)
  · next s hstart =>
      have hpending : s.pending = n := by
        rw [ParserState.pending, ParserState.start_eq_ok hstart]
        exact countP_tokens_ofText hreach hyields
      have hstays : (Parser.parse registry limit).Stays s fun _ _ => True :=
        Parser.stays_parse (by omega)
      have hrun : (Parser.parse registry limit).run s =
          (.error (.tooDeep bound span snippet), ((Parser.parse registry limit).run s).2) :=
        Prod.ext hparse rfl
      unfold ParserM.Stays at hstays
      rw [hrun] at hstays
      exact hstays bound span snippet rfl

/-- **The limit only truncates.**  A text has the same result, be it a tree or an error,
under all limits, except that it may be too deep for the lower ones.  It is too deep for
none that exceeds the number of lexemes before the first end of input or error. -/
theorem parse_truncates (hreach : registry.Reachable) (source : Text) :
    (∀ limit limit', limit ≤ limit' →
      registry.parse limit source = registry.parse limit' source ∨
        ∃ span, registry.parse limit source = .error (.tooDeep limit span ⟨source, span⟩)) ∧
    ∀ n, registry.YieldsFirst source n → ∀ limit, n + 1 ≤ limit → ∀ bound span snippet,
      registry.parse limit source ≠ .error (.tooDeep bound span snippet) := by
  constructor
  · exact fun _ _ hle => parse_eq_or_tooDeep hreach hle
  · exact fun _ hyields _ hlimit => parse_ne_tooDeep hreach hyields hlimit

/-- Seven lexemes before an unknown character. -/
theorem parse_truncates_factorial :
    standard.YieldsFirst "-(2 ^ 3)! #".toList 7 ∧
      (standard.parse 3 "-(2 ^ 3)! #".toList = standard.parse 8 "-(2 ^ 3)! #".toList ∨
        ∃ span, standard.parse 3 "-(2 ^ 3)! #".toList =
          .error (.tooDeep 3 span ⟨"-(2 ^ 3)! #".toList, span⟩)) ∧
      ∀ span snippet,
        standard.parse 8 "-(2 ^ 3)! #".toList ≠ .error (.tooDeep 8 span snippet) := by
  have hyields : standard.YieldsFirst "-(2 ^ 3)! #".toList 7 := by
    unfold YieldsFirst
    decide +kernel
  obtain ⟨hsame, hdeep⟩ := parse_truncates reachable_standard "-(2 ^ 3)! #".toList
  exact ⟨hyields, hsame 3 8 (by decide), hdeep 7 hyields 8 (by decide) 8⟩

end Registry

end Reckoner
