import Reckoner.Expr.Equality
import Reckoner.Proofs.Evaluation.Resolution
import Reckoner.Proofs.Lexer.Tokens
import Reckoner.Proofs.Parser.Errors
import Reckoner.Proofs.Parser.Execution
import Reckoner.Registry.Standard

/-!
# Parsed trees resolve

The lexer, the parser and the evaluator look names up one after the other: the
lexer in any role of an operator, the parser in the role that the position asks
for, the evaluator again at each node.  The rules of the grammar hold the second
look-up and the number of arguments, so a derivation leaves a tree that resolves
(`Derives.resolves`), and its evaluation can fail by a rule only.

The lexer yields the names of known functions only, so the parser's own test for
them never fails.
-/

namespace Reckoner

namespace Registry

variable {registry : Registry} {limit : Nat} {source : Text}

/-! ## Derived trees -/

/-- The trees of a phrase resolve if the tree that it begins with does. -/
def PhraseResolves (registry : Registry) : Phrase → Prop
  | .expression _ e => registry.Resolves e
  | .chain _ left e => registry.Resolves left → registry.Resolves e
  | .primary e => registry.Resolves e
  | .postfixes operand e => registry.Resolves operand → registry.Resolves e
  | .operand e => registry.Resolves e
  | .arguments args => ∀ e ∈ args, registry.Resolves e
  | .others args => ∀ e ∈ args, registry.Resolves e

theorem Derives.resolves {phrase : Phrase} {used : List Token}
    (hderives : registry.Derives phrase used) : registry.PhraseResolves phrase := by
  induction hderives with
  | expression _ _ hleft hchain => exact hchain hleft
  | chainEnd => exact id
  | chain hfind _ _ _ hright hchain =>
      exact fun hleft => hchain (Expr.all_binary.mpr ⟨hleft, hright, Option.isSome_of_eq_some hfind⟩)
  | primary _ _ hoperand hpostfixes => exact hpostfixes hoperand
  | postfixesEnd => exact id
  | postfixes hfind _ hpostfixes =>
      exact fun hoperand => hpostfixes (Expr.all_postfixed.mpr ⟨hoperand, hfind⟩)
  | number => exact Expr.all_number.mpr trivial
  | group _ hinner => exact hinner
  | prefixed hfind _ hoperand =>
      exact Expr.all_prefixed.mpr ⟨hoperand, Option.isSome_of_eq_some hfind⟩
  | call hfind harity _ hargs => exact Expr.all_call.mpr ⟨hargs, _, hfind, harity⟩
  | noArguments => exact fun _ h => absurd h List.not_mem_nil
  | arguments _ _ hfirst hothers => exact List.forall_mem_cons.mpr ⟨hfirst, hothers⟩
  | othersEnd => exact fun _ h => absurd h List.not_mem_nil
  | others _ _ hfirst hothers => exact List.forall_mem_cons.mpr ⟨hfirst, hothers⟩

/-! ## Names of functions -/

/-- A lexeme that is no name of an unknown function. -/
def Recognizes (registry : Registry) (lexeme : Lexeme) : Prop :=
  ∀ name, lexeme.token = .function name → (registry.findFunction? name).isSome = true

theorem recognizes_of_next {cursor after : Cursor} {lexeme : Lexeme}
    (hnext : cursor.next registry = (.ok lexeme, after)) : registry.Recognizes lexeme := by
  obtain ⟨text, hscan, _, _⟩ := Cursor.next_eq_ok_iff.mp hnext
  exact fun name hname => (hname ▸ hscan).findFunction?_isSome

theorem all_recognizes_ofText :
    (LexemeStream.ofText registry source).All registry.Recognizes fun _ => True :=
  @LexemeStream.all_unfold _ _ _ (fun _ => True) (fun _ _ _ h => nomatch h)
    (fun _ _ _ _ hnext => ⟨recognizes_of_next hnext, trivial⟩)
    (fun _ _ _ _ _ => ⟨trivial, trivial⟩) _ _ trivial

/-- No error asks for a known function. -/
theorem explains_recognized :
    Parser.Explains registry limit source registry.Recognizes (fun _ => True) fun error =>
      ∀ found span snippet, error ≠ .unexpected found .knownFunction span snippet where
  known hgood hname := hgood _ hname
  lexical _ := by simp
  unexpected _ hknown := by
    rintro _ _ _ ⟨⟩
    exact hknown rfl
  arity _ _ := by simp
  unmatched _ _ := by simp
  trailing _ := by simp
  tooDeep _ := by simp
  callTooDeep _ _ := by simp

/-! ## Texts -/

/-- **Parsed trees never fail to resolve.**  Every name in the tree of a text is
found in its role, and every call has the number of arguments of its function, so
that evaluation either gives a value or fails by the rule of a node that rejects
the values of its operands.  No text fails for an unknown function.  The registry
may be any. -/
theorem resolves_of_parse :
    (∀ e, registry.parse limit source = .ok e →
      (∀ node ∈ e.nodes, registry.ResolvesAt node) ∧
      ((∃ value, registry.evaluate e = .ok value) ∨
        ∃ node ∈ e.nodes, ∃ name cause, registry.Rejects node name cause ∧
          registry.evaluate e = .error (.invalidArgument name cause))) ∧
    ∀ found span snippet,
      registry.parse limit source ≠ .error (.unexpected found .knownFunction span snippet) := by
  constructor
  · intro e hparse
    obtain ⟨used, _, hderives⟩ := (reads_of_parse hparse).1.derives
    have hresolves : registry.Resolves e := hderives.resolves
    exact ⟨hresolves, settles_evaluate hresolves⟩
  · intro found span snippet hparse
    exact explained_of_parse explains_recognized all_recognizes_ofText hparse found span snippet rfl

/-- A tree whose factorial is rejected. -/
theorem resolves_of_parse_factorial :
    ∃ e, Registry.standard.parse 4 "MAX(1, 2.5)! + 1".toList = .ok e ∧
      (∀ node ∈ e.nodes, Registry.standard.ResolvesAt node) ∧
      ∃ node ∈ e.nodes, ∃ name cause, Registry.standard.Rejects node name cause ∧
        Registry.standard.evaluate e = .error (.invalidArgument name cause) := by
  let tree : Expr := .binary
    (.postfixed (.call "MAX".toList [.number (.ofInt 1), .number (.ofRatio false (5 * unitsPerOne) 2)])
      "!".toList)
    "+".toList (.number (.ofInt 1))
  have hparse : Registry.standard.parse 4 "MAX(1, 2.5)! + 1".toList = .ok tree := by
    decide +kernel
  have hfails : (Registry.standard.evaluate tree).isOk = false := by
    decide +kernel
  obtain ⟨hresolves, ⟨value, hvalue⟩ | hrejects⟩ := Registry.resolves_of_parse.1 tree hparse
  · rw [hvalue] at hfails
    exact absurd hfails (by simp [Except.isOk, Except.toBool])
  · exact ⟨tree, hparse, hresolves, hrejects⟩

end Registry

end Reckoner
