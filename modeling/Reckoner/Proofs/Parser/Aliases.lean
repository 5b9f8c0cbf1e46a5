import Reckoner.Expr.Equality
import Reckoner.Proofs.Evaluation.Resolution
import Reckoner.Proofs.Lexer.OperatorNames
import Reckoner.Proofs.Parser.Interchange
import Reckoner.Proofs.Parser.Parentheses
import Reckoner.Proofs.Parser.Spacing

/-!
# Aliases are interchangeable

In a text that is an expression, the text of an operator is replaced by another name, with
blanks around it.  If the new name stands for the same definition in the role that the parser
found the operator in, then the tree is the old one with the new name at that place, and it
has the same value (`Registry.parse_alias`).

* Which node an operator became is told by the number of operators, functions and numbers in
  front of it: a tree has its tokens in the order of the text (`Expr.NameAt`).
* The new text is split into the old tokens with one name exchanged
  (`splits_replace_operator`).
* The renamed tree is read from some tokens that differ from the old ones in names only
  (`Reads.interchange`), and a tree fixes the names of its tokens, so these are the tokens of
  the new text (`eq_of_alike_of_filter_eq`).

An operator is looked for among the postfix operators before it is among the binary ones.
Therefore a name that is also registered as a postfix operator cannot take the place of a
binary operator: the parser would apply it to the left operand.
-/

namespace Reckoner

/-! ## Names in a tree -/

/-- The token that a name in some role is written as. -/
def Role.token : Role → Text → Token
  | .binary, name => .operator name
  | .unary _, name => .operator name
  | .function, name => .function name

namespace Expr

/-- The token that `index` others stand before is the name of a node in some role, and
`renamed` is the tree with another name for this node only. -/
inductive NameAt : Expr → (index : Nat) → Role → (name : Text) → (renamed : Text → Expr) → Prop
  | binary {left right : Expr} {op : Text} :
      NameAt (.binary left op right) left.tokens.length .binary op
        (fun other => .binary left other right)
  | left {left right : Expr} {op name : Text} {index : Nat} {role : Role} {renamed : Text → Expr}
      (hleft : NameAt left index role name renamed) :
      NameAt (.binary left op right) index role name (fun other => .binary (renamed other) op right)
  | right {left right : Expr} {op name : Text} {index : Nat} {role : Role} {renamed : Text → Expr}
      (hright : NameAt right index role name renamed) :
      NameAt (.binary left op right) (left.tokens.length + 1 + index) role name
        (fun other => .binary left op (renamed other))
  | prefixed {operand : Expr} {op : Text} :
      NameAt (.prefixed op operand) 0 (.unary .prefixed) op (fun other => .prefixed other operand)
  | prefixedOperand {operand : Expr} {op name : Text} {index : Nat} {role : Role}
      {renamed : Text → Expr} (hoperand : NameAt operand index role name renamed) :
      NameAt (.prefixed op operand) (index + 1) role name
        (fun other => .prefixed op (renamed other))
  | postfixed {operand : Expr} {op : Text} :
      NameAt (.postfixed operand op) operand.tokens.length (.unary .postfixed) op
        (fun other => .postfixed operand other)
  | postfixedOperand {operand : Expr} {op name : Text} {index : Nat} {role : Role}
      {renamed : Text → Expr} (hoperand : NameAt operand index role name renamed) :
      NameAt (.postfixed operand op) index role name (fun other => .postfixed (renamed other) op)
  | call {name : Text} {args : List Expr} :
      NameAt (.call name args) 0 .function name (fun other => .call other args)
  | argument {before after : List Expr} {arg : Expr} {f name : Text} {index : Nat} {role : Role}
      {renamed : Text → Expr} (harg : NameAt arg index role name renamed) :
      NameAt (.call f (before ++ arg :: after)) ((tokensAll before).length + index + 1) role name
        (fun other => .call f (before ++ renamed other :: after))

theorem tokensAll_append (first later : List Expr) :
    tokensAll (first ++ later) = tokensAll first ++ tokensAll later := by
  induction first with
  | nil => rfl
  | cons e es ih => rw [List.cons_append, tokensAll, ih, tokensAll, List.append_assoc]

variable {e : Expr} {index : Nat} {role : Role} {name other : Text} {renamed : Text → Expr}

mutual

/-- Every operator among the tokens of a tree is the name of one of its operations. -/
theorem exists_nameAt : ∀ {e : Expr} {index : Nat}, e.tokens[index]? = some (.operator name) →
    ∃ role renamed, role ≠ .function ∧ e.NameAt index role name renamed
  | .number value, index, htoken => by
      cases index <;> simp at htoken
  | .binary left op right, index, htoken => by
      rw [tokens, List.getElem?_append] at htoken
      split at htoken
      · obtain ⟨role, renamed, hrole, hat⟩ := exists_nameAt htoken
        exact ⟨role, _, hrole, hat.left⟩
      · rcases hindex : index - left.tokens.length with _ | behind
        · rw [hindex] at htoken
          obtain rfl : op = name := by simpa using htoken
          obtain rfl : index = left.tokens.length := by omega
          exact ⟨.binary, _, by simp, .binary⟩
        · rw [hindex, List.getElem?_cons_succ] at htoken
          obtain rfl : index = left.tokens.length + 1 + behind := by omega
          obtain ⟨role, renamed, hrole, hat⟩ := exists_nameAt htoken
          exact ⟨role, _, hrole, hat.right⟩
  | .prefixed op operand, index, htoken => by
      rw [tokens] at htoken
      cases index with
      | zero =>
          obtain rfl : op = name := by simpa using htoken
          exact ⟨.unary .prefixed, _, by simp, .prefixed⟩
      | succ index =>
          rw [List.getElem?_cons_succ] at htoken
          obtain ⟨role, renamed, hrole, hat⟩ := exists_nameAt htoken
          exact ⟨role, _, hrole, hat.prefixedOperand⟩
  | .postfixed operand op, index, htoken => by
      rw [tokens, List.getElem?_append] at htoken
      split at htoken
      · obtain ⟨role, renamed, hrole, hat⟩ := exists_nameAt htoken
        exact ⟨role, _, hrole, hat.postfixedOperand⟩
      · obtain ⟨hindex, heq⟩ := List.getElem?_eq_some_iff.mp htoken
        obtain rfl : index = operand.tokens.length := by
          rw [List.length_singleton] at hindex
          omega
        obtain rfl : op = name := by simpa using heq
        exact ⟨.unary .postfixed, _, by simp, .postfixed⟩
  | .call f args, index, htoken => by
      rw [tokens] at htoken
      cases index with
      | zero => simp at htoken
      | succ index =>
          rw [List.getElem?_cons_succ] at htoken
          obtain ⟨before, arg, after, behind, rfl, rfl, role, renamed, hrole, hat⟩ :=
            exists_nameAt_argument htoken
          exact ⟨role, _, hrole, hat.argument⟩

theorem exists_nameAt_argument : ∀ {args : List Expr} {index : Nat},
    (tokensAll args)[index]? = some (.operator name) →
      ∃ before arg after behind, args = before ++ arg :: after ∧
        index = (tokensAll before).length + behind ∧
        ∃ role renamed, role ≠ .function ∧ arg.NameAt behind role name renamed
  | [], _, htoken => by simp at htoken
  | arg :: args, index, htoken => by
      rw [tokensAll, List.getElem?_append] at htoken
      split at htoken
      · exact ⟨[], arg, args, index, rfl, by simp, exists_nameAt htoken⟩
      · obtain ⟨before, found, after, behind, rfl, hindex, hat⟩ := exists_nameAt_argument htoken
        refine ⟨arg :: before, found, after, behind, rfl, ?_, hat⟩
        rw [tokensAll, List.length_append]
        omega

end

namespace NameAt

/-- The name is found in its role if all names of the tree are. -/
theorem isSome_find? {registry : Registry} (hat : e.NameAt index role name renamed)
    (hresolves : registry.Resolves e) : (registry.find? role name).isSome = true := by
  induction hat with
  | binary =>
      obtain ⟨_, _, hname⟩ := all_binary.mp hresolves
      rwa [Registry.find?, Option.isSome_map]
  | left _ ih => exact ih (all_binary.mp hresolves).1
  | right _ ih => exact ih (all_binary.mp hresolves).2.1
  | prefixed =>
      obtain ⟨_, hname⟩ := all_prefixed.mp hresolves
      rwa [Registry.find?, Option.isSome_map]
  | prefixedOperand _ ih => exact ih (all_prefixed.mp hresolves).1
  | postfixed =>
      obtain ⟨_, hname⟩ := all_postfixed.mp hresolves
      rwa [Registry.find?, Option.isSome_map]
  | postfixedOperand _ ih => exact ih (all_postfixed.mp hresolves).1
  | call =>
      obtain ⟨_, f, hfind, _⟩ := all_call.mp hresolves
      rw [Registry.find?, hfind]
      rfl
  | argument _ ih => exact ih ((all_call.mp hresolves).1 _ (by simp))

theorem renames {names : Role → Text → Text → Prop} (hat : e.NameAt index role name renamed)
    (hrefl : ∀ role name, names role name name) (hname : names role name other) :
    e.Renames names (renamed other) := by
  have hsame := Renames.refl hrefl
  induction hat with
  | binary => exact .binary (hsame _) hname (hsame _)
  | left _ ih => exact .binary (ih hname) (hrefl _ _) (hsame _)
  | right _ ih => exact .binary (hsame _) (hrefl _ _) (ih hname)
  | prefixed => exact .prefixed hname (hsame _)
  | prefixedOperand _ ih => exact .prefixed (hrefl _ _) (ih hname)
  | postfixed => exact .postfixed (hsame _) hname
  | postfixedOperand _ ih => exact .postfixed (ih hname) (hrefl _ _)
  | call => exact .call hname (Renames.refl_all hrefl _)
  | argument _ ih =>
      have hothers := Renames.refl_all hrefl
      exact .call (hrefl _ _) (List.rel_append (hothers _) (.cons (ih hname) (hothers _)))

/-- The tree with its own name is the tree itself. -/
theorem renamed_name (hat : e.NameAt index role name renamed) : renamed name = e := by
  induction hat with
  | binary | prefixed | postfixed | call => rfl
  | left _ ih | right _ ih | prefixedOperand _ ih | postfixedOperand _ ih | argument _ ih =>
      simp only [ih]

/-- Of the tokens of the tree only the one at the place is another. -/
theorem exists_tokens (hat : e.NameAt index role name renamed) :
    ∃ before after, before.length = index ∧
      ∀ other, (renamed other).tokens = before ++ role.token other :: after := by
  induction hat with
  | @binary left right op => exact ⟨left.tokens, right.tokens, rfl, fun _ => rfl⟩
  | @left left right op _ _ _ _ _ ih =>
      obtain ⟨before, after, hlength, htokens⟩ := ih
      refine ⟨before, after ++ .operator op :: right.tokens, hlength, fun other => ?_⟩
      rw [tokens, htokens, List.append_assoc, List.cons_append]
  | @right left right op _ _ _ _ _ ih =>
      obtain ⟨before, after, hlength, htokens⟩ := ih
      refine ⟨left.tokens ++ .operator op :: before, after, ?_, fun other => ?_⟩
      · rw [List.length_append, List.length_cons, hlength]
        omega
      · rw [tokens, htokens, List.append_assoc, List.cons_append]
  | @prefixed operand op => exact ⟨[], operand.tokens, rfl, fun _ => rfl⟩
  | @prefixedOperand operand op _ _ _ _ _ ih =>
      obtain ⟨before, after, hlength, htokens⟩ := ih
      refine ⟨.operator op :: before, after, by rw [List.length_cons, hlength], fun other => ?_⟩
      rw [tokens, htokens, List.cons_append]
  | @postfixed operand op => exact ⟨operand.tokens, [], rfl, fun _ => rfl⟩
  | @postfixedOperand operand op _ _ _ _ _ ih =>
      obtain ⟨before, after, hlength, htokens⟩ := ih
      refine ⟨before, after ++ [.operator op], hlength, fun other => ?_⟩
      rw [tokens, htokens, List.append_assoc, List.cons_append]
  | @call name args => exact ⟨[], tokensAll args, rfl, fun _ => rfl⟩
  | @argument first others arg f _ _ _ _ _ ih =>
      obtain ⟨before, after, hlength, htokens⟩ := ih
      refine ⟨.function f :: (tokensAll first ++ before), after ++ tokensAll others, ?_,
        fun other => ?_⟩
      · rw [List.length_cons, List.length_append, hlength]
      · rw [tokens, tokensAll_append, tokensAll, htokens]
        simp

end NameAt

mutual

/-- Other names do not change the height. -/
theorem Renames.depth_eq {names : Role → Text → Text → Prop} :
    ∀ {e e' : Expr}, e.Renames names e' → e.depth = e'.depth
  | .number _, _, .number _ => rfl
  | .binary _ _ _, _, .binary hleft _ hright => by
      rw [depth, depth, Renames.depth_eq hleft, Renames.depth_eq hright]
  | .prefixed _ _, _, .prefixed _ hoperand => by rw [depth, depth, Renames.depth_eq hoperand]
  | .postfixed _ _, _, .postfixed hoperand _ => by rw [depth, depth, Renames.depth_eq hoperand]
  | .call _ _, _, .call _ hargs => by rw [depth, depth, Renames.maxDepth_eq hargs]

theorem Renames.maxDepth_eq {names : Role → Text → Text → Prop} :
    ∀ {es es' : List Expr}, List.Forall₂ (Renames names) es es' → maxDepth es = maxDepth es'
  | [], _, .nil => rfl
  | _ :: _, _, .cons hfirst hothers => by
      rw [maxDepth, maxDepth, Renames.depth_eq hfirst, Renames.maxDepth_eq hothers]

end

end Expr

/-! ## Tokens -/

/-- Tokens of one kind each are the same if the contents of trees among them are. -/
theorem Token.eq_of_alike_of_filter_eq {ts us vs : List Token}
    (hus : List.Forall₂ (Token.Alike fun _ _ => True) ts us)
    (hvs : List.Forall₂ (Token.Alike fun _ _ => True) ts vs)
    (hcontents : us.filter isContent = vs.filter isContent) : us = vs := by
  induction hus generalizing vs with
  | nil =>
      cases hvs
      rfl
  | cons hfirst _ ih =>
      cases hvs with
      | cons hother hothers =>
          cases hfirst with
          | number | operator | function =>
              cases hother
              obtain ⟨hsame, hlater⟩ := List.cons.inj hcontents
              rw [hsame, ih hothers hlater]
          | leftParen | rightParen | comma | endOfInput =>
              cases hother
              rw [ih hothers hcontents]

namespace Registry

variable {registry : Registry} {limit : Nat} {source name other : Text} {e : Expr}
  {before after : List Lexeme} {span : Span} {role : Role}

/-! ## Texts -/

theorem isOperator_of_find? (hreach : registry.Reachable) (hrole : role ≠ .function)
    (hfind : (registry.find? role name).isSome = true) : registry.isOperator name = true := by
  have hname := (find?_isSome_iff hreach).mp hfind
  rw [isOperator_iff hreach, mem_operatorNames]
  cases role with
  | binary => exact .inl hname
  | unary fixity => exact .inr ⟨fixity, hname⟩
  | function => exact absurd rfl hrole

/-- An operator between blanks can stand in the place of a lexeme. -/
theorem splits_replace_operator (hreach : registry.Reachable) {old : Lexeme}
    (hsource : registry.Tokenizes source (before ++ old :: after))
    (hoperator : registry.isOperator other = true) :
    registry.Splits (source.replace old.span (' ' :: (other ++ [' '])))
      (before.map (·.token) ++ .operator other :: after.map (·.token)) := by
  have hdelimited := @splits_replace_delimited registry hreach source (other ++ [' ']) before after
    old [.operator other] ' ' hsource (.blank rfl)
  refine hdelimited fun {behind later} hbehind => ?_
  have hname := (splitsBefore_of_lexes hreach (tokenizes_of_isOperator hreach hoperator))
    |>.before_delimiter hreach (.blank (c := ' ') rfl) behind
  have hsplits := splits_blank (c := ' ') rfl (hname.splits (splits_blank rfl hbehind))
  simpa [Cursor.start] using hsplits

/-! ## Trees -/

/-- Names that stand for one definition may be exchanged in its role. -/
theorem interchanges_of_mem (hreach : registry.Reachable) {definition : Definition}
    (hfind : registry.find? role name = some definition) (hother : lower other ∈ definition.names)
    (hnoPostfixed : role = .binary → registry.findUnary? .postfixed other = none) :
    registry.Interchanges role name other := by
  constructor
  case same =>
    obtain ⟨hmem, hrole, _⟩ := hreach.coherent.find?_eq_some_iff.mp hfind
    rw [hfind, hreach.coherent.find?_eq_some_iff.mpr ⟨hmem, hrole, hother⟩]
  case postfixed =>
    intro hbinary hfound
    rw [hnoPostfixed hbinary] at hfound
    exact nomatch hfound

/-- The tokens that are read as a tree with one name exchanged. -/
theorem reads_renamed {renamed : Text → Expr} {first later : List Token}
    (hreads : registry.Reads limit (.expression 0 e)
      ((first ++ .operator name :: later) ++ [.endOfInput]) [.endOfInput])
    (hat : e.NameAt (first.filter Token.isContent).length role name renamed)
    (hrole : role ≠ .function) (hother : registry.Interchanges role name other) :
    registry.Reads limit (.expression 0 (renamed other))
      ((first ++ .operator other :: later) ++ [.endOfInput]) [.endOfInput] := by
  have hrenames := hat.renames Interchanges.refl hother
  obtain ⟨used, halike, hreads'⟩ := hreads.interchange hrenames
  have htoken (name : Text) : role.token name = .operator name := by
    cases role with
    | binary | unary => rfl
    | function => exact absurd rfl hrole
  obtain ⟨before, after, hlength, htokens⟩ := hat.exists_tokens
  have hold := hreads.derives_append.tokens_expression
  have hnew := hreads'.derives_append.tokens_expression
  rw [← hat.renamed_name, htokens, htoken, List.filter_append] at hold
  obtain ⟨rfl, hlater⟩ := List.append_inj hold hlength
  obtain ⟨_, rfl⟩ := List.cons.inj hlater
  rw [htokens, htoken] at hnew
  have hexchanged : List.Forall₂ (Token.Alike fun _ _ => True) (first ++ .operator name :: later)
      (first ++ .operator other :: later) := by
    have hsame (tokens : List Token) : List.Forall₂ (Token.Alike fun _ _ => True) tokens tokens :=
      List.forall₂_same.mpr fun token _ => .refl (fun _ => trivial) token
    exact List.rel_append (hsame first) (.cons (.operator trivial) (hsame later))
  have hused : used = first ++ .operator other :: later := by
    refine Token.eq_of_alike_of_filter_eq halike hexchanged ?_
    rw [← hnew, List.filter_append]
    rfl
  rwa [← hused]

/-- **Aliases are interchangeable.**  Every operator of an expression became a node of its tree
in some role, and stands for a definition in this role.  Replace its text, between blanks, by
any name of this definition, in any case, which for a binary operator is no postfix operator.
The new text is read under the same limit as the tree with the new name for that node only.
Both trees have the same value, or the same error but for the exchanged name. -/
theorem parse_alias (hreach : registry.Reachable) (hparse : registry.parse limit source = .ok e)
    (hsource : registry.Tokenizes source (before ++ ⟨.operator name, span⟩ :: after)) :
    ∃ role definition renamed, role ≠ .function ∧
      e.NameAt ((before.map (·.token)).filter Token.isContent).length role name renamed ∧
      registry.find? role name = some definition ∧
      ∀ other, lower other ∈ definition.names →
        (role = .binary → registry.findUnary? .postfixed other = none) →
          registry.parse limit (source.replace span (' ' :: (other ++ [' ']))) =
              .ok (renamed other) ∧
            ResultAlike (EvalError.Alike fun x y => x = y ∨ x = name ∧ y = other) Eq
              (registry.evaluate e) (registry.evaluate (renamed other)) := by
  have hreads := reads_of_tokenizes hreach hparse hsource
  rw [List.map_append, List.map_cons] at hreads
  have htoken : e.tokens[((before.map (·.token)).filter Token.isContent).length]? =
      some (.operator name) := by
    rw [hreads.derives_append.tokens_expression, List.filter_append]
    simp [List.filter_cons]
  obtain ⟨role, renamed, hrole, hat⟩ := Expr.exists_nameAt htoken
  have hfound := hat.isSome_find? hreads.derives_append.resolves
  obtain ⟨definition, hfind⟩ := Option.isSome_iff_exists.mp hfound
  refine ⟨role, definition, renamed, hrole, hat, hfind, fun other hother hnoPostfixed => ?_⟩
  have hinterchanges := interchanges_of_mem hreach hfind hother hnoPostfixed
  constructor
  · have hoperator : registry.isOperator other = true := by
      refine isOperator_of_find? hreach hrole ?_
      rw [← hinterchanges.same]
      exact hfound
    have hdepth := (hat.renames Interchanges.refl hinterchanges).depth_eq
    refine parse_of_splits hreach (splits_replace_operator hreach hsource hoperator)
      (reads_renamed hreads hat hrole hinterchanges) ?_
    rw [← hdepth]
    exact (reads_of_parse hparse).2
  · have hrenames := @Expr.NameAt.renames _ _ _ _ other _
      (fun role x y => registry.Interchanges role x y ∧ (x = y ∨ x = name ∧ y = other)) hat
      (fun role x => ⟨.refl role x, .inl rfl⟩) ⟨hinterchanges, .inr ⟨rfl, rfl⟩⟩
    exact evaluate_of_renames (fun hname => hname.1.same) (fun hname => hname.2) hrenames

/-- A word for a symbol, in another case than it is registered in. -/
theorem parse_alias_mod :
    standard.parse 2 "10%4".toList =
        .ok (.binary (.number (.ofInt 10)) "%".toList (.number (.ofInt 4))) ∧
      standard.Tokenizes "10%4".toList
        ([⟨.number (.ofInt 10), ⟨0, 2⟩⟩] ++ ⟨.operator "%".toList, ⟨2, 3⟩⟩ ::
          [⟨.number (.ofInt 4), ⟨3, 4⟩⟩]) ∧
      standard.parse 2 "10 Mod 4".toList =
        .ok (.binary (.number (.ofInt 10)) "Mod".toList (.number (.ofInt 4))) ∧
      standard.evaluate (.binary (.number (.ofInt 10)) "Mod".toList (.number (.ofInt 4))) =
        .ok (.ofInt 2) := by
  have hparse : standard.parse 2 "10%4".toList =
      .ok (.binary (.number (.ofInt 10)) "%".toList (.number (.ofInt 4))) := by
    decide +kernel
  have hsource : standard.Tokenizes "10%4".toList
      ([⟨.number (.ofInt 10), ⟨0, 2⟩⟩] ++ ⟨.operator "%".toList, ⟨2, 3⟩⟩ ::
        [⟨.number (.ofInt 4), ⟨3, 4⟩⟩]) :=
    (LexemeStream.ofText_eq_iff reachable_standard).mp (by decide +kernel)
  have hvalue : standard.evaluate (.binary (.number (.ofInt 10)) "%".toList (.number (.ofInt 4))) =
      .ok (.ofInt 2) := by
    decide +kernel
  obtain ⟨role, definition, renamed, _, hat, hfind, hothers⟩ :=
    parse_alias reachable_standard hparse hsource
  -- the operator stands between two numbers, which have no names
  obtain ⟨rfl, hrenamed⟩ : role = .binary ∧ renamed "Mod".toList =
      .binary (.number (.ofInt 10)) "Mod".toList (.number (.ofInt 4)) := by
    generalize List.length _ = index at hat
    cases hat with
    | binary => exact ⟨rfl, rfl⟩
    | left hleft => exact nomatch hleft
    | right hright => exact nomatch hright
  have hnames : (standard.find? .binary "%".toList).map (·.names) =
      some ["%".toList, "mod".toList, "rem".toList] := by
    decide +kernel
  rw [hfind, Option.map_some, Option.some.injEq] at hnames
  have hmod : lower "Mod".toList ∈ definition.names := by
    rw [hnames]
    decide +kernel
  have hnoPostfixed : (standard.findUnary? .postfixed "Mod".toList).isNone = true := by
    decide +kernel
  obtain ⟨hparsed, hvalues⟩ :=
    hothers "Mod".toList hmod fun _ => Option.isNone_iff_eq_none.mp hnoPostfixed
  rw [hrenamed] at hparsed hvalues
  rw [hvalue] at hvalues
  have htext : Text.replace "10%4".toList ⟨2, 3⟩ (' ' :: ("Mod".toList ++ [' '])) =
      "10 Mod 4".toList := by
    decide +kernel
  rw [htext] at hparsed
  exact ⟨hparse, hsource, hparsed, hvalues.eq_ok⟩

end Registry

end Reckoner
