import Reckoner.Proofs.Evaluation.Resolution
import Reckoner.Proofs.Lexer.Splitting
import Reckoner.Proofs.Parser.Grammar

/-!
# Rendered trees are split into their tokens

The text of a tree has parentheses around every operation.  `Expr.grouped` is the
list of tokens that it should be split into, and `splits_render` says that it is,
if every token of the tree is one that the lexer makes (`Registry.Lexical`), every
name resolves, and the registry is `Renderable`.

The induction goes through the tree and carries what stands behind it: a number
ends before what follows only if that does not go on with a numeral.  Blanks and
parentheses never do; a postfix operator might, and therefore must not begin with
a point or an underscore.  A symbol in front of its operand is told from it
because symbols hold neither letters nor digits.
-/

namespace Reckoner

/-! ## Tokens with their parentheses -/

namespace Expr

mutual

/-- The tokens of a tree with parentheses around every operation. -/
def grouped : Expr → List Token
  | number value => [.number value]
  | binary left op right =>
    .leftParen :: (left.grouped ++ .operator op :: (right.grouped ++ [.rightParen]))
  | prefixed op operand => .leftParen :: .operator op :: (operand.grouped ++ [.rightParen])
  | postfixed operand op => .leftParen :: (operand.grouped ++ [.operator op, .rightParen])
  | call name args => .function name :: .leftParen :: (groupedAll args ++ [.rightParen])

/-- The tokens of trees with commas between them. -/
def groupedAll : List Expr → List Token
  | [] => []
  | [e] => e.grouped
  | e :: es => e.grouped ++ .comma :: groupedAll es

end

end Expr

/-! ## Registries whose trees can be rendered -/

/-- What a registry must keep to so that the text of a tree is read as the tree. -/
structure Registry.Renderable (registry : Registry) : Prop where
  level_nonneg : ∀ operator ∈ registry.binary, 0 ≤ operator.precedence.level
  /-- A name that begins with no letter holds neither letters nor digits. -/
  symbol_apart : ∀ name ∈ registry.operatorNames, name.head?.any isLetter = false →
    ∀ c ∈ name, isLetter c = false ∧ c.isDigit = false
  /-- A postfix operator does not go on with a number. -/
  postfixed_apart : ∀ name ∈ registry.names (.unary .postfixed),
    name.head? ≠ some '.' ∧ name.head? ≠ some '_'

/-- The tokens that the lexer makes of a text, by what the text is made of. -/
inductive Registry.Lexical (registry : Registry) : Token → Prop
  | number {units : Nat} {hunits : Representable units} :
      Lexical registry (.number (.finite false units hunits))
  | operatorWord {word : Text} (hsome : word ≠ []) (hletters : ∀ c ∈ word, isLetter c = true)
      (hoperator : registry.isOperator word = true) : Lexical registry (.operator word)
  | functionWord {word : Text} (hsome : word ≠ []) (hletters : ∀ c ∈ word, isLetter c = true)
      (hoperator : registry.isOperator word = false)
      (hfunction : (registry.findFunction? word).isSome = true) : Lexical registry (.function word)
  | symbol {first : Char} {rest : Text} (hname : first :: rest ∈ registry.operatorNames)
      (hletter : isLetter first = false) : Lexical registry (.operator (first :: rest))
  | leftParen : Lexical registry .leftParen
  | rightParen : Lexical registry .rightParen
  | comma : Lexical registry .comma

theorem Scan.lexical {registry : Registry} (hreach : registry.Reachable) {rest text : Text}
    {token : Token} (hscan : Scan registry rest token text) (hmore : token ≠ .endOfInput) :
    registry.Lexical token := by
  have hsome := hscan.text_ne_nil hreach hmore
  have hall : ∀ c ∈ rest.takeWhile isLetter, isLetter c = true :=
    List.all_eq_true.mp List.all_takeWhile
  cases hscan with
  | ended => exact absurd rfl hmore
  | numeral _ hvalue hfinite =>
      subst hvalue
      obtain ⟨units, hunits, hvalue⟩ := Number.exists_of_isFinite_ofRatio hfinite
      rw [Decimal.toNumber, hvalue]
      exact .number
  | operatorWord _ hword hoperator => exact .operatorWord hsome (hword ▸ hall) hoperator
  | functionWord _ hword hoperator hfunction =>
      exact .functionWord hsome (hword ▸ hall) hoperator hfunction
  | leftParen => exact .leftParen
  | rightParen => exact .rightParen
  | comma => exact .comma
  | symbol _ hletter _ hfind =>
      obtain ⟨hname, hbegins, _⟩ := (Registry.find?_identifiers_eq_some_iff hreach).mp hfind
      obtain ⟨first, later, rfl⟩ := List.exists_cons_of_ne_nil hsome
      obtain ⟨rfl, _⟩ := List.cons_prefix_cons.mp hbegins
      exact .symbol hname hletter

/-- Every lexeme of a text is one that the lexer makes. -/
theorem Cursor.Lexes.lexical {registry : Registry} (hreach : registry.Reachable) {cursor : Cursor}
    {lexemes : List Lexeme} (hlexes : Cursor.Lexes registry cursor lexemes) :
    ∀ lexeme ∈ lexemes, registry.Lexical lexeme.token := by
  induction hlexes with
  | ended => simp
  | lexeme hnext hmore _ ih =>
      obtain ⟨text, hscan, _, _⟩ := Cursor.next_eq_ok_iff.mp hnext
      exact List.forall_mem_cons.mpr ⟨hscan.lexical hreach hmore, ih⟩

namespace Registry

variable {registry : Registry} {op later : Text} {tokens : List Token} {c : Char}

/-! ## Operators in a text -/

theorem endsSymbols_of_blank (hreach : registry.Reachable) (hblank : isBlank c = true) :
    registry.EndsSymbols c := by
  intro first rest hname _ hc
  simp [((class_of_symbol hreach hname).1 c hc).1] at hblank

theorem endsSymbols_of_punctuation (hreach : registry.Reachable)
    (hpunctuation : isPunctuation c = true) : registry.EndsSymbols c := by
  intro first rest hname _ hc
  simp [((class_of_symbol hreach hname).1 c hc).2] at hpunctuation

theorem endsSymbols_of_letter (hrender : registry.Renderable) (hletter : isLetter c = true) :
    registry.EndsSymbols c := by
  intro first rest hname hfirst hc
  simp [(hrender.symbol_apart _ hname hfirst c hc).1] at hletter

theorem endsSymbols_of_digit (hrender : registry.Renderable) (hdigit : c.isDigit = true) :
    registry.EndsSymbols c := by
  intro first rest hname hfirst hc
  simp [(hrender.symbol_apart _ hname hfirst c hc).2] at hdigit

/-- An operator ends before a character that is neither a letter nor in a symbol. -/
theorem splits_operator (hreach : registry.Reachable) (hop : registry.Lexical (.operator op))
    (hletter : isLetter c = false) (hends : registry.EndsSymbols c)
    (hlater : registry.Splits (c :: later) tokens) :
    registry.Splits (op ++ c :: later) (.operator op :: tokens) := by
  cases hop with
  | operatorWord hsome hletters hoperator =>
      exact splits_operatorWord hsome hletters hoperator (by simpa [EndsWord] using hletter) hlater
  | symbol hname hfirst => exact splits_symbol hreach hname hfirst hends hlater

theorem splits_operator_blank (hreach : registry.Reachable)
    (hop : registry.Lexical (.operator op)) (hlater : registry.Splits later tokens) :
    registry.Splits (op ++ ' ' :: later) (.operator op :: tokens) :=
  splits_operator hreach hop rfl (endsSymbols_of_blank hreach rfl) (splits_blank rfl hlater)

theorem endsNumeral_cons {c : Char} {rest : Text} (hdigit : c.isDigit = false) (hpoint : c ≠ '.')
    (hunder : c ≠ '_') (hcomma : c ≠ ',') : EndsNumeral (c :: rest) := by
  intro hasPoint hasSeparator
  simp [takeNumeral, hdigit, hpoint, hunder, hcomma]

/-- A comma before a blank separates no digits. -/
theorem endsNumeral_comma_blank {rest : Text} : EndsNumeral (',' :: ' ' :: rest) := by
  have hdigits : groupsDigits (' ' :: rest) = false := by
    rcases rest with _ | ⟨_, _ | ⟨_, _⟩⟩ <;> rfl
  intro hasPoint hasSeparator
  simp [takeNumeral, hdigits]

/-- A postfix operator does not go on with a numeral before it. -/
theorem endsNumeral_postfixed (hreach : registry.Reachable) (hrender : registry.Renderable)
    (hop : registry.Lexical (.operator op))
    (hfind : (registry.findUnary? .postfixed op).isSome = true) : EndsNumeral (op ++ later) := by
  cases hop with
  | operatorWord hsome hletters _ =>
      obtain ⟨c, rest, rfl⟩ := List.exists_cons_of_ne_nil hsome
      have hletter := hletters c List.mem_cons_self
      have hother : ∀ d, isLetter d = false → c ≠ d := by
        rintro d hd rfl
        simp [hletter] at hd
      exact endsNumeral_cons (isDigit_of_isLetter hletter) (hother _ rfl) (hother _ rfl)
        (hother _ rfl)
  | @symbol first rest hname _ =>
      -- the role of a postfix operator has the lower case of the symbol
      obtain ⟨hclass, hdigit⟩ := class_of_symbol hreach hname
      have hcomma : first ≠ ',' := by
        rintro rfl
        exact absurd (hclass ',' List.mem_cons_self).2 (by decide)
      have hlower := (findUnary?_isSome_iff hreach).mp hfind
      refine endsNumeral_cons hdigit ?_ ?_ hcomma
      · rintro rfl
        exact (hrender.postfixed_apart _ hlower).1 rfl
      · rintro rfl
        exact (hrender.postfixed_apart _ hlower).2 rfl

/-! ## Trees -/

theorem endsWithLetter_of_letters (hsome : op ≠ []) (hletters : ∀ c ∈ op, isLetter c = true) :
    Expr.endsWithLetter op = true := by
  simp only [Expr.endsWithLetter, List.getLast?_eq_some_getLast hsome]
  exact hletters _ (List.getLast_mem hsome)

theorem endsWithLetter_of_symbol (hrender : registry.Renderable) {first : Char} {rest : Text}
    (hname : first :: rest ∈ registry.operatorNames) (hletter : isLetter first = false) :
    Expr.endsWithLetter (first :: rest) = false := by
  simp only [Expr.endsWithLetter, List.getLast?_eq_some_getLast (List.cons_ne_nil first rest)]
  exact (hrender.symbol_apart _ hname hletter _ (List.getLast_mem _)).1

/-- The text of a tree begins with a character that no symbol goes on with. -/
theorem render_eq_cons (hreach : registry.Reachable) (hrender : registry.Renderable) {e : Expr}
    (hlexical : ∀ token ∈ e.tokens, registry.Lexical token) :
    ∃ c rest, e.render = c :: rest ∧ registry.EndsSymbols c := by
  have hopen := endsSymbols_of_punctuation (c := '(') hreach rfl
  cases e with
  | number value =>
      cases hlexical (.number value) (by simp) with
      | number =>
          obtain ⟨c, rest, htext, hdigit⟩ := Number.isPlain_plain.exists_cons
          exact ⟨c, rest, htext, endsSymbols_of_digit hrender hdigit⟩
  | call name args =>
      cases hlexical (.function name) (by simp) with
      | functionWord hsome hletters _ _ =>
          obtain ⟨c, rest, rfl⟩ := List.exists_cons_of_ne_nil hsome
          exact ⟨c, _, rfl, endsSymbols_of_letter hrender (hletters c List.mem_cons_self)⟩
  | binary left op right => exact ⟨_, _, rfl, hopen⟩
  | prefixed op operand => exact ⟨_, _, rfl, hopen⟩
  | postfixed operand op => exact ⟨_, _, rfl, hopen⟩

/-- A prefix operator ends where its operand begins, behind a blank if it is a
word. -/
theorem splits_prefixed (hreach : registry.Reachable) (hrender : registry.Renderable)
    (hop : registry.Lexical (.operator op)) {rest : Text} (hends : registry.EndsSymbols c)
    (hlater : registry.Splits (c :: rest) tokens) :
    registry.Splits (op ++ ((if Expr.endsWithLetter op then [' '] else []) ++ c :: rest))
      (.operator op :: tokens) := by
  cases hop with
  | operatorWord hsome hletters hoperator =>
      rw [endsWithLetter_of_letters hsome hletters, if_pos rfl]
      exact splits_operator_blank hreach (.operatorWord hsome hletters hoperator) hlater
  | symbol hname hletter =>
      rw [endsWithLetter_of_symbol hrender hname hletter, if_neg Bool.false_ne_true]
      exact splits_symbol hreach hname hletter hends hlater

mutual

/-- **The text of a tree is split into its tokens with their parentheses.** -/
theorem splits_render (hreach : registry.Reachable) (hrender : registry.Renderable) :
    ∀ {e : Expr} {later : Text} {tokens : List Token},
      (∀ token ∈ e.tokens, registry.Lexical token) → registry.Resolves e → EndsNumeral later →
      registry.Splits later tokens → registry.Splits (e.render ++ later) (e.grouped ++ tokens)
  | .number value, later, tokens, hlexical, _, hends, hlater => by
      cases hlexical (.number value) (by simp) with
      | number => exact splits_number Number.isPlain_plain Number.toNumber_plain rfl hends hlater
  | .binary left op right, later, tokens, hlexical, hresolves, _, hlater => by
      simp only [Expr.tokens, List.forall_mem_append, List.forall_mem_cons] at hlexical
      obtain ⟨hleft, hop, hright⟩ := hlexical
      obtain ⟨hleftResolves, hrightResolves, _⟩ := Expr.all_binary.mp hresolves
      simp only [Expr.render, Expr.grouped, List.cons_append, List.append_assoc, List.nil_append]
      refine splits_leftParen (splits_render hreach hrender hleft hleftResolves ?_ ?_)
      · exact endsNumeral_cons rfl (by decide) (by decide) (by decide)
      refine splits_blank rfl (splits_operator_blank hreach hop ?_)
      refine splits_render hreach hrender hright hrightResolves ?_ (splits_rightParen hlater)
      exact endsNumeral_cons rfl (by decide) (by decide) (by decide)
  | .prefixed op operand, later, tokens, hlexical, hresolves, _, hlater => by
      obtain ⟨hop, hoperand⟩ := List.forall_mem_cons.mp hlexical
      obtain ⟨hoperandResolves, _⟩ := Expr.all_prefixed.mp hresolves
      simp only [Expr.render, Expr.grouped, List.cons_append, List.append_assoc, List.nil_append]
      have hinner := splits_render hreach hrender hoperand hoperandResolves
        (endsNumeral_cons rfl (by decide) (by decide) (by decide)) (splits_rightParen hlater)
      obtain ⟨c, rest, htext, hends⟩ := render_eq_cons hreach hrender hoperand
      rw [htext, List.cons_append] at hinner ⊢
      exact splits_leftParen (splits_prefixed hreach hrender hop hends hinner)
  | .postfixed operand op, later, tokens, hlexical, hresolves, _, hlater => by
      simp only [Expr.tokens, List.forall_mem_append, List.forall_mem_singleton] at hlexical
      obtain ⟨hoperand, hop⟩ := hlexical
      obtain ⟨hoperandResolves, hfind⟩ := Expr.all_postfixed.mp hresolves
      simp only [Expr.render, Expr.grouped, List.cons_append, List.append_assoc, List.nil_append]
      refine splits_leftParen (splits_render hreach hrender hoperand hoperandResolves ?_ ?_)
      · exact endsNumeral_postfixed hreach hrender hop hfind
      exact splits_operator hreach hop rfl (endsSymbols_of_punctuation hreach rfl)
        (splits_rightParen hlater)
  | .call name args, later, tokens, hlexical, hresolves, _, hlater => by
      obtain ⟨hname, hargs⟩ := List.forall_mem_cons.mp hlexical
      obtain ⟨hargsResolve, _⟩ := Expr.all_call.mp hresolves
      simp only [Expr.render, Expr.grouped, List.cons_append, List.append_assoc, List.nil_append]
      -- the name ends before the parenthesis, which is no letter
      cases hname with
      | functionWord hsome hletters hoperator hfunction =>
          refine splits_functionWord hsome hletters hoperator hfunction ?_ (splits_leftParen ?_)
          · simpa [EndsWord] using isLetter_of_isPunctuation (c := '(') rfl
          exact splits_renderAll hreach hrender hargs hargsResolve (splits_rightParen hlater)

theorem splits_renderAll (hreach : registry.Reachable) (hrender : registry.Renderable) :
    ∀ {es : List Expr} {later : Text} {tokens : List Token},
      (∀ token ∈ Expr.tokensAll es, registry.Lexical token) → (∀ e ∈ es, registry.Resolves e) →
      registry.Splits (')' :: later) tokens →
      registry.Splits (Expr.renderAll es ++ ')' :: later) (Expr.groupedAll es ++ tokens)
  | [], later, tokens, _, _, hlater => hlater
  | [e], later, tokens, hlexical, hresolves, hlater => by
      simp only [Expr.tokensAll, List.append_nil] at hlexical
      simp only [Expr.renderAll, Expr.groupedAll]
      refine splits_render hreach hrender hlexical (hresolves e List.mem_cons_self) ?_ hlater
      exact endsNumeral_cons rfl (by decide) (by decide) (by decide)
  | e :: second :: es, later, tokens, hlexical, hresolves, hlater => by
      rw [Expr.tokensAll, List.forall_mem_append] at hlexical
      obtain ⟨hfirst, hothers⟩ := hlexical
      obtain ⟨hfirstResolves, hothersResolve⟩ := List.forall_mem_cons.mp hresolves
      simp only [Expr.renderAll, Expr.groupedAll, List.cons_append, List.append_assoc]
      refine splits_render hreach hrender hfirst hfirstResolves endsNumeral_comma_blank ?_
      refine splits_comma (splits_blank rfl ?_)
      exact splits_renderAll hreach hrender hothers hothersResolve hlater

end

end Registry

end Reckoner
