import Reckoner.Expr.Equality
import Reckoner.Proofs.Lexer.Rendering
import Reckoner.Proofs.Parser.Resolution
import Reckoner.Registry.Standard

/-!
# Rendering and parsing again

The text of a parsed tree is parsed as the same tree.  The lexer's part is
`splits_render`; the parser's part is that the tokens with their parentheses are
read greedily as the tree (`reads_grouped`).

Every operation stands in parentheses, so an operand ends where its tree ends: at
a closing parenthesis, at a comma, or at its own operator.  The last case is where
a reading could go on, if a binary operator were a postfix operator as well; in a
parsed tree none is (`Reads.apart`).

A pair of parentheses around an operation opens one expression, and a right or
prefixed operand opens one more, so nesting is at most twice the height.
-/

namespace Reckoner

theorem Expr.depth_pos (e : Expr) : 0 < e.depth := by
  cases e <;> simp only [depth] <;> omega

namespace Registry

variable {registry : Registry}

/-! ## Operators of parsed trees -/

/-- The name of a binary node is no postfix operator. -/
def ApartAt (registry : Registry) : Expr → Prop
  | .binary _ op _ => (registry.findUnary? .postfixed op).isSome = false
  | _ => True

/-- What the reading of a phrase tells of the binary operators in its trees. -/
def PhraseApart (registry : Registry) (ts : List Token) : Phrase → Prop
  | .expression _ e => e.All registry.ApartAt
  | .chain _ left e => (∀ token later, ts = token :: later → ¬ registry.IsPostfix token) →
      left.All registry.ApartAt → e.All registry.ApartAt
  | .primary e => e.All registry.ApartAt
  | .postfixes operand e => operand.All registry.ApartAt → e.All registry.ApartAt
  | .operand e => e.All registry.ApartAt
  | .arguments args => ∀ e ∈ args, e.All registry.ApartAt
  | .others args => ∀ e ∈ args, e.All registry.ApartAt

/-- The postfix operators behind an operand are all taken before a binary one is
looked for. -/
theorem Reads.apart {budget : Nat} {phrase : Phrase} {ts rest : List Token}
    (hreads : registry.Reads budget phrase ts rest) : registry.PhraseApart ts phrase := by
  induction hreads with
  | expression hleftReads _ hleft hchain =>
      refine hchain ?_ hleft
      rintro token later rfl
      exact hleftReads.stops
  | chainEnd => exact fun _ hleft => hleft
  | @chain budget minimum left right e op operator ts middle rest hfind hlevel hrightReads _ hright
      hchain =>
      intro hfirst hleft
      have hnot : ¬ (registry.findUnary? .postfixed op).isSome = true :=
        fun hpost => hfirst _ _ rfl ⟨op, rfl, hpost⟩
      refine hchain ?_ (Expr.all_binary.mpr ⟨hleft, hright, Bool.eq_false_iff.mpr hnot⟩)
      rintro token later rfl
      exact hrightReads.stops.1
  | primary _ _ hoperand hpostfixes => exact hpostfixes hoperand
  | postfixesEnd => exact id
  | postfixes _ _ hpostfixes =>
      exact fun hoperand => hpostfixes (Expr.all_postfixed.mpr ⟨hoperand, trivial⟩)
  | number => exact Expr.all_number.mpr trivial
  | group _ hinner => exact hinner
  | prefixed _ _ hoperand => exact Expr.all_prefixed.mpr ⟨hoperand, trivial⟩
  | call _ _ _ hargs => exact Expr.all_call.mpr ⟨hargs, trivial⟩
  | noArguments => exact fun _ h => absurd h List.not_mem_nil
  | arguments _ _ hfirst hothers => exact List.forall_mem_cons.mpr ⟨hfirst, hothers⟩
  | othersEnd => exact fun _ h => absurd h List.not_mem_nil
  | others _ _ hfirst hothers => exact List.forall_mem_cons.mpr ⟨hfirst, hothers⟩

/-! ## Reading the tokens with their parentheses -/

/-- An operand before a token that is no operator is a whole expression. -/
theorem reads_expression {budget : Nat} {minimum : Int} {e : Expr} {token : Token}
    {ts rest : List Token} (hoperand : registry.Reads budget (.operand e) ts (token :: rest))
    (hne : ∀ op, token ≠ .operator op) :
    registry.Reads (budget + 1) (.expression minimum e) ts (token :: rest) :=
  .expression (.primary hoperand (.postfixesEnd (not_isPostfix_of_ne hne)))
    (.chainEnd (not_isBinary_of_ne hne))

mutual

/-- **The tokens of a tree with their parentheses are read as the tree.** -/
theorem reads_grouped (hlevels : ∀ operator ∈ registry.binary, 0 ≤ operator.precedence.level) :
    ∀ {e : Expr} (budget : Nat), registry.Resolves e → e.All registry.ApartAt →
      2 * e.depth ≤ budget + 2 → ∀ (token : Token) (rest : List Token),
      registry.Reads budget (.operand e) (e.grouped ++ token :: rest) (token :: rest)
  | .number value, budget, _, _, _, token, rest => .number
  | .binary left op right, budget, hresolves, hapart, hbudget, token, rest => by
      obtain ⟨hleft, hright, hname⟩ := Expr.all_binary.mp hresolves
      obtain ⟨hleftApart, hrightApart, hop⟩ := Expr.all_binary.mp hapart
      obtain ⟨operator, hfind⟩ := Option.isSome_iff_exists.mp hname
      have hlevel := hlevels operator (findBinary?_mem hfind)
      have hdepth := left.depth_pos
      simp only [Expr.depth] at hbudget
      -- the parentheses take one from the budget and the right operand another one
      obtain ⟨budget, rfl⟩ : ∃ fewer, budget = fewer + 2 := ⟨budget - 2, by omega⟩
      simp only [Expr.grouped, List.cons_append, List.append_assoc, List.nil_append]
      -- the operator ends the left operand, since it is no postfix one
      have hnot : ¬ registry.IsPostfix (.operator op) := by
        rintro ⟨_, ⟨⟩, hpost⟩
        exact Bool.false_ne_true (hop.symm.trans hpost)
      have hleftReads := reads_grouped hlevels (budget + 1) hleft hleftApart (by omega)
      have hrightReads := reads_grouped hlevels budget hright hrightApart (by omega)
      refine .group (.expression (.primary (hleftReads _ _) (.postfixesEnd hnot)) ?_)
      refine .chain hfind hlevel (reads_expression (hrightReads _ _) (by simp)) (.chainEnd ?_)
      exact not_isBinary_of_ne (by simp)
  | .prefixed op operand, budget, hresolves, hapart, hbudget, token, rest => by
      obtain ⟨hoperand, hname⟩ := Expr.all_prefixed.mp hresolves
      obtain ⟨hoperandApart, _⟩ := Expr.all_prefixed.mp hapart
      obtain ⟨operator, hfind⟩ := Option.isSome_iff_exists.mp hname
      have hdepth := operand.depth_pos
      simp only [Expr.depth] at hbudget
      obtain ⟨budget, rfl⟩ : ∃ fewer, budget = fewer + 2 := ⟨budget - 2, by omega⟩
      simp only [Expr.grouped, List.cons_append, List.append_assoc, List.nil_append]
      have hreads := reads_grouped hlevels budget hoperand hoperandApart (by omega)
      refine .group (reads_expression (.prefixed hfind ?_) (by simp))
      exact reads_expression (hreads _ _) (by simp)
  | .postfixed operand op, budget, hresolves, hapart, hbudget, token, rest => by
      obtain ⟨hoperand, hfind⟩ := Expr.all_postfixed.mp hresolves
      obtain ⟨hoperandApart, _⟩ := Expr.all_postfixed.mp hapart
      have hdepth := operand.depth_pos
      simp only [Expr.depth] at hbudget
      obtain ⟨budget, rfl⟩ : ∃ fewer, budget = fewer + 1 := ⟨budget - 1, by omega⟩
      simp only [Expr.grouped, List.cons_append, List.append_assoc, List.nil_append]
      have hreads := reads_grouped hlevels budget hoperand hoperandApart (by omega)
      refine .group (.expression (.primary (hreads _ _) (.postfixes hfind ?_)) (.chainEnd ?_))
      · exact .postfixesEnd (not_isPostfix_of_ne (by simp))
      · exact not_isBinary_of_ne (by simp)
  | .call name args, budget, hresolves, hapart, hbudget, token, rest => by
      obtain ⟨hargs, f, hfind, harity⟩ := Expr.all_call.mp hresolves
      obtain ⟨hargsApart, _⟩ := Expr.all_call.mp hapart
      simp only [Expr.depth] at hbudget
      simp only [Expr.grouped, List.cons_append, List.append_assoc, List.nil_append]
      exact .call hfind harity (reads_groupedAll hlevels budget hargs hargsApart (by omega) _)

theorem reads_groupedAll (hlevels : ∀ operator ∈ registry.binary, 0 ≤ operator.precedence.level) :
    ∀ {es : List Expr} (budget : Nat), (∀ e ∈ es, registry.Resolves e) →
      (∀ e ∈ es, e.All registry.ApartAt) → 2 * Expr.maxDepth es ≤ budget → ∀ rest : List Token,
      registry.Reads budget (.arguments es) (Expr.groupedAll es ++ .rightParen :: rest)
        (.rightParen :: rest)
  | [], _, _, _, _, _ => .noArguments
  | [e], budget, hresolves, hapart, hbudget, rest => by
      have hdepth := e.depth_pos
      simp only [Expr.maxDepth] at hbudget
      obtain ⟨budget, rfl⟩ : ∃ fewer, budget = fewer + 1 := ⟨budget - 1, by omega⟩
      have hfirst := reads_grouped hlevels budget (hresolves e List.mem_cons_self)
        (hapart e List.mem_cons_self) (by omega)
      exact .arguments (reads_expression (hfirst _ _) (by simp)) (.othersEnd (by simp))
  | e :: second :: es, budget, hresolves, hapart, hbudget, rest => by
      obtain ⟨hresolves, hothersResolve⟩ := List.forall_mem_cons.mp hresolves
      obtain ⟨hapart, hothersApart⟩ := List.forall_mem_cons.mp hapart
      have hdepth := e.depth_pos
      rw [Expr.maxDepth] at hbudget
      -- the others are read as arguments, of which the first one moves behind a comma
      have hothers := reads_groupedAll hlevels budget hothersResolve hothersApart (by omega) rest
      obtain ⟨budget, rfl⟩ : ∃ fewer, budget = fewer + 1 := ⟨budget - 1, by omega⟩
      have hfirst := reads_grouped hlevels budget hresolves hapart (by omega)
      simp only [Expr.groupedAll, List.cons_append, List.append_assoc]
      cases hothers with
      | arguments hsecond hbehind =>
          exact .arguments (reads_expression (hfirst _ _) (by simp)) (.others hsecond hbehind)

end

/-! ## Texts -/

theorem lexical_of_derives (hreach : registry.Reachable) {source : Text} {lexemes : List Lexeme}
    {e : Expr} (hlexes : registry.Tokenizes source lexemes)
    (hderives : registry.Derives (.expression 0 e) (lexemes.map (·.token))) :
    ∀ token ∈ e.tokens, registry.Lexical token := by
  intro token htoken
  rw [hderives.tokens_expression] at htoken
  obtain ⟨lexeme, hlexeme, rfl⟩ := List.mem_map.mp (List.mem_filter.mp htoken).1
  exact hlexes.lexical hreach lexeme hlexeme

/-- **Rendering and parsing again.**  The text of a parsed tree is parsed as this
tree, with any limit that is at least twice its height. -/
theorem parse_render (hreach : registry.Reachable) (hrender : registry.Renderable) {limit : Nat}
    {source : Text} {e : Expr} (hparse : registry.parse limit source = .ok e) {limit' : Nat}
    (hlimit : 2 * e.depth ≤ limit') : registry.parse limit' e.render = .ok e := by
  obtain ⟨lexemes, hlexes, hreads, _⟩ := (parse_eq_ok_iff hreach).mp hparse
  -- what the parse of the source tells about the tree
  have hderives := hreads.derives_append
  have hresolves : registry.Resolves e := hderives.resolves
  have hapart : e.All registry.ApartAt := hreads.apart
  have hlexical := lexical_of_derives hreach hlexes hderives
  -- the lexer splits the text of the tree
  have hends : EndsNumeral [] := fun _ _ => rfl
  have hsplits := splits_render hreach hrender hlexical hresolves hends splits_nil
  rw [List.append_nil, List.append_nil] at hsplits
  obtain ⟨again, htokenizes, hmap⟩ := tokenizes_of_splits hsplits
  -- the parser reads what the lexer yields, up to the end of input
  have hdepth := e.depth_pos
  obtain ⟨budget, rfl⟩ : ∃ fewer, limit' = fewer + 1 := ⟨limit' - 1, by omega⟩
  have hgrouped := reads_grouped hrender.level_nonneg budget hresolves hapart (by omega)
  refine (parse_eq_ok_iff hreach).mpr ⟨again, htokenizes, ?_, by omega⟩
  rw [hmap]
  exact reads_expression (hgrouped _ _) (by simp)

theorem renderable_standard : standard.Renderable where
  level_nonneg := by decide +kernel
  symbol_apart := by
    have hall : ∀ name ∈ standard.operatorNames, name.head?.any isLetter = false →
        name.all (fun c => !isLetter c && !c.isDigit) = true := by
      decide +kernel
    simpa only [List.all_eq_true, Bool.and_eq_true, Bool.not_eq_true'] using hall
  postfixed_apart := by decide +kernel

/-- Operators of each kind and a call with numbers, the text of which has other parentheses. -/
theorem parse_render_power :
    let e : Expr := .binary
      (.binary (.prefixed "-".toList (.number (.ofInt 2))) "^".toList
        (.postfixed
          (.call "MAX".toList
            [.number (.ofInt 1000), .number (.ofRatio false (3 * unitsPerOne) 10)])
          "!".toList))
      "mod".toList (.number (.ofInt 4))
    standard.parse 5 "-2 ^ MAX(1,000, 0.3)! mod 4".toList = .ok e ∧
      e.render = "(((-2) ^ (MAX(1000, 0.3)!)) mod 4)".toList ∧
      standard.parse (2 * e.depth) e.render = .ok e := by
  intro e
  have hparse : standard.parse 5 "-2 ^ MAX(1,000, 0.3)! mod 4".toList = .ok e := by
    decide +kernel
  have hrender : e.render = "(((-2) ^ (MAX(1000, 0.3)!)) mod 4)".toList := by
    decide +kernel
  exact ⟨hparse, hrender,
    parse_render reachable_standard renderable_standard hparse (Nat.le_refl _)⟩

end Registry

end Reckoner
