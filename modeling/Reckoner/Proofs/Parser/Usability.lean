import Reckoner.Expr.Equality
import Reckoner.Proofs.Parser.Levels
import Reckoner.Proofs.Parser.Parentheses
import Reckoner.Proofs.Registry.History
import Reckoner.Proofs.Registry.Registration

/-!
# Which definitions can be used

Registration checks that the lexer can yield the names of a definition.  That is not enough
for a text to make use of it: a name may have other roles, and an operator may stand too low.

| definition       | a text that uses it   | condition                                       |
|------------------|-----------------------|-------------------------------------------------|
| prefix operator  | `a 1`                 | none                                            |
| postfix operator | `1 a`                 | none                                            |
| binary operator  | `1 a 2`               | `a` is no postfix operator, the level is not negative |
| function         | `f(1, 1, …, 1)`       | `f` is no operator                              |

A binary operator of a negative level has its use nevertheless behind a prefix operator that
stands no higher, as in `b 1 a 2`.  Apart from that the conditions are those for a use in any
text at all (`occurs_iff`):

* a postfix operator is taken before a binary one is looked for (`Reads.apart`),
* the levels in a tree are opened by parentheses or prefix operators (`Derives.levelled`),
* a word that names an operator is never the name of a function (`Lexical`).
-/

namespace Reckoner

/-! ## Texts of ones -/

/-- As many ones, with a comma and a blank between any two. -/
def Text.ones : (count : Nat) → Text
  | 0 => []
  | 1 => ['1']
  | count + 2 => '1' :: ',' :: ' ' :: ones (count + 1)

/-- The number 1 as a tree. -/
def Expr.one : Expr := .number (.ofInt 1)

/-- The number 2 as a tree. -/
def Expr.two : Expr := .number (.ofInt 2)

/-- The tokens of ones that follow a first one. -/
def Token.moreOnes : (count : Nat) → List Token
  | 0 => []
  | count + 1 => .comma :: .number (.ofInt 1) :: moreOnes count

def Token.ones : (count : Nat) → List Token
  | 0 => []
  | count + 1 => .number (.ofInt 1) :: moreOnes count

theorem Expr.maxDepth_replicate_le (count : Nat) (e : Expr) :
    maxDepth (List.replicate count e) ≤ e.depth := by
  induction count with
  | zero => exact Nat.zero_le _
  | succ count ih => exact Nat.max_le.mpr ⟨Nat.le_refl _, ih⟩

namespace Expr

variable {name : Text} {args : List Expr}

theorem mem_nodes_self (e : Expr) : e ∈ e.nodes := by
  cases e <;> simp [nodes]

mutual

/-- The name of a call is a token of the tree. -/
theorem mem_tokens_of_mem_nodes : ∀ {e : Expr}, call name args ∈ e.nodes →
    Token.function name ∈ e.tokens
  | number _, hnode => by simp [nodes] at hnode
  | binary left op right, hnode => by
      have hinner : call name args ∈ left.nodes ∨ call name args ∈ right.nodes := by
        simpa [nodes] using hnode
      rcases hinner with hleft | hright
      · simp [mem_tokens_of_mem_nodes hleft]
      · simp [mem_tokens_of_mem_nodes hright]
  | prefixed op operand, hnode => by
      have hinner : call name args ∈ operand.nodes := by simpa [nodes] using hnode
      simp [mem_tokens_of_mem_nodes hinner]
  | postfixed operand op, hnode => by
      have hinner : call name args ∈ operand.nodes := by simpa [nodes] using hnode
      simp [mem_tokens_of_mem_nodes hinner]
  | call outer others, hnode => by
      have hcases : call name args ∈ nodesAll others ∨ name = outer ∧ args = others := by
        simpa [nodes] using hnode
      rcases hcases with hinner | ⟨rfl, _⟩
      · simp [mem_tokensAll_of_mem_nodesAll hinner]
      · simp

theorem mem_tokensAll_of_mem_nodesAll : ∀ {es : List Expr}, call name args ∈ nodesAll es →
    Token.function name ∈ tokensAll es
  | [], hnode => by simp [nodesAll] at hnode
  | e :: es, hnode => by
      rcases List.mem_append.mp hnode with hfirst | hothers
      · simp [mem_tokens_of_mem_nodes hfirst]
      · simp [mem_tokensAll_of_mem_nodesAll hothers]

end

end Expr

namespace Registry

variable {registry : Registry} {definition : Definition} {role : Role} {name later : Text}
  {tokens : List Token}

/-! ## Lexemes -/

theorem lexical_of_mem_operatorNames (hreach : registry.Reachable)
    (hname : name ∈ registry.operatorNames) : registry.Lexical (.operator name) := by
  obtain ⟨hscan, _⟩ := scan_of_isOperator hreach (isOperator_of_mem hreach hname)
  exact hscan.lexical hreach (by simp)

theorem splits_digit {c : Char} {value : Number} (hdigit : c.isDigit = true)
    (hvalue : (numeralValue [c]).toNumber false = value) (hfinite : value.isFinite = true)
    (hends : EndsNumeral later) (hlater : registry.Splits later tokens) :
    registry.Splits (c :: later) (.number value :: tokens) := by
  have hplain : IsPlain [c] := .whole (List.cons_ne_nil _ _) (by simpa using hdigit)
  exact splits_number hplain hvalue hfinite hends hlater

theorem splits_one (hends : EndsNumeral later) (hlater : registry.Splits later tokens) :
    registry.Splits ('1' :: later) (.number (.ofInt 1) :: tokens) :=
  splits_digit rfl (by decide +kernel) (by decide +kernel) hends hlater

theorem splits_two (hends : EndsNumeral later) (hlater : registry.Splits later tokens) :
    registry.Splits ('2' :: later) (.number (.ofInt 2) :: tokens) :=
  splits_digit rfl (by decide +kernel) (by decide +kernel) hends hlater

theorem endsNumeral_blank : EndsNumeral (' ' :: later) :=
  endsNumeral_cons rfl (by decide) (by decide) (by decide)

/-- `a 1` -/
theorem splits_before_one (hreach : registry.Reachable) (hname : name ∈ registry.operatorNames) :
    registry.Splits (name ++ ' ' :: ['1']) [.operator name, .number (.ofInt 1)] :=
  splits_operator_blank hreach (lexical_of_mem_operatorNames hreach hname)
    (splits_one (fun _ _ => rfl) splits_nil)

/-- `1 a` -/
theorem splits_behind_one (hreach : registry.Reachable) (hname : name ∈ registry.operatorNames) :
    registry.Splits ('1' :: ' ' :: name) [.number (.ofInt 1), .operator name] :=
  splits_one endsNumeral_blank (splits_blank rfl (splits_of_mem_operatorNames hreach hname))

/-- `1 a 2` -/
theorem splits_between (hreach : registry.Reachable) (hname : name ∈ registry.operatorNames) :
    registry.Splits ('1' :: ' ' :: (name ++ ' ' :: ['2']))
      [.number (.ofInt 1), .operator name, .number (.ofInt 2)] := by
  refine splits_one endsNumeral_blank (splits_blank rfl ?_)
  exact splits_operator_blank hreach (lexical_of_mem_operatorNames hreach hname)
    (splits_two (fun _ _ => rfl) splits_nil)

theorem splits_moreOnes (count : Nat) (hlater : registry.Splits (')' :: later) tokens) :
    registry.Splits (Text.ones (count + 1) ++ ')' :: later)
      (.number (.ofInt 1) :: (Token.moreOnes count ++ tokens)) := by
  induction count with
  | zero =>
      exact splits_one (endsNumeral_cons rfl (by decide) (by decide) (by decide)) hlater
  | succ count ih => exact splits_one endsNumeral_comma_blank (splits_comma (splits_blank rfl ih))

/-- `f(1, 1, …, 1)` -/
theorem splits_call (hreach : registry.Reachable) (hname : name ∈ registry.names .function)
    (hoperator : registry.isOperator name = false) (count : Nat) :
    registry.Splits (name ++ '(' :: (Text.ones count ++ [')']))
      (.function name :: .leftParen :: (Token.ones count ++ [.rightParen])) := by
  have hclosing : registry.Splits [')'] [.rightParen] := splits_rightParen splits_nil
  have hinner : registry.Splits (Text.ones count ++ [')']) (Token.ones count ++ [.rightParen]) := by
    cases count with
    | zero => exact hclosing
    | succ count => exact splits_moreOnes count hclosing
  have hends : EndsWord ('(' :: (Text.ones count ++ [')'])) := by
    rintro c ⟨⟩
    exact isLetter_of_isPunctuation rfl
  obtain ⟨hsome, hletters⟩ := functionNameFault_eq_none_iff.mp (nameFault_of_mem_names hreach hname)
  exact splits_functionWord hsome hletters hoperator (findFunction?_isSome_of_mem hreach hname)
    hends (splits_leftParen hinner)

/-! ## Reading -/

variable {budget : Nat} {minimum : Int} {e : Expr}

theorem reads_prefixed_one {operator : UnaryOperator}
    (hfind : registry.findUnary? .prefixed name = some operator) :
    registry.Reads (budget + 2) (.expression minimum (.prefixed name .one))
      [.operator name, .number (.ofInt 1), .endOfInput] [.endOfInput] :=
  reads_expression (.prefixed hfind (reads_expression .number (by simp))) (by simp)

theorem reads_postfixed_one (hfind : (registry.findUnary? .postfixed name).isSome = true) :
    registry.Reads (budget + 1) (.expression minimum (.postfixed .one name))
      [.number (.ofInt 1), .operator name, .endOfInput] [.endOfInput] := by
  have hpostfixes : registry.Reads budget (.postfixes .one (.postfixed .one name))
      [.operator name, .endOfInput] [.endOfInput] :=
    .postfixes hfind (.postfixesEnd (not_isPostfix_of_ne (by simp)))
  exact .expression (.primary .number hpostfixes) (.chainEnd (not_isBinary_of_ne (by simp)))

theorem reads_binary {operator : BinaryOperator}
    (hfind : registry.findBinary? name = some operator)
    (hlevel : minimum ≤ operator.precedence.level)
    (hapart : ¬ registry.IsPostfix (.operator name)) :
    registry.Reads (budget + 2) (.expression minimum (.binary .one name .two))
      [.number (.ofInt 1), .operator name, .number (.ofInt 2), .endOfInput] [.endOfInput] := by
  have hleft : registry.Reads (budget + 1) (.primary .one)
      [.number (.ofInt 1), .operator name, .number (.ofInt 2), .endOfInput]
      [.operator name, .number (.ofInt 2), .endOfInput] :=
    .primary .number (.postfixesEnd hapart)
  have hright : registry.Reads (budget + 1) (.expression operator.rightMinimum .two)
      [.number (.ofInt 2), .endOfInput] [.endOfInput] :=
    reads_expression .number (by simp)
  exact .expression hleft (.chain hfind hlevel hright (.chainEnd (not_isBinary_of_ne (by simp))))

/-- Between two numbers there is room only for a binary operator that no postfix operator
shadows and that the least precedence lets through. -/
theorem isBinary_of_reads {left right : Number}
    (hreads : registry.Reads budget (.expression minimum e)
      [.number left, .operator name, .number right, .endOfInput] [.endOfInput]) :
    ¬ registry.IsPostfix (.operator name) ∧ registry.IsBinary minimum (.operator name) := by
  cases hreads with
  | expression hleft hchain =>
      cases hleft with
      | primary hoperand hpostfixes =>
          cases hoperand with
          | number =>
              cases hpostfixes with
              | postfixesEnd hstop =>
                  cases hchain with
                  | chain hfind hlevel _ _ => exact ⟨hstop, _, _, rfl, hfind, hlevel⟩
              | postfixes _ hlater =>
                  -- behind the operator stands a number
                  cases hlater with
                  | postfixesEnd _ => cases hchain

theorem reads_one {count : Nat} {rest : List Token} :
    registry.Reads (budget + 1) (.expression minimum .one)
      (.number (.ofInt 1) :: (Token.moreOnes count ++ .rightParen :: rest))
      (Token.moreOnes count ++ .rightParen :: rest) := by
  -- a comma or the parenthesis follows
  cases count with
  | zero => exact reads_expression .number (by simp)
  | succ count => exact reads_expression .number (by simp)

theorem reads_moreOnes (count : Nat) {rest : List Token} :
    registry.Reads (budget + 1) (.others (List.replicate count .one))
      (Token.moreOnes count ++ .rightParen :: rest) (.rightParen :: rest) := by
  induction count with
  | zero => exact .othersEnd (by simp)
  | succ count ih => exact .others reads_one ih

theorem reads_ones (count : Nat) {rest : List Token} :
    registry.Reads (budget + 1) (.arguments (List.replicate count .one))
      (Token.ones count ++ .rightParen :: rest) (.rightParen :: rest) := by
  cases count with
  | zero => exact .noArguments
  | succ count => exact .arguments reads_one (reads_moreOnes count)

theorem reads_call {f : Function} (hfind : registry.findFunction? name = some f) :
    registry.Reads (budget + 2) (.expression minimum (.call name (List.replicate f.arity .one)))
      (.function name :: .leftParen :: (Token.ones f.arity ++ [.rightParen] ++ [.endOfInput]))
      [.endOfInput] := by
  rw [List.append_assoc]
  exact reads_expression (.call hfind List.length_replicate (reads_ones f.arity)) (by simp)

/-! ## Texts that use a name -/

variable {operator : BinaryOperator} {f : Function}

theorem findUnary?_isSome_of_mem (hreach : registry.Reachable) {fixity : Fixity}
    (hname : name ∈ registry.names (.unary fixity)) :
    (registry.findUnary? fixity name).isSome = true := by
  rwa [findUnary?_isSome_iff hreach, lower_of_mem_names hreach hname]

theorem parse_prefixed_one (hreach : registry.Reachable)
    (hname : name ∈ registry.names (.unary .prefixed)) :
    registry.parse defaultMaxDepth (name ++ ' ' :: ['1']) = .ok (.prefixed name .one) := by
  have hmem : name ∈ registry.operatorNames := mem_operatorNames.mpr (.inr ⟨_, hname⟩)
  obtain ⟨operator, hfind⟩ := Option.isSome_iff_exists.mp (findUnary?_isSome_of_mem hreach hname)
  exact parse_of_splits hreach (splits_before_one hreach hmem) (reads_prefixed_one hfind)
    (by simp [Expr.depth, Expr.one, defaultMaxDepth])

theorem parse_postfixed_one (hreach : registry.Reachable)
    (hname : name ∈ registry.names (.unary .postfixed)) :
    registry.parse defaultMaxDepth ('1' :: ' ' :: name) = .ok (.postfixed .one name) := by
  have hmem : name ∈ registry.operatorNames := mem_operatorNames.mpr (.inr ⟨_, hname⟩)
  have hsome := findUnary?_isSome_of_mem hreach hname
  exact parse_of_splits hreach (splits_behind_one hreach hmem) (reads_postfixed_one hsome)
    (by simp [Expr.depth, Expr.one, defaultMaxDepth])

/-- An alias finds its operator. -/
theorem find?_of_mem_names (hreach : registry.Reachable)
    (hmem : definition ∈ registry.definitions definition.role) (hname : name ∈ definition.names) :
    registry.find? definition.role name = some definition := by
  have hlower : lower name = name := lower_of_mem_names hreach
    (mem_names_iff_exists_mem_definitions.mpr ⟨definition, hmem, rfl, hname⟩)
  exact hreach.coherent.find?_eq_some_iff.mpr ⟨hmem, rfl, hlower.symm ▸ hname⟩

theorem findBinary?_of_mem (hreach : registry.Reachable) (hmem : operator ∈ registry.binary)
    (hname : name ∈ operator.aliases) : registry.findBinary? name = some operator := by
  have hfind : registry.find? .binary name = some (.binary operator) :=
    @find?_of_mem_names registry (.binary operator) name hreach (List.mem_map_of_mem hmem) hname
  simpa [find?] using hfind

theorem isPostfix_iff (hreach : registry.Reachable) (hlower : lower name = name) :
    registry.IsPostfix (.operator name) ↔ name ∈ registry.names (.unary .postfixed) := by
  constructor
  · rintro ⟨_, ⟨⟩, hsome⟩
    rwa [findUnary?_isSome_iff hreach, hlower] at hsome
  · intro hname
    exact ⟨name, rfl, by rwa [findUnary?_isSome_iff hreach, hlower]⟩

theorem parse_binary_iff (hreach : registry.Reachable) (hmem : operator ∈ registry.binary)
    (hname : name ∈ operator.aliases) :
    registry.parse defaultMaxDepth ('1' :: ' ' :: (name ++ ' ' :: ['2'])) =
        .ok (.binary .one name .two) ↔
      0 ≤ operator.precedence.level ∧ name ∉ registry.names (.unary .postfixed) := by
  have hnamed : name ∈ registry.names .binary := List.mem_flatMap.mpr ⟨operator, hmem, hname⟩
  have hfind := findBinary?_of_mem hreach hmem hname
  have hsplits := splits_between hreach (mem_operatorNames.mpr (.inl hnamed))
  rw [← isPostfix_iff hreach (lower_of_mem_names hreach hnamed)]
  constructor
  · intro hparse
    obtain ⟨lexemes, htokenizes, hmap⟩ := tokenizes_of_splits hsplits
    have hreads := reads_of_tokenizes hreach hparse htokenizes
    rw [hmap] at hreads
    obtain ⟨hapart, _, operator', ⟨⟩, hfind', hlevel⟩ := isBinary_of_reads hreads
    obtain rfl := Option.some.inj (hfind.symm.trans hfind')
    exact ⟨hlevel, hapart⟩
  · rintro ⟨hlevel, hapart⟩
    exact parse_of_splits hreach hsplits (reads_binary hfind hlevel hapart)
      (by simp [Expr.depth, Expr.one, Expr.two, defaultMaxDepth])

/-- A word that names an operator is not the name of a function. -/
theorem isOperator_eq_false_of_call (hreach : registry.Reachable) {limit : Nat} {source : Text}
    (hparse : registry.parse limit source = .ok e) {args : List Expr}
    (hnode : .call name args ∈ e.nodes) : registry.isOperator name = false := by
  obtain ⟨lexemes, hlexes, hreads, _⟩ := (parse_eq_ok_iff hreach).mp hparse
  have hlexical := lexical_of_derives hreach hlexes hreads.derives_append
  cases hlexical (.function name) (Expr.mem_tokens_of_mem_nodes hnode) with
  | functionWord _ _ hoperator _ => exact hoperator

theorem findFunction?_of_mem (hreach : registry.Reachable) (hmem : f ∈ registry.functions) :
    registry.findFunction? f.name = some f := by
  have hfind : registry.find? .function f.name = some (.function f) :=
    @find?_of_mem_names registry (.function f) f.name hreach (List.mem_map_of_mem hmem)
      (List.mem_singleton.mpr rfl)
  simpa [find?] using hfind

theorem isOperator_eq_false_iff (hreach : registry.Reachable) (hlower : lower name = name) :
    registry.isOperator name = false ↔ name ∉ registry.operatorNames := by
  rw [← Bool.not_eq_true, isOperator_iff hreach, hlower]

theorem parse_call_iff (hreach : registry.Reachable) (hmem : f ∈ registry.functions) :
    registry.parse defaultMaxDepth (f.name ++ '(' :: (Text.ones f.arity ++ [')'])) =
        .ok (.call f.name (List.replicate f.arity .one)) ↔
      f.name ∉ registry.operatorNames := by
  have hname : f.name ∈ registry.names .function := List.mem_map_of_mem hmem
  rw [← isOperator_eq_false_iff hreach (lower_of_mem_names hreach hname)]
  constructor
  · intro hparse
    exact isOperator_eq_false_of_call hreach hparse (Expr.mem_nodes_self _)
  · intro hoperator
    refine parse_of_splits hreach (splits_call hreach hname hoperator f.arity)
      (reads_call (findFunction?_of_mem hreach hmem)) ?_
    have hdepth := Expr.maxDepth_replicate_le f.arity .one
    simp only [Expr.depth, Expr.one, defaultMaxDepth] at hdepth ⊢
    omega

/-! ## Use in any text -/

/-- The definition that the name of a node stands for. -/
def definitionAt? (registry : Registry) : Expr → Option Definition
  | .number _ => none
  | .binary _ op _ => registry.find? .binary op
  | .prefixed op _ => registry.find? (.unary .prefixed) op
  | .postfixed _ op => registry.find? (.unary .postfixed) op
  | .call name _ => registry.find? .function name

/-- Some text is read as a tree that makes use of the definition. -/
def Occurs (registry : Registry) (definition : Definition) : Prop :=
  ∃ source e, registry.parse defaultMaxDepth source = .ok e ∧
    ∃ node ∈ e.nodes, registry.definitionAt? node = some definition

/-- What it takes for a definition to be of use. -/
def Usable (registry : Registry) : Definition → Prop
  | .binary operator =>
    (∃ name ∈ operator.aliases, name ∉ registry.names (.unary .postfixed)) ∧
      (0 ≤ operator.precedence.level ∨
        ∃ other ∈ registry.unary, other.fixity = .prefixed ∧
          other.precedence.level ≤ operator.precedence.level)
  | .unary _ => True
  | .function f => f.name ∉ registry.operatorNames

/-- The operators of a tree are known by the definitions that their names stand for. -/
theorem definitionAt?_eq_some_binary_iff {node : Expr} :
    registry.definitionAt? node = some (.binary operator) ↔
      ∃ left op right, node = .binary left op right ∧ registry.findBinary? op = some operator := by
  cases node <;> simp [definitionAt?, find?]

theorem definitionAt?_eq_some_function_iff {node : Expr} :
    registry.definitionAt? node = some (.function f) ↔
      ∃ name args, node = .call name args ∧ registry.findFunction? name = some f := by
  cases node <;> simp [definitionAt?, find?]

/-- A binary operator in a tree has an alias that no postfix operator has, and its level is
opened. -/
theorem usable_of_occurs_binary (hreach : registry.Reachable)
    (hoccurs : registry.Occurs (.binary operator)) : registry.Usable (.binary operator) := by
  obtain ⟨source, e, hparse, node, hnode, hdefinition⟩ := hoccurs
  obtain ⟨left, op, right, rfl, hfind⟩ := definitionAt?_eq_some_binary_iff.mp hdefinition
  obtain ⟨lexemes, _, hreads, _⟩ := (parse_eq_ok_iff hreach).mp hparse
  have hdeclared : registry.find? .binary op = some (.binary operator) := by
    rw [find?, hfind, Option.map_some]
  obtain ⟨_, _, hname⟩ := hreach.coherent.find?_eq_some_iff.mp hdeclared
  constructor
  · refine ⟨lower op, hname, ?_⟩
    intro hmem
    have hapart : e.All registry.ApartAt := hreads.apart
    have hnone : (registry.findUnary? .postfixed op).isSome = false := hapart _ hnode
    rw [← findUnary?_isSome_iff hreach, hnone] at hmem
    cases hmem
  · have hlevelled : e.All (registry.LevelledAt 0) := hreads.derives_append.levelled
    have hopens : registry.Opens operator.precedence.level :=
      (hlevelled _ hnode operator hfind).elim .inl id
    refine hopens.imp_right ?_
    rintro ⟨name, other, hother, hle⟩
    have hfound : registry.find? (.unary .prefixed) name = some (.unary other) := by
      rw [find?, hother, Option.map_some]
    obtain ⟨hmem, hrole, _⟩ := hreach.coherent.find?_eq_some_iff.mp hfound
    exact ⟨other, by simpa [definitions] using hmem, Role.unary.inj hrole, hle⟩

theorem usable_of_occurs_function (hreach : registry.Reachable)
    (hoccurs : registry.Occurs (.function f)) : registry.Usable (.function f) := by
  obtain ⟨source, e, hparse, node, hnode, hdefinition⟩ := hoccurs
  obtain ⟨name, args, rfl, hfind⟩ := definitionAt?_eq_some_function_iff.mp hdefinition
  have hdeclared : registry.find? .function name = some (.function f) := by
    rw [find?, hfind, Option.map_some]
  obtain ⟨_, _, hname⟩ := hreach.coherent.find?_eq_some_iff.mp hdeclared
  have hlower : lower name = f.name := List.mem_singleton.mp hname
  have hoperator := isOperator_eq_false_of_call hreach hparse hnode
  rw [← Bool.not_eq_true, isOperator_iff hreach, hlower] at hoperator
  exact hoperator

/-! ### Texts for the definitions that are of use -/

theorem parse_prefixed_binary (hreach : registry.Reachable) {opening : Text}
    {other : UnaryOperator} (hother : registry.findUnary? .prefixed opening = some other)
    (hopening : opening ∈ registry.operatorNames)
    (hname : name ∈ registry.operatorNames) (hfind : registry.findBinary? name = some operator)
    (hlevel : other.precedence.level ≤ operator.precedence.level)
    (hapart : ¬ registry.IsPostfix (.operator name)) :
    registry.parse defaultMaxDepth
        (opening ++ ' ' :: '1' :: ' ' :: (name ++ ' ' :: ['2'])) =
      .ok (.prefixed opening (.binary .one name .two)) := by
  have hsplits := splits_operator_blank hreach (lexical_of_mem_operatorNames hreach hopening)
    (splits_between hreach hname)
  refine parse_of_splits hreach hsplits (reads_expression (.prefixed hother ?_) (by simp))
    (by simp [Expr.depth, Expr.one, Expr.two, defaultMaxDepth])
  exact reads_binary hfind hlevel hapart

theorem occurs_binary (hreach : registry.Reachable)
    (hmem : .binary operator ∈ registry.definitions .binary)
    (husable : registry.Usable (.binary operator)) : registry.Occurs (.binary operator) := by
  obtain ⟨⟨name, hname, hfree⟩, hlevel⟩ := husable
  have hmem' : operator ∈ registry.binary := by simpa [definitions] using hmem
  have hfound : registry.find? .binary name = some (.binary operator) :=
    @find?_of_mem_names registry (.binary operator) name hreach hmem hname
  rcases hlevel with hlevel | ⟨other, hother, hfixity, hle⟩
  · have hparse := (parse_binary_iff hreach hmem' hname).mpr ⟨hlevel, hfree⟩
    exact ⟨_, _, hparse, _, Expr.mem_nodes_self _, hfound⟩
  · -- behind the prefix operator
    have hdeclared : .unary other ∈ registry.definitions (Definition.unary other).role :=
      List.mem_map_of_mem hother
    obtain ⟨opening, hopening⟩ := List.exists_mem_of_ne_nil _ (names_ne_nil_of_mem hreach hdeclared)
    have hfind : registry.findUnary? .prefixed opening = some other := by
      have hfind := find?_of_mem_names hreach hdeclared hopening
      simpa [Definition.role, find?, hfixity] using hfind
    have hnamed : name ∈ registry.names .binary := List.mem_flatMap.mpr ⟨operator, hmem', hname⟩
    have hopeningNamed : opening ∈ registry.names (.unary other.fixity) :=
      mem_names_iff_exists_mem_definitions.mpr ⟨_, hdeclared, rfl, hopening⟩
    have hparse := parse_prefixed_binary hreach hfind
      (mem_operatorNames.mpr (.inr ⟨_, hopeningNamed⟩)) (mem_operatorNames.mpr (.inl hnamed))
      (findBinary?_of_mem hreach hmem' hname) hle
      (mt (isPostfix_iff hreach (lower_of_mem_names hreach hnamed)).mp hfree)
    refine ⟨_, _, hparse, .binary .one name .two, ?_, hfound⟩
    simp [Expr.nodes]

theorem occurs_unary (hreach : registry.Reachable) {operator : UnaryOperator}
    (hmem : .unary operator ∈ registry.definitions (.unary operator.fixity)) :
    registry.Occurs (.unary operator) := by
  obtain ⟨name, hname⟩ := List.exists_mem_of_ne_nil _
    (@names_ne_nil_of_mem registry (.unary operator) hreach hmem)
  have hfound : registry.find? (.unary operator.fixity) name = some (.unary operator) :=
    @find?_of_mem_names registry (.unary operator) name hreach hmem hname
  have hnamed : name ∈ registry.names (.unary operator.fixity) :=
    mem_names_iff_exists_mem_definitions.mpr ⟨_, hmem, rfl, hname⟩
  cases hfixity : operator.fixity with
  | prefixed =>
      rw [hfixity] at hfound hnamed
      exact ⟨_, _, parse_prefixed_one hreach hnamed, _, Expr.mem_nodes_self _, hfound⟩
  | postfixed =>
      rw [hfixity] at hfound hnamed
      exact ⟨_, _, parse_postfixed_one hreach hnamed, _, Expr.mem_nodes_self _, hfound⟩

theorem occurs_function (hreach : registry.Reachable)
    (hmem : .function f ∈ registry.definitions .function)
    (husable : registry.Usable (.function f)) : registry.Occurs (.function f) := by
  have hmem' : f ∈ registry.functions := by simpa [definitions] using hmem
  have hparse := (parse_call_iff hreach hmem').mpr husable
  have hfound : registry.find? .function f.name = some (.function f) := by
    rw [find?, findFunction?_of_mem hreach hmem', Option.map_some]
  exact ⟨_, _, hparse, _, Expr.mem_nodes_self _, hfound⟩

theorem occurs_iff (hreach : registry.Reachable)
    (hmem : definition ∈ registry.definitions definition.role) :
    registry.Occurs definition ↔ registry.Usable definition := by
  cases definition with
  | binary operator => exact ⟨usable_of_occurs_binary hreach, occurs_binary hreach hmem⟩
  | unary operator => exact ⟨fun _ => trivial, fun _ => occurs_unary hreach hmem⟩
  | function f => exact ⟨usable_of_occurs_function hreach, occurs_function hreach hmem⟩

/-! ## All definitions -/

/-- **Which definitions can be used.**  A prefix and a postfix operator can always be used, a
binary operator between two numbers if its level is not negative and the alias is that of no
postfix operator, and a function if no operator has its name.  In no other text can a
definition be used that cannot be used so, apart from binary operators of negative levels:
they can be used behind a prefix operator that stands no higher. -/
theorem usable (hreach : registry.Reachable) :
    (∀ name ∈ registry.names (.unary .prefixed),
      registry.parse defaultMaxDepth (name ++ ' ' :: ['1']) = .ok (.prefixed name .one)) ∧
    (∀ name ∈ registry.names (.unary .postfixed),
      registry.parse defaultMaxDepth ('1' :: ' ' :: name) = .ok (.postfixed .one name)) ∧
    (∀ operator ∈ registry.binary, ∀ name ∈ operator.aliases,
      registry.parse defaultMaxDepth ('1' :: ' ' :: (name ++ ' ' :: ['2'])) =
          .ok (.binary .one name .two) ↔
        0 ≤ operator.precedence.level ∧ name ∉ registry.names (.unary .postfixed)) ∧
    (∀ f ∈ registry.functions,
      registry.parse defaultMaxDepth (f.name ++ '(' :: (Text.ones f.arity ++ [')'])) =
          .ok (.call f.name (List.replicate f.arity .one)) ↔
        f.name ∉ registry.operatorNames) ∧
    ∀ definition ∈ registry.definitions definition.role,
      registry.Occurs definition ↔ registry.Usable definition := by
  refine ⟨?_, ?_, ?_, ?_, ?_⟩
  · intro name hname
    exact parse_prefixed_one hreach hname
  · intro name hname
    exact parse_postfixed_one hreach hname
  · intro operator hmem name hname
    exact parse_binary_iff hreach hmem hname
  · intro f hmem
    exact parse_call_iff hreach hmem
  · intro definition hmem
    exact occurs_iff hreach hmem

/-- Each kind of definition in the standard table. -/
theorem usable_standard :
    standard.parse defaultMaxDepth ("-".toList ++ ' ' :: ['1']) =
        .ok (.prefixed "-".toList .one) ∧
      standard.parse defaultMaxDepth ('1' :: ' ' :: "!".toList) = .ok (.postfixed .one "!".toList) ∧
      standard.parse defaultMaxDepth ('1' :: ' ' :: ("pow".toList ++ ' ' :: ['2'])) =
        .ok (.binary .one "pow".toList .two) ∧
      standard.parse defaultMaxDepth ("max".toList ++ '(' :: (Text.ones 2 ++ [')'])) =
        .ok (.call "max".toList [.one, .one]) ∧
      standard.Occurs (.function ⟨"max".toList, 2, Rules.larger⟩) := by
  obtain ⟨hprefixed, hpostfixed, hbinary, hfunction, hoccurs⟩ := usable reachable_standard
  have hpower : ⟨["^".toList, "pow".toList], .power, .right, Rules.power⟩ ∈ standard.binary :=
    List.mem_of_getElem? (show standard.binary[18]? = some _ from rfl)
  have hmax : ⟨"max".toList, 2, Rules.larger⟩ ∈ standard.functions :=
    List.mem_of_getElem? (show standard.functions[3]? = some _ from rfl)
  have hfree : "max".toList ∉ standard.operatorNames := by decide +kernel
  refine ⟨hprefixed _ (by decide +kernel), hpostfixed _ (by decide +kernel), ?_, ?_, ?_⟩
  · exact (hbinary _ hpower _ (by simp)).mpr (by decide +kernel)
  · exact (hfunction _ hmax).mpr hfree
  · exact (hoccurs (.function _) (List.mem_map_of_mem hmax)).mpr hfree

/-- An operator of a negative level, behind a prefix operator of a lower one. -/
theorem occurs_below_zero :
    ∃ registry operator,
      ofDefinitions [.binary ⟨[";".toList], ⟨-1, by decide⟩, .left, Rules.add⟩,
        .unary ⟨["do".toList], .prefixed, ⟨-2, by decide⟩, Rules.negate⟩] = .ok registry ∧
      .binary operator ∈ registry.definitions .binary ∧ operator.precedence.level < 0 ∧
      registry.parse defaultMaxDepth "do 1 ; 2".toList =
        .ok (.prefixed "do".toList (.binary .one ";".toList .two)) ∧
      registry.Occurs (.binary operator) := by
  -- the text of the third part is also the one that the last part asks for
  refine ⟨_, _, rfl, .head _, by decide, ?parse,
    ⟨_, _, ?parse, .binary .one ";".toList .two, ?node, rfl⟩⟩
  case parse => decide +kernel
  case node => simp [Expr.nodes]

end Registry

end Reckoner
