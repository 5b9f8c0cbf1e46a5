import Mathlib.Data.List.Forall2
import Reckoner.Expr.Equality
import Reckoner.Proofs.Parser.Acceptance
import Reckoner.Proofs.Parser.Execution
import Reckoner.Proofs.Parser.Operands

/-!
# How chains of operators group

A chain is an operand with binary operators and further operands behind it.  It is read as a
tree whose nodes are the operators of the chain and whose leaves are the trees of the operands;
a `Grouping` is such a tree with its leaves kept apart, since an operand may hold binary
operators as well.

At every node the operators on the left could not take the one of the node into their right
operand, and those on the right could stand in the right operand of the node (`Ordered`).  This
leaves one grouping of a chain: the root is the only operator that both conditions allow
(`Ordered.eq`).

## Strategy

The parser does not see a node before its left operand is complete, and an operator that ends a
right operand may end the operands around it as well.  So what is carried along a reading is
more than the order of the tree (`GroupedTo`): the token behind it cannot stand in the right
operand of any of its operators.  If an operator is taken all the same, then each operator to its
left has a tighter right operand, and what ends behind the new operator ends behind them too,
because a right minimum is at most one more than the level (`rightMinimum_le_succ`).
-/

namespace Reckoner

/-! ## Groupings -/

/-- A tree over the operands of a chain. -/
inductive Grouping
  | operand (e : Expr)
  | join (left : Grouping) (op : Text) (right : Grouping)

namespace Grouping

@[simp] def toExpr : Grouping → Expr
  | operand e => e
  | join left op right => .binary left.toExpr op right.toExpr

/-- The operators of the chain, from left to right. -/
@[simp] def ops : Grouping → List Text
  | operand _ => []
  | join left op right => left.ops ++ op :: right.ops

/-- The operands of the chain, from left to right. -/
@[simp] def operands : Grouping → List Expr
  | operand e => [e]
  | join left _ right => left.operands ++ right.operands

theorem length_operands (tree : Grouping) : tree.operands.length = tree.ops.length + 1 := by
  induction tree with
  | operand => rfl
  | join left op right ihLeft ihRight =>
    simp only [operands, ops, List.length_append, List.length_cons, ihLeft, ihRight]
    omega

end Grouping

namespace Registry

variable {registry : Registry}

/-- A binary operator that binds too loosely to stand in the right operand of another one. -/
def EndsBehind (registry : Registry) (op other : Text) : Prop :=
  ∃ operator operator', registry.findBinary? op = some operator ∧
    registry.findBinary? other = some operator' ∧
    operator.precedence.level < operator'.rightMinimum

/-- A binary operator that binds tightly enough to stand in the right operand of another one. -/
def StaysBehind (registry : Registry) (op other : Text) : Prop :=
  ∃ operator operator', registry.findBinary? op = some operator ∧
    registry.findBinary? other = some operator' ∧
    operator'.rightMinimum ≤ operator.precedence.level

theorem EndsBehind.not_staysBehind {op other : Text} (hends : registry.EndsBehind op other) :
    ¬ registry.StaysBehind op other := by
  obtain ⟨operator, operator', hop, hother, hlt⟩ := hends
  rintro ⟨_, _, hop', hother', hle⟩
  obtain rfl := Option.some.inj (hop.symm.trans hop')
  obtain rfl := Option.some.inj (hother.symm.trans hother')
  omega

theorem rightMinimum_le_succ (operator : BinaryOperator) :
    operator.rightMinimum ≤ operator.precedence.level + 1 := by
  unfold BinaryOperator.rightMinimum
  cases operator.associativity <;> simp only <;> omega

end Registry

namespace Grouping

variable {registry : Registry}

/-- At every node the operators on the left end before it, and those on the right belong to its
right operand. -/
def Ordered (registry : Registry) : Grouping → Prop
  | operand _ => True
  | join left op right =>
    left.Ordered registry ∧ right.Ordered registry ∧
      (∀ other ∈ left.ops, registry.EndsBehind op other) ∧
      ∀ other ∈ right.ops, registry.StaysBehind other op

/-- **A chain has one ordered grouping.**  Of two different roots one would end the right operand
of the other and belong to it. -/
theorem Ordered.eq {tree other : Grouping} (htree : tree.Ordered registry)
    (hother : other.Ordered registry) (hops : tree.ops = other.ops)
    (hoperands : tree.operands = other.operands) : tree = other := by
  induction tree generalizing other with
  | operand e =>
    cases other with
    | operand e' => simpa using hoperands
    | join left op right => simp at hops
  | join left op right ihLeft ihRight =>
    cases other with
    | operand e => simp at hops
    | join left' op' right' =>
      obtain ⟨hleft, hright, hbefore, hbehind⟩ := htree
      obtain ⟨hleft', hright', hbefore', hbehind'⟩ := hother
      -- the root of one tree stands among the operators on one side of the other root
      have hroot : left.ops = left'.ops ∧ op :: right.ops = op' :: right'.ops := by
        rcases List.append_eq_append_iff.mp hops with ⟨more, hmore, hlater⟩ | ⟨more, hmore, hlater⟩
        · cases more with
          | nil => exact ⟨by simpa using hmore.symm, hlater⟩
          | cons first more =>
            obtain ⟨rfl, hright⟩ := List.cons.inj hlater
            have hends := hbefore' op (hmore ▸ List.mem_append_right _ List.mem_cons_self)
            have hstays := hbehind op' (hright ▸ List.mem_append_right _ List.mem_cons_self)
            exact absurd hstays hends.not_staysBehind
        · cases more with
          | nil => exact ⟨by simpa using hmore, hlater.symm⟩
          | cons first more =>
            obtain ⟨rfl, hright⟩ := List.cons.inj hlater
            have hends := hbefore op' (hmore ▸ List.mem_append_right _ List.mem_cons_self)
            have hstays := hbehind' op (hright ▸ List.mem_append_right _ List.mem_cons_self)
            exact absurd hstays hends.not_staysBehind
      obtain ⟨hopsLeft, hlater⟩ := hroot
      obtain ⟨rfl, hopsRight⟩ := List.cons.inj hlater
      have hlength : left.operands.length = left'.operands.length := by
        rw [length_operands, length_operands, hopsLeft]
      obtain ⟨hoperandsLeft, hoperandsRight⟩ := List.append_inj hoperands hlength
      rw [ihLeft hleft hleft' hopsLeft hoperandsLeft,
        ihRight hright hright' hopsRight hoperandsRight]

end Grouping

/-! ## Chains as tokens -/

/-- An operator of a chain with the operand behind it. -/
structure Link where
  op : Text
  operand : List Token

/-- The tokens of operators with the operands behind them. -/
def Link.tokens (links : List Link) : List Token :=
  links.flatMap fun link => .operator link.op :: link.operand

namespace Registry

variable {registry : Registry}

/-- The operators name no postfix operators, and each operand shows where it ends. -/
def AreLinks (registry : Registry) (links : List Link) : Prop :=
  ∀ link ∈ links, ¬ registry.IsPostfix (.operator link.op) ∧ registry.IsOperand link.operand

/-- No operand goes on where the links begin, or where the input ends if there are none. -/
theorem AreLinks.head_not_isPostfix {links : List Link} (hlinks : registry.AreLinks links) :
    ∀ token ∈ (Link.tokens links ++ [Token.endOfInput]).head?, ¬ registry.IsPostfix token := by
  cases links with
  | nil =>
    rintro _ ⟨⟩
    exact not_isPostfix_of_ne (by simp)
  | cons link links =>
    rintro _ ⟨⟩
    exact (hlinks link List.mem_cons_self).1

/-! ## What is read of a chain -/

/-- A grouping of operators and operands of a chain that ends before the tokens `rest`: it is
ordered, its operators bind at least as tightly as `minimum`, and what follows belongs to the
right operand of none of them. -/
structure GroupedTo (registry : Registry) (minimum : Int) (tree : Grouping)
    (operands : List (List Token)) (ops : List Text) (rest : List Token) : Prop where
  ops_eq : tree.ops = ops
  derives : List.Forall₂ (fun e tokens => registry.Derives (.primary e) tokens) tree.operands
    operands
  ordered : tree.Ordered registry
  allowed : ∀ op ∈ ops, ∃ operator, registry.findBinary? op = some operator ∧
    minimum ≤ operator.precedence.level
  ends : ∀ op ∈ ops, ∀ operator, registry.findBinary? op = some operator →
    ∀ token ∈ rest.head?, ¬ registry.IsBinary operator.rightMinimum token

variable {minimum : Int} {op : Text} {operator : BinaryOperator} {ts rest : List Token}

/-- An operand alone is grouped to its end. -/
theorem groupedTo_operand {e : Expr} {tokens : List Token}
    (hderives : registry.Derives (.primary e) tokens) :
    registry.GroupedTo minimum (.operand e) [tokens] [] rest :=
  ⟨rfl, .cons hderives .nil, trivial, by simp, by simp⟩

/-- **The step of a chain.**  An operator behind a grouping and the grouping of its right operand
make one grouping. -/
theorem GroupedTo.join {left right : Grouping} {operands operands' : List (List Token)}
    {ops ops' : List Text}
    (hleft : registry.GroupedTo minimum left operands ops (.operator op :: ts))
    (hfind : registry.findBinary? op = some operator)
    (hlevel : minimum ≤ operator.precedence.level)
    (hright : registry.GroupedTo operator.rightMinimum right operands' ops' rest)
    (hstops : ∀ token ∈ rest.head?, ¬ registry.IsBinary operator.rightMinimum token) :
    registry.GroupedTo minimum (.join left op right) (operands ++ operands') (ops ++ op :: ops')
      rest := by
  have hsucc := rightMinimum_le_succ operator
  have hopen := level_le_rightMinimum operator
  -- the new operator ends the right operands on its left
  have hends : ∀ other ∈ ops, ∀ operator', registry.findBinary? other = some operator' →
      operator.precedence.level < operator'.rightMinimum := by
    intro other hother operator' hfind'
    refine Int.not_le.mp fun hle => ?_
    exact hleft.ends other hother operator' hfind' _ rfl ⟨op, operator, rfl, hfind, hle⟩
  refine ⟨by simp [hleft.ops_eq, hright.ops_eq], List.rel_append hleft.derives hright.derives,
    ⟨hleft.ordered, hright.ordered, ?_, ?_⟩, ?_, ?_⟩
  · intro other hother
    rw [hleft.ops_eq] at hother
    obtain ⟨operator', hfind', _⟩ := hleft.allowed other hother
    exact ⟨operator, operator', hfind, hfind', hends other hother operator' hfind'⟩
  · intro other hother
    rw [hright.ops_eq] at hother
    obtain ⟨operator', hfind', hle⟩ := hright.allowed other hother
    exact ⟨operator', operator, hfind', hfind, hle⟩
  · intro other hother
    rcases List.mem_append.mp hother with hother | hother
    · exact hleft.allowed other hother
    rcases List.mem_cons.mp hother with rfl | hother
    · exact ⟨operator, hfind, hlevel⟩
    · obtain ⟨operator', hfind', hle⟩ := hright.allowed other hother
      exact ⟨operator', hfind', by omega⟩
  · intro other hother operator' hfind' token htoken
    rcases List.mem_append.mp hother with hother | hother
    · -- what does not end behind the operators on the left does not end behind the new one
      rintro ⟨name, last, htokenEq, hlast, hle⟩
      have hlt := hends other hother operator' hfind'
      exact hstops token htoken ⟨name, last, htokenEq, hlast, by omega⟩
    rcases List.mem_cons.mp hother with rfl | hother
    · obtain rfl := Option.some.inj (hfind.symm.trans hfind')
      exact hstops token htoken
    · exact hright.ends other hother operator' hfind' token htoken

/-- What reading a phrase does with the tokens of a chain: it takes some of the links and groups
them. -/
def GroupsAlong (registry : Registry) (ts rest : List Token) : Phrase → Prop
  | .expression minimum e => ∀ first links, registry.IsOperand first → registry.AreLinks links →
      ts = first ++ (Link.tokens links ++ [.endOfInput]) →
      ∃ tree taken left, links = taken ++ left ∧ rest = Link.tokens left ++ [.endOfInput] ∧
        tree.toExpr = e ∧ registry.GroupedTo minimum tree
          (first :: taken.map Link.operand) (taken.map Link.op) rest
  | .chain minimum e e' => ∀ tree operands ops links, tree.toExpr = e → registry.AreLinks links →
      ts = Link.tokens links ++ [.endOfInput] → registry.GroupedTo minimum tree operands ops ts →
      ∃ tree' taken left, links = taken ++ left ∧ rest = Link.tokens left ++ [.endOfInput] ∧
        tree'.toExpr = e' ∧ registry.GroupedTo minimum tree'
          (operands ++ taken.map Link.operand) (ops ++ taken.map Link.op) rest
  | _ => True

/-- The rest of what is read begins with a token that its phrase stops at. -/
theorem Reads.stops_head {budget : Nat} {phrase : Phrase}
    (hreads : registry.Reads budget phrase ts rest) :
    ∀ token ∈ rest.head?, Reads.Stops registry ts token phrase := by
  obtain ⟨token, later, rfl⟩ := hreads.exists_rest
  rintro _ ⟨⟩
  exact hreads.stops

/-- The first operand of a chain is read up to the first link. -/
theorem Reads.derives_operand {budget : Nat} {e : Expr} {first : List Token} {links : List Link}
    (hreads : registry.Reads budget (.primary e) ts rest) (hfirst : registry.IsOperand first)
    (hlinks : registry.AreLinks links)
    (htokens : ts = first ++ (Link.tokens links ++ [.endOfInput])) :
    registry.Derives (.primary e) first ∧ rest = Link.tokens links ++ [.endOfInput] := by
  obtain ⟨used, rfl, hderives⟩ := hreads.derives
  obtain ⟨rfl, hrest⟩ :=
    hfirst.eq_of_derives hderives hreads.stops_head hlinks.head_not_isPostfix htokens
  exact ⟨hderives, hrest⟩

/-- **Greedy reading groups a chain in order.** -/
theorem Reads.groupsAlong {budget : Nat} {phrase : Phrase}
    (hreads : registry.Reads budget phrase ts rest) : registry.GroupsAlong ts rest phrase := by
  induction hreads with
  | @expression budget minimum left e ts middle rest hleftReads _ _ hchain =>
    intro first links hfirst hlinks htokens
    obtain ⟨hderives, hmiddle⟩ := hleftReads.derives_operand hfirst hlinks htokens
    exact hchain (.operand left) [first] [] links rfl hlinks hmiddle (groupedTo_operand hderives)
  | chainEnd =>
    intro tree operands ops links htree _ htokens hgrouped
    exact ⟨tree, [], links, rfl, htokens, htree, by simpa using hgrouped⟩
  | @chain budget minimum left right e op operator ts middle rest hfind hlevel hrightReads _
      hright hchain =>
    intro tree operands ops links htree hlinks htokens hgrouped
    cases links with
    | nil => simp [Link.tokens] at htokens
    | cons link links =>
      obtain ⟨⟨_, hoperand⟩, hlater⟩ := List.forall_mem_cons.mp hlinks
      obtain ⟨rfl, hts⟩ : op = link.op ∧
          ts = link.operand ++ (Link.tokens links ++ [.endOfInput]) := by
        simpa [Link.tokens] using htokens
      obtain ⟨behind, taken, links, rfl, hmiddle, rfl, hbehind⟩ :=
        hright link.operand links hoperand hlater hts
      have hjoined := hgrouped.join hfind hlevel hbehind fun token htoken =>
        (hrightReads.stops_head token htoken).2
      obtain ⟨whole, more, left, rfl, hrest, hwhole, hgroupedAll⟩ :=
        hchain (.join tree link.op behind) _ _ links (by rw [Grouping.toExpr, htree])
          (fun link hlink => hlater link (List.mem_append_right _ hlink)) hmiddle hjoined
      refine ⟨whole, link :: (taken ++ more), left, by simp, hrest, hwhole, ?_⟩
      simpa using hgroupedAll
  | _ => trivial

/-- **The shape of a chain of operators.**  If a text is read as a tree, and its tokens are
operands with operators between them that name no postfix operators, each operand a number, a
call or an expression in parentheses with any postfix operators behind it, then the tree is a
grouping of the trees of these operands with these operators in this order.  At each node the
operators on the left bind too tightly to take that of the node into their right operand, and
those on the right bind tightly enough to stand in the right operand of the node.  No other
grouping has the same operators and operands in this order and this property. -/
theorem exists_grouping_of_parse (hreach : registry.Reachable) {limit : Nat} {source : Text}
    {e : Expr} (hparse : registry.parse limit source = .ok e) {lexemes : List Lexeme}
    (hlexes : registry.Tokenizes source lexemes) {first : List Token} {links : List Link}
    (htokens : lexemes.map (·.token) = first ++ Link.tokens links)
    (hfirst : registry.IsOperand first) (hlinks : registry.AreLinks links) :
    ∃ tree : Grouping, tree.toExpr = e ∧ tree.ops = links.map Link.op ∧
      List.Forall₂ (fun e tokens => registry.Derives (.primary e) tokens) tree.operands
        (first :: links.map Link.operand) ∧
      tree.Ordered registry ∧
      ∀ other : Grouping, other.Ordered registry → other.ops = tree.ops →
        other.operands = tree.operands → other = tree := by
  obtain ⟨hreads, _⟩ := reads_of_parse hparse
  rw [(LexemeStream.tokens_ofText_eq_iff hreach).mpr ⟨lexemes, hlexes, rfl⟩, htokens,
    List.append_assoc] at hreads
  obtain ⟨tree, taken, left, rfl, hrest, htree, hgrouped⟩ :=
    hreads.groupsAlong first links hfirst hlinks rfl
  -- nothing is left, as the links that are not taken stand before the end of input
  obtain rfl : left = [] := by
    cases left with
    | nil => rfl
    | cons link left => simp [Link.tokens] at hrest
  rw [List.append_nil]
  exact ⟨tree, htree, hgrouped.ops_eq, hgrouped.derives, hgrouped.ordered,
    fun other hother hops hoperands => hother.eq hgrouped.ordered hops hoperands⟩

/-- The links of `1-2*(3+4)!-5` behind its first operand. -/
def differences : List Link := [
  ⟨"-".toList, [.number (.ofInt 2)]⟩,
  ⟨"*".toList, [.leftParen, .number (.ofInt 3), .operator "+".toList, .number (.ofInt 4),
    .rightParen, .operator "!".toList]⟩,
  ⟨"-".toList, [.number (.ofInt 5)]⟩]

theorem isOperand_number (value : Number) : registry.IsOperand [.number value] := by
  have hoperand : registry.IsOperand ([Token.number value] ++ []) := .mk (.number value) (by simp)
  exact hoperand

theorem areLinks_differences : standard.AreLinks differences := by
  have hnot (op : Text) (hop : (standard.findUnary? .postfixed op).isSome = false) :
      ¬ standard.IsPostfix (.operator op) := by
    rintro ⟨name, heq, hname⟩
    obtain rfl := Token.operator.inj heq
    exact Bool.false_ne_true (hop.symm.trans hname)
  have hsum : Token.Balanced [.number (.ofInt 3), .operator "+".toList, .number (.ofInt 4)] :=
    .other (by simp) (by simp) (.other (by simp) (by simp) (.other (by simp) (by simp) .nil))
  have hfactorial : standard.IsPostfix (.operator "!".toList) := ⟨_, rfl, by decide +kernel⟩
  have hgroup : standard.IsOperand ((.leftParen :: ([.number (.ofInt 3), .operator "+".toList,
      .number (.ofInt 4)] ++ [.rightParen])) ++ [.operator "!".toList]) :=
    .mk (.group hsum) (List.forall_mem_singleton.mpr hfactorial)
  refine List.forall_mem_cons.mpr ⟨⟨hnot _ (by decide +kernel), isOperand_number _⟩, ?_⟩
  refine List.forall_mem_cons.mpr ⟨⟨hnot _ (by decide +kernel), hgroup⟩, ?_⟩
  exact List.forall_mem_singleton.mpr ⟨hnot _ (by decide +kernel), isOperand_number _⟩

/-- Differences group to the left, and a product with a group and a postfix operator stands in
the right operand of the first one. -/
theorem exists_grouping_of_parse_differences :
    ∃ e lexemes, standard.parse 8 "1-2*(3+4)!-5".toList = .ok e ∧
      standard.Tokenizes "1-2*(3+4)!-5".toList lexemes ∧
      lexemes.map (·.token) = [.number (.ofInt 1)] ++ Link.tokens differences ∧
      ∃ tree : Grouping, tree.toExpr = e ∧ tree.ops = differences.map Link.op ∧
        List.Forall₂ (fun e tokens => standard.Derives (.primary e) tokens) tree.operands
          ([.number (.ofInt 1)] :: differences.map Link.operand) ∧
        tree.Ordered standard ∧
        ∀ other : Grouping, other.Ordered standard → other.ops = tree.ops →
          other.operands = tree.operands → other = tree := by
  have hparse : standard.parse 8 "1-2*(3+4)!-5".toList =
      .ok (.binary (.binary (.number (.ofInt 1)) "-".toList
        (.binary (.number (.ofInt 2)) "*".toList (.postfixed
          (.binary (.number (.ofInt 3)) "+".toList (.number (.ofInt 4))) "!".toList))) "-".toList
        (.number (.ofInt 5))) := by
    decide +kernel
  have hstream : (LexemeStream.ofText standard "1-2*(3+4)!-5".toList).tokens =
      ([.number (.ofInt 1)] ++ Link.tokens differences) ++ [.endOfInput] := by
    decide +kernel
  obtain ⟨lexemes, hlexes, htokens⟩ :=
    (LexemeStream.tokens_ofText_eq_iff reachable_standard).mp hstream
  exact ⟨_, lexemes, hparse, hlexes, htokens, exists_grouping_of_parse reachable_standard hparse
    hlexes htokens (isOperand_number _) areLinks_differences⟩

end Registry

end Reckoner
