import Reckoner.Proofs.Parser.RoundTrip

/-!
# Where expressions end

The parser stops only before a token that cannot go on: an expression ends before a token that is
neither a postfix operator nor a binary operator of its level, and an operand with its postfix
operators ends before a token that is no postfix operator.

The loop over binary operators is the last one that an expression goes through, and it looks for
binary operators only.  That no postfix operator stands there either is known of the operand before
it: of the first one if the loop ends at once, and otherwise of the right operand of the last
operator, whose minimum may be another one.  So this is an induction over a whole reading
(`Reads.stops`).

Two consequences for trees: a name that could be a postfix operator never joins two operands, and a
postfix operator behind the operand of a prefix operator belongs to the operand.
-/

namespace Reckoner

open ParserM

namespace Parser

variable {registry : Registry} {limit : Nat} {operand : Int → ParserM Node} {s t : ParserState}
  {node result : Node}

/-- The loop over postfix operators ends where there is none, since it has a round for each lexeme
that is left. -/
theorem not_isPostfix_of_postfixChain {rounds : Nat} (hrounds : s.left ≤ rounds)
    (hrun : (postfixChain registry limit rounds node).run s = (.ok result, t)) :
    ¬ registry.IsPostfix t.current.token := by
  induction rounds generalizing node s with
  | zero =>
      obtain ⟨rfl, rfl⟩ := run_pure_eq_ok.mp hrun
      rw [current_of_left hrounds]
      exact Registry.not_isPostfix_of_ne (by simp)
  | succ rounds ih =>
      by_cases hpostfix : registry.IsPostfix s.current.token
      · obtain ⟨op, htoken, hfind⟩ := hpostfix
        simp only [postfixChain] at hrun
        rw [run_peek_bind, htoken] at hrun
        simp only [if_pos hfind] at hrun
        obtain ⟨_, after, hadvance, hrest⟩ := run_bind_eq_ok.mp hrun
        obtain ⟨_, hloop⟩ := run_wrap_bind_eq_ok.mp hrest
        have hless := (tokens_of_current htoken (by simp) hadvance).2
        exact ih (by omega) hloop
      · rw [run_postfixChain_end hpostfix] at hrun
        cases hrun
        exact hpostfix

theorem not_isPostfix_of_primary
    (hrun : (primary registry limit operand).run s = (.ok result, t)) :
    ¬ registry.IsPostfix t.current.token := by
  obtain ⟨inner, behind, _, hrest⟩ := run_bind_eq_ok.mp hrun
  rw [run_roundsLeft_bind] at hrest
  exact not_isPostfix_of_postfixChain behind.left_le hrest

theorem stops_of_expression {depth : Nat} {minimum : Int}
    (hrun : (expression registry limit (limit - depth) minimum).run s = (.ok node, t)) :
    ¬ registry.IsPostfix t.current.token ∧ ¬ registry.IsBinary minimum t.current.token := by
  have hreads := (outcome_of_expression (Nat.sub_le limit depth) hrun).reads
  obtain ⟨later, hlater⟩ := t.tokens_eq_cons
  rw [hlater] at hreads
  exact hreads.stops

/-- Behind a prefix operator and its operand there is nothing left to take. -/
theorem prefixed_of_primary {depth : Nat} {op : Text} (hop : s.current.token = .operator op)
    (hrun : (primary registry limit (expression registry limit (limit - depth))).run s =
      (.ok result, t)) :
    ∃ operator after inner used, registry.findUnary? .prefixed op = some operator ∧
      advance.run s = (.ok (), after) ∧
      (expression registry limit (limit - depth) operator.precedence.level).run after =
        (.ok inner, t) ∧
      result.expr = .prefixed op inner.expr ∧ after.tokens = used ++ t.tokens ∧
      registry.Derives (.expression operator.precedence.level inner.expr) used := by
  obtain ⟨first, behind, hatom, hrest⟩ := run_bind_eq_ok.mp hrun
  unfold atom at hatom
  rw [run_peek_bind, hop] at hatom
  cases hfind : registry.findUnary? .prefixed op with
  | none =>
      simp only [hfind] at hatom
      exact absurd hatom run_reject_ne_ok
  | some operator =>
      simp only [hfind] at hatom
      obtain ⟨_, after, hadvance, hatom⟩ := run_bind_eq_ok.mp hatom
      obtain ⟨inner, ended, hinner, hatom⟩ := run_bind_eq_ok.mp hatom
      obtain ⟨_, rfl, rfl⟩ := run_wrap_eq_ok.mp hatom
      -- the operand ends before a token that is no postfix operator
      have hstops := (stops_of_expression hinner).1
      rw [run_roundsLeft_bind, run_postfixChain_end hstops] at hrest
      cases hrest
      have hreads := (outcome_of_expression (Nat.sub_le limit depth) hinner).reads
      obtain ⟨used, hused, hderives⟩ := hreads.derives
      exact ⟨operator, after, inner, used, rfl, hadvance, hinner, rfl, hused, hderives⟩

end Parser

namespace Registry

variable {registry : Registry}

/-- Among the nodes of a reading none joins operands by the name of a postfix operator. -/
theorem not_mem_names_of_apart (hreach : registry.Reachable) {e left right : Expr} {op : Text}
    (hapart : e.All registry.ApartAt) (hnode : .binary left op right ∈ e.nodes) :
    lower op ∉ registry.names (.unary .postfixed) := by
  have hnone : (registry.findUnary? .postfixed op).isSome = false := hapart _ hnode
  rw [← findUnary?_isSome_iff hreach, hnone]
  exact Bool.false_ne_true

/-! ## The result -/

/-- Where the parts of the parser end, and what that means for trees.  A part begins in any state
and with any number of calls under way. -/
structure ExpressionEndings (registry : Registry) (limit : Nat) : Prop where
  expression {depth : Nat} {minimum : Int} {s t : ParserState} {node : Node}
    (hrun : (Parser.expression registry limit (limit - depth) minimum).run s = (.ok node, t)) :
    ¬ registry.IsPostfix t.current.token ∧ ¬ registry.IsBinary minimum t.current.token
  primary {depth : Nat} {s t : ParserState} {node : Node}
    (hrun : (Parser.primary registry limit
      (Parser.expression registry limit (limit - depth))).run s = (.ok node, t)) :
    ¬ registry.IsPostfix t.current.token
  postfixes {s t : ParserState} {inner node : Node}
    (hrun : (do Parser.postfixChain registry limit (← Parser.roundsLeft) inner).run s =
      (.ok node, t)) : ¬ registry.IsPostfix t.current.token
  /-- No name of a postfix operator joins two operands, in the tree of an expression or of a
  text. -/
  binary {depth : Nat} {minimum : Int} {s t : ParserState} {node : Node} {left right : Expr}
    {op : Text}
    (hrun : (Parser.expression registry limit (limit - depth) minimum).run s = (.ok node, t))
    (hnode : .binary left op right ∈ node.expr.nodes) :
    lower op ∉ registry.names (.unary .postfixed)
  parsed {source : Text} {e left right : Expr} {op : Text}
    (hparse : registry.parse limit source = .ok e) (hnode : .binary left op right ∈ e.nodes) :
    lower op ∉ registry.names (.unary .postfixed)
  /-- What begins with a prefix operator ends with its operand, so a postfix operator behind the
  tokens of the operand would be one of them. -/
  prefixed {depth : Nat} {op : Text} {s t : ParserState} {node : Node}
    (hop : s.current.token = .operator op)
    (hrun : (Parser.primary registry limit
      (Parser.expression registry limit (limit - depth))).run s = (.ok node, t)) :
    ∃ operator after inner used, registry.findUnary? .prefixed op = some operator ∧
      Parser.advance.run s = (.ok (), after) ∧
      (Parser.expression registry limit (limit - depth) operator.precedence.level).run after =
        (.ok inner, t) ∧
      node.expr = .prefixed op inner.expr ∧ after.tokens = used ++ t.tokens ∧
      registry.Derives (.expression operator.precedence.level inner.expr) used

/-- **An expression ends only where it must**, from any state of the parser and for any minimum. -/
theorem expressionEndings (hreach : registry.Reachable) (limit : Nat) :
    registry.ExpressionEndings limit where
  expression := Parser.stops_of_expression
  primary := Parser.not_isPostfix_of_primary
  postfixes := by
    intro s t inner node hrun
    rw [run_roundsLeft_bind] at hrun
    exact Parser.not_isPostfix_of_postfixChain s.left_le hrun
  binary := by
    intro depth minimum s t node left right op hrun hnode
    have hreads := (Parser.outcome_of_expression (Nat.sub_le limit depth) hrun).reads
    exact not_mem_names_of_apart hreach hreads.apart hnode
  parsed hparse hnode := not_mem_names_of_apart hreach (reads_of_parse hparse).1.apart hnode
  prefixed := Parser.prefixed_of_primary

/-- The factorial belongs to the operand of the sign, and the power to neither. -/
theorem expressionEndings_factorial :
    let factorial := Expr.postfixed (.number (.ofInt 3)) "!".toList
    let e := Expr.binary (.prefixed "-".toList factorial) "^".toList (.number (.ofInt 2))
    standard.ExpressionEndings 4 ∧ standard.parse 4 "-3! ^ 2".toList = .ok e ∧
      lower "^".toList ∉ standard.names (.unary .postfixed) := by
  intro factorial e
  have hendings := expressionEndings reachable_standard 4
  have hparse : standard.parse 4 "-3! ^ 2".toList = .ok e := by
    decide +kernel
  have hnode : e ∈ e.nodes := by simp [e, Expr.nodes]
  exact ⟨hendings, hparse, hendings.parsed hparse hnode⟩

end Registry

end Reckoner
