import Reckoner.Proofs.Parser.Reading
import Reckoner.Proofs.Parser.Run

/-!
# The successful runs of the parser

A run of the parser that succeeds is a greedy reading of the tokens ahead of it,
and the other way round.

`Outcome` says what such a run leaves: the reading, a tree whose stored height is
its height and stays within the limit, and no more lexemes to come than before.
Each part of the parser is shown to leave an outcome if the function that it is
given for its operands does (`OperandOutcome`); the parser itself follows by
induction on its budget (`outcome_of_expression`).

Each loop is given a number of rounds.  That they never run out is the role of
`ParserState.left`: a round takes a lexeme, and where none is left the current
token is the end of input, at which every loop stops.
-/

namespace Reckoner

open ParserM

/-- What a run leaves that read a phrase into a node: a reading, a node whose
height is that of its tree and within the limit, and no further lexemes. -/
structure Outcome (registry : Registry) (limit budget : Nat) (phrase : Phrase) (node : Node)
    (s t : ParserState) : Prop where
  reads : registry.Reads budget phrase s.tokens t.tokens
  height_eq : node.height = node.expr.depth
  height_le : node.height ≤ limit
  left_le : t.left ≤ s.left

/-- Every successful run of a function for operands leaves an outcome. -/
def OperandOutcome (registry : Registry) (limit budget : Nat) (operand : Int → ParserM Node) :
    Prop :=
  ∀ ⦃minimum : Int⦄ ⦃s t : ParserState⦄ ⦃node : Node⦄,
    (operand minimum).run s = (.ok node, t) →
      Outcome registry limit budget (.expression minimum node.expr) node s t

namespace Parser

variable {registry : Registry} {limit budget : Nat} {operand : Int → ParserM Node}
  {s t : ParserState} {node result : Node}

theorem run_closing_eq_ok {opening span : Span} :
    (closing opening).run s = (.ok span, t) ↔
      s.current.token = .rightParen ∧ span = s.current.span ∧ advance.run s = (.ok (), t) := by
  unfold closing
  rw [run_peek_bind]
  split
  · next htoken =>
      rw [run_bind_eq_ok]
      constructor
      · rintro ⟨_, _, hadvance, hpure⟩
        obtain ⟨rfl, rfl⟩ := run_pure_eq_ok.mp hpure
        exact ⟨htoken, rfl, hadvance⟩
      · rintro ⟨_, rfl, hadvance⟩
        exact ⟨_, _, hadvance, run_pure⟩
  · next htoken => simp [run_snippet_throw, htoken]

/-- A successful `advance` takes the current token off the tokens ahead. -/
theorem tokens_of_current {u : Unit} {token : Token} (htoken : s.current.token = token)
    (hmore : token ≠ .endOfInput) (hadvance : advance.run s = (.ok u, t)) :
    s.tokens = token :: t.tokens ∧ t.left < s.left := by
  subst htoken
  exact tokens_of_advance hadvance hmore

theorem current_of_left (hleft : s.left ≤ 0) : s.current.token = .endOfInput := by
  unfold ParserState.left at hleft
  split at hleft
  · assumption
  · exact absurd hleft (Nat.not_succ_le_zero _)

/-! ## Postfix operators -/

/-- The loop stops before a token that is no postfix operator. -/
private theorem outcome_postfixesEnd (heq : node.height = node.expr.depth)
    (hle : node.height ≤ limit) (hstop : ¬ registry.IsPostfix s.current.token) :
    Outcome registry limit budget (.postfixes node.expr node.expr) node s s := by
  obtain ⟨later, htokens⟩ := s.tokens_eq_cons
  exact ⟨htokens ▸ .postfixesEnd hstop, heq, hle, Nat.le_refl _⟩

theorem outcome_of_postfixChain {rounds : Nat} (hrounds : s.left ≤ rounds)
    (heq : node.height = node.expr.depth) (hle : node.height ≤ limit)
    (hrun : (postfixChain registry limit rounds node).run s = (.ok result, t)) :
    Outcome registry limit budget (.postfixes node.expr result.expr) result s t := by
  induction rounds generalizing node s with
  | zero =>
      obtain ⟨rfl, rfl⟩ := run_pure_eq_ok.mp hrun
      refine outcome_postfixesEnd heq hle ?_
      -- without a lexeme left, the current token is the end of input
      rw [current_of_left hrounds]
      exact Registry.not_isPostfix_of_ne (by simp)
  | succ rounds ih =>
      simp only [postfixChain] at hrun
      rw [run_peek_bind] at hrun
      split at hrun
      · next op htoken =>
          split at hrun
          · next hfind =>
              obtain ⟨_, after, hadvance, hrest⟩ := run_bind_eq_ok.mp hrun
              obtain ⟨hlimit, hloop⟩ := run_wrap_bind_eq_ok.mp hrest
              obtain ⟨htokens, hless⟩ := tokens_of_current htoken (by simp) hadvance
              have hlater := ih (by omega) (by simp only [heq, Expr.depth]; omega) hlimit hloop
              exact ⟨htokens ▸ .postfixes hfind hlater.reads, hlater.height_eq, hlater.height_le,
                Nat.le_trans hlater.left_le (Nat.le_of_lt hless)⟩
          · next hfind =>
              obtain ⟨rfl, rfl⟩ := run_pure_eq_ok.mp hrun
              refine outcome_postfixesEnd heq hle ?_
              rintro ⟨_, h, hsome⟩
              obtain rfl := Token.operator.inj (htoken.symm.trans h)
              exact hfind hsome
      · next hother =>
          obtain ⟨rfl, rfl⟩ := run_pure_eq_ok.mp hrun
          exact outcome_postfixesEnd heq hle (Registry.not_isPostfix_of_ne hother)

/-! ## Binary operators -/

private theorem outcome_chainEnd {minimum : Int} (heq : node.height = node.expr.depth)
    (hle : node.height ≤ limit) (hstop : ¬ registry.IsBinary minimum s.current.token) :
    Outcome registry limit budget (.chain minimum node.expr node.expr) node s s := by
  obtain ⟨later, htokens⟩ := s.tokens_eq_cons
  exact ⟨htokens ▸ .chainEnd hstop, heq, hle, Nat.le_refl _⟩

theorem outcome_of_binaryChain (hoperand : OperandOutcome registry limit budget operand)
    {minimum : Int} {rounds : Nat} (hrounds : s.left ≤ rounds)
    (heq : node.height = node.expr.depth) (hle : node.height ≤ limit)
    (hrun : (binaryChain registry limit operand minimum rounds node).run s = (.ok result, t)) :
    Outcome registry limit budget (.chain minimum node.expr result.expr) result s t := by
  induction rounds generalizing node s with
  | zero =>
      obtain ⟨rfl, rfl⟩ := run_pure_eq_ok.mp hrun
      refine outcome_chainEnd heq hle ?_
      rw [current_of_left hrounds]
      exact Registry.not_isBinary_of_ne (by simp)
  | succ rounds ih =>
      simp only [binaryChain] at hrun
      rw [run_peek_bind] at hrun
      split at hrun
      · next op htoken =>
          split at hrun
          · next hfind =>
              obtain ⟨rfl, rfl⟩ := run_pure_eq_ok.mp hrun
              refine outcome_chainEnd heq hle ?_
              rintro ⟨_, _, h, hsome, _⟩
              obtain rfl := Token.operator.inj (htoken.symm.trans h)
              exact absurd hsome (by simp [hfind])
          · next operator hfind =>
              split at hrun
              · next hlevel =>
                  obtain ⟨rfl, rfl⟩ := run_pure_eq_ok.mp hrun
                  refine outcome_chainEnd heq hle ?_
                  rintro ⟨_, _, h, hsome, hge⟩
                  obtain rfl := Token.operator.inj (htoken.symm.trans h)
                  obtain rfl := Option.some.inj (hfind.symm.trans hsome)
                  exact absurd hlevel (Int.not_lt.mpr hge)
              · next hlevel =>
                  obtain ⟨_, after, hadvance, hrest⟩ := run_bind_eq_ok.mp hrun
                  obtain ⟨right, behind, hright, hjoin⟩ := run_bind_eq_ok.mp hrest
                  obtain ⟨hlimit, hloop⟩ := run_wrap_bind_eq_ok.mp hjoin
                  obtain ⟨htokens, hless⟩ := tokens_of_current htoken (by simp) hadvance
                  have hright := hoperand hright
                  have hleft := hright.left_le
                  have hlater := ih (by omega)
                    (by simp only [heq, hright.height_eq, Expr.depth]) hlimit hloop
                  exact ⟨htokens ▸ .chain hfind (Int.not_lt.mp hlevel) hright.reads hlater.reads,
                    hlater.height_eq, hlater.height_le, Nat.le_trans hlater.left_le (by omega)⟩
      · next hother =>
          obtain ⟨rfl, rfl⟩ := run_pure_eq_ok.mp hrun
          exact outcome_chainEnd heq hle (Registry.not_isBinary_of_ne hother)

/-! ## Calls -/

/-- The nodes that a run has read as arguments. -/
structure ArgumentsOutcome (registry : Registry) (limit budget : Nat)
    (phrase : List Expr → Phrase) (nodes : List Node) (s t : ParserState) : Prop where
  reads : registry.Reads budget (phrase (nodes.map (·.expr))) s.tokens t.tokens
  height_eq : ∀ node ∈ nodes, node.height = node.expr.depth
  left_le : t.left ≤ s.left

private theorem outcome_othersEnd (hstop : s.current.token ≠ .comma) :
    ArgumentsOutcome registry limit budget .others [] s s := by
  obtain ⟨later, htokens⟩ := s.tokens_eq_cons
  exact ⟨htokens ▸ .othersEnd hstop, by simp, Nat.le_refl _⟩

theorem outcome_of_arguments (hoperand : OperandOutcome registry limit budget operand)
    {rounds : Nat} (hrounds : s.left ≤ rounds) {args results : List Node}
    (hrun : (arguments operand rounds args).run s = (.ok results, t)) :
    ∃ nodes, results = args ++ nodes ∧
      ArgumentsOutcome registry limit budget .others nodes s t := by
  induction rounds generalizing args s with
  | zero =>
      obtain ⟨rfl, rfl⟩ := run_pure_eq_ok.mp hrun
      exact ⟨[], by simp, outcome_othersEnd (by simp [current_of_left hrounds])⟩
  | succ rounds ih =>
      simp only [arguments] at hrun
      rw [run_peek_bind] at hrun
      split at hrun
      · next htoken =>
          obtain ⟨_, after, hadvance, hrest⟩ := run_bind_eq_ok.mp hrun
          obtain ⟨first, behind, hfirst, hloop⟩ := run_bind_eq_ok.mp hrest
          obtain ⟨htokens, hless⟩ := tokens_of_current htoken (by simp) hadvance
          have hfirst := hoperand hfirst
          have hleft := hfirst.left_le
          obtain ⟨nodes, rfl, hothers⟩ := ih (by omega) hloop
          refine ⟨first :: nodes, by simp, ?_, ?_, Nat.le_trans hothers.left_le (by omega)⟩
          · exact htokens ▸ .others hfirst.reads hothers.reads
          · exact List.forall_mem_cons.mpr ⟨hfirst.height_eq, hothers.height_eq⟩
      · next htoken =>
          obtain ⟨rfl, rfl⟩ := run_pure_eq_ok.mp hrun
          exact ⟨[], by simp, outcome_othersEnd htoken⟩

theorem outcome_of_argumentList (hoperand : OperandOutcome registry limit budget operand)
    {nodes : List Node} (hrun : (argumentList operand).run s = (.ok nodes, t)) :
    ArgumentsOutcome registry limit budget .arguments nodes s t ∨
      nodes = [] ∧ s = t ∧ s.current.token = .rightParen := by
  unfold argumentList at hrun
  rw [run_peek_bind] at hrun
  split at hrun
  · next htoken =>
      obtain ⟨rfl, rfl⟩ := run_pure_eq_ok.mp hrun
      exact Or.inr ⟨rfl, rfl, htoken⟩
  · obtain ⟨first, behind, hfirst, hloop⟩ := run_bind_eq_ok.mp hrun
    rw [run_roundsLeft_bind] at hloop
    have hfirst := hoperand hfirst
    obtain ⟨others, rfl, hothers⟩ := outcome_of_arguments hoperand behind.left_le hloop
    refine Or.inl ⟨.arguments hfirst.reads hothers.reads, ?_, ?_⟩
    · exact List.forall_mem_cons.mpr ⟨hfirst.height_eq, hothers.height_eq⟩
    · exact Nat.le_trans hothers.left_le hfirst.left_le

/-- The height of a call is one more than that of its highest argument. -/
theorem foldr_height_eq_maxDepth {nodes : List Node}
    (heq : ∀ node ∈ nodes, node.height = node.expr.depth) :
    (nodes.map (·.height)).foldr max 0 = Expr.maxDepth (nodes.map (·.expr)) := by
  induction nodes with
  | nil => rfl
  | cons node nodes ih =>
      obtain ⟨hnode, hnodes⟩ := List.forall_mem_cons.mp heq
      simp only [List.map_cons, List.foldr_cons, Expr.maxDepth, hnode, ih hnodes]

/-- What a closing parenthesis leaves behind it. -/
theorem tokens_of_closing {opening span : Span}
    (hrun : (closing opening).run s = (.ok span, t)) :
    s.tokens = .rightParen :: t.tokens ∧ t.left < s.left := by
  obtain ⟨htoken, _, hadvance⟩ := run_closing_eq_ok.mp hrun
  exact tokens_of_current htoken (by simp) hadvance

theorem outcome_of_call (hoperand : OperandOutcome registry limit budget operand) {name : Text}
    (htoken : s.current.token = .function name)
    (hrun : (call registry limit operand name).run s = (.ok result, t)) :
    Outcome registry limit budget (.operand result.expr) result s t := by
  simp only [call] at hrun
  rw [run_peek_bind] at hrun
  split at hrun
  · exact absurd hrun run_reject_ne_ok
  next f hfind =>
  obtain ⟨_, opened, hadvance, hrest⟩ := run_bind_eq_ok.mp hrun
  rw [run_peek_bind] at hrest
  split at hrest
  · exact absurd hrest run_reject_ne_ok
  next hopening =>
  obtain ⟨_, inside, hinside, hrest⟩ := run_bind_eq_ok.mp hrest
  obtain ⟨nodes, behind, hargs, hrest⟩ := run_bind_eq_ok.mp hrest
  obtain ⟨close, after, hclosing, hrest⟩ := run_bind_eq_ok.mp hrest
  split at hrest
  · exact absurd hrest run_snippet_throw_ne_ok
  next harity =>
  obtain ⟨hlimit, rfl, rfl⟩ := run_wrap_eq_ok.mp hrest
  obtain ⟨htokens, hless⟩ := tokens_of_current htoken (by simp) hadvance
  obtain ⟨hopened, hopenedLess⟩ :=
    tokens_of_current (Decidable.not_not.mp hopening) (by simp) hinside
  obtain ⟨hbehind, hbehindLess⟩ := tokens_of_closing hclosing
  obtain ⟨token, later, hlater⟩ : ∃ token later, t.tokens = token :: later :=
    ⟨_, t.tokens_eq_cons⟩
  have hheights : ArgumentsOutcome registry limit budget .arguments nodes inside behind := by
    rcases outcome_of_argumentList hoperand hargs with hargs | ⟨rfl, rfl, _⟩
    · exact hargs
    · exact ⟨hbehind ▸ .noArguments, by simp, Nat.le_refl _⟩
  have hleft := hheights.left_le
  have harity : (nodes.map (·.expr)).length = f.arity := by simpa using harity
  refine ⟨?_, ?_, hlimit, by omega⟩
  · have hreads := hheights.reads
    rw [hbehind, hlater] at hreads
    rw [htokens, hopened, hlater]
    exact .call hfind harity hreads
  · simp only [Expr.depth, foldr_height_eq_maxDepth hheights.height_eq]

/-! ## Expressions -/

theorem outcome_of_atom (hlimit : 0 < limit)
    (hoperand : OperandOutcome registry limit budget operand)
    (hrun : (atom registry limit operand).run s = (.ok result, t)) :
    Outcome registry limit budget (.operand result.expr) result s t := by
  unfold atom at hrun
  rw [run_peek_bind] at hrun
  obtain ⟨token, later, hlater⟩ : ∃ token later, t.tokens = token :: later :=
    ⟨_, t.tokens_eq_cons⟩
  split at hrun
  · next value htoken =>
      obtain ⟨_, after, hadvance, hrest⟩ := run_bind_eq_ok.mp hrun
      obtain ⟨rfl, rfl⟩ := run_pure_eq_ok.mp hrest
      obtain ⟨htokens, hless⟩ := tokens_of_current htoken (by simp) hadvance
      refine ⟨?_, rfl, hlimit, Nat.le_of_lt hless⟩
      rw [htokens, hlater]
      exact .number
  · next htoken =>
      obtain ⟨_, after, hadvance, hrest⟩ := run_bind_eq_ok.mp hrun
      obtain ⟨inner, behind, hinner, hrest⟩ := run_bind_eq_ok.mp hrest
      obtain ⟨close, closed, hclosing, hrest⟩ := run_bind_eq_ok.mp hrest
      obtain ⟨rfl, rfl⟩ := run_pure_eq_ok.mp hrest
      obtain ⟨htokens, hless⟩ := tokens_of_current htoken (by simp) hadvance
      obtain ⟨hbehind, hbehindLess⟩ := tokens_of_closing hclosing
      have hinner := hoperand hinner
      have hleft := hinner.left_le
      refine ⟨?_, hinner.height_eq, hinner.height_le, by omega⟩
      have hreads := hinner.reads
      rw [hbehind, hlater] at hreads
      rw [htokens, hlater]
      exact .group hreads
  · next op htoken =>
      split at hrun
      · exact absurd hrun run_reject_ne_ok
      next operator hfind =>
      obtain ⟨_, after, hadvance, hrest⟩ := run_bind_eq_ok.mp hrun
      obtain ⟨inner, behind, hinner, hrest⟩ := run_bind_eq_ok.mp hrest
      obtain ⟨hheight, rfl, rfl⟩ := run_wrap_eq_ok.mp hrest
      obtain ⟨htokens, hless⟩ := tokens_of_current htoken (by simp) hadvance
      have hinner := hoperand hinner
      have hleft := hinner.left_le
      refine ⟨htokens ▸ .prefixed hfind hinner.reads, ?_, hheight, by omega⟩
      simp only [Expr.depth, hinner.height_eq, Nat.add_comm]
  · next name htoken => exact outcome_of_call hoperand htoken hrun
  · exact absurd hrun run_reject_ne_ok

theorem outcome_of_primary (hlimit : 0 < limit)
    (hoperand : OperandOutcome registry limit budget operand)
    (hrun : (primary registry limit operand).run s = (.ok result, t)) :
    Outcome registry limit budget (.primary result.expr) result s t := by
  obtain ⟨inner, behind, hatom, hrest⟩ := run_bind_eq_ok.mp hrun
  rw [run_roundsLeft_bind] at hrest
  have hatom := outcome_of_atom hlimit hoperand hatom
  have hpostfixes : Outcome registry limit budget (.postfixes inner.expr result.expr) _ _ _ :=
    outcome_of_postfixChain behind.left_le hatom.height_eq hatom.height_le hrest
  exact ⟨.primary hatom.reads hpostfixes.reads, hpostfixes.height_eq, hpostfixes.height_le,
    Nat.le_trans hpostfixes.left_le hatom.left_le⟩

/-- **A successful run is a greedy reading** of the tokens ahead, and the height
that it stores is the height of the tree. -/
theorem outcome_of_expression (hbudget : budget ≤ limit) :
    OperandOutcome registry limit budget (expression registry limit budget) := by
  induction budget with
  | zero =>
      intro minimum s t node hrun
      exact absurd hrun run_expression_zero_ne_ok
  | succ budget ih =>
      intro minimum s t node hrun
      have hoperand := ih (Nat.le_of_succ_le hbudget)
      obtain ⟨left, behind, hprimary, hrest⟩ := run_bind_eq_ok.mp hrun
      rw [run_roundsLeft_bind] at hrest
      have hprimary := outcome_of_primary (by omega) hoperand hprimary
      have hchain :=
        outcome_of_binaryChain hoperand behind.left_le hprimary.height_eq hprimary.height_le hrest
      exact ⟨.expression hprimary.reads hchain.reads, hchain.height_eq, hchain.height_le,
        Nat.le_trans hchain.left_le hprimary.left_le⟩

end Parser

end Reckoner
