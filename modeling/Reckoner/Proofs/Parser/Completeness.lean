import Reckoner.Expr.Equality
import Reckoner.Proofs.Parser.Acceptance
import Reckoner.Proofs.Parser.Execution
import Reckoner.Proofs.Registry.Identifiers

/-!
# Completeness of the parser

The parser decides greedily where an operand ends, while the grammar leaves it
open.  Nothing is lost by that, unless a name is both a binary and a postfix
operator: tokens that can be derived in any way are read.

Both sides meet at the acceptor.  Derived tokens are accepted
(`Derives.accepts`), and accepted tokens are read greedily
(`exists_reads_of_accepts`).  For the latter, the innermost expression that can
take an operator takes it; the expressions that end before it have minimums
above the level of the operator, so the least minimum stays open.  At the end of
an expression its own minimum can be left out (`Accepts.leave`), because the next
token does not belong to it (`Reads.stops`).

Every open expression has taken a token, so a limit that is no less than the
number of tokens is never reached, neither by nesting nor by the height of the
tree (`depth_le_length_tokens`).
-/

namespace Reckoner

/-! ## Heights and tokens -/

namespace Expr

mutual

/-- A tree is no higher than it has tokens. -/
theorem depth_le_length_tokens : ∀ e : Expr, e.depth ≤ e.tokens.length
  | number _ => by simp [depth]
  | binary left _ right => by
      have hleft := depth_le_length_tokens left
      have hright := depth_le_length_tokens right
      simp only [depth, tokens, List.length_append, List.length_cons]
      omega
  | prefixed _ operand => by
      have hoperand := depth_le_length_tokens operand
      simp only [depth, tokens, List.length_cons]
      omega
  | postfixed operand _ => by
      have hoperand := depth_le_length_tokens operand
      simp only [depth, tokens, List.length_append, List.length_singleton]
      omega
  | call _ args => by
      have hargs := maxDepth_le_length_tokensAll args
      simp only [depth, tokens, List.length_cons]
      omega

theorem maxDepth_le_length_tokensAll : ∀ es : List Expr, maxDepth es ≤ (tokensAll es).length
  | [] => Nat.le_refl _
  | e :: es => by
      have hfirst := depth_le_length_tokens e
      have hothers := maxDepth_le_length_tokensAll es
      simp only [maxDepth, tokensAll, List.length_append]
      omega

end

end Expr

namespace Registry

theorem Derives.depth_le_length {registry : Registry} {minimum : Int} {e : Expr}
    {used : List Token} (hderives : registry.Derives (.expression minimum e) used) :
    e.depth ≤ used.length := by
  calc
    e.depth ≤ e.tokens.length := e.depth_le_length_tokens
    _ = (used.filter Token.isContent).length := by rw [hderives.tokens_expression]
    _ ≤ used.length := List.length_filter_le _ _

/-! ## Leaving an expression -/

/-- No name stands for a binary and a postfix operator. -/
def OperatorsApart (registry : Registry) : Prop :=
  ∀ name ∈ registry.names .binary, name ∉ registry.names (.unary .postfixed)

variable {registry : Registry} {minimum : Int} {frames : List Frame} {token : Token}
  {ts rest : List Token}

theorem OperatorsApart.not_postfixed (hapart : registry.OperatorsApart)
    (hreach : registry.Reachable) {op : Text}
    {operator : BinaryOperator} (hfind : registry.findBinary? op = some operator) :
    ¬ (registry.findUnary? .postfixed op).isSome = true := by
  intro hpost
  have hname := (findBinary?_isSome_iff hreach).mp (Option.isSome_of_eq_some hfind)
  exact hapart _ hname ((findUnary?_isSome_iff hreach).mp hpost)

/-- The minimum of an expression plays no part behind its end. -/
theorem Accepts.leave {own : Int}
    (haccepts : registry.Accepts .operator (min minimum own) frames (token :: rest))
    (hpost : ¬ registry.IsPostfix token) (hbinary : ¬ registry.IsBinary own token) :
    registry.Accepts .operator minimum frames (token :: rest) := by
  cases haccepts with
  | postfixed hfind _ => exact absurd ⟨_, rfl, hfind⟩ hpost
  | binary hfind hlevel hlater =>
      have hbelow := Int.not_le.mp fun hle => hbinary ⟨_, _, rfl, hfind, hle⟩
      have hleast : min minimum own = minimum := by omega
      rw [hleast] at hlevel hlater
      exact .binary hfind hlevel hlater
  | closing hlater => exact .closing hlater
  | comma hlater => exact .comma hlater
  | ended => exact .ended

/-! ## Greedy reading of accepted tokens -/

/-- Some tree is read of the tokens as a part of the grammar, and the rest is
accepted. -/
def ReadsOn (registry : Registry) (budget : Nat) (part : Expr → Phrase) (minimum : Int)
    (frames : List Frame) (ts : List Token) : Prop :=
  ∃ e rest, registry.Reads budget (part e) ts rest ∧
    registry.Accepts .operator minimum frames rest

/-- All accepted tokens up to a number are read as expressions. -/
def ReadsUpTo (registry : Registry) (budget : Nat) : Prop :=
  ∀ (minimum own : Int) {frames : List Frame} {ts : List Token}, ts.length ≤ budget →
    registry.Accepts .operand (min minimum own) frames ts →
    registry.ReadsOn budget (.expression own) minimum frames ts

variable {budget : Nat}

theorem readsOn_postfixes (budget : Nat) (hreach : registry.Reachable)
    (hapart : registry.OperatorsApart)
    (haccepts : registry.Accepts .operator minimum frames ts) (inner : Expr) :
    registry.ReadsOn budget (.postfixes inner) minimum frames ts := by
  induction ts generalizing inner with
  | nil =>
      obtain ⟨_, _, hcons⟩ := haccepts.exists_cons
      simp at hcons
  | cons token later ih =>
      by_cases hpost : registry.IsPostfix token
      · obtain ⟨op, rfl, hfind⟩ := hpost
        -- a postfix operator was not accepted as a binary one
        cases haccepts with
        | postfixed _ hlater =>
            obtain ⟨e, rest, hreads, hrest⟩ := ih hlater (.postfixed inner op)
            exact ⟨e, rest, .postfixes hfind hreads, hrest⟩
        | binary hbinary _ _ => exact absurd hfind (hapart.not_postfixed hreach hbinary)
      · exact ⟨inner, _, .postfixesEnd hpost, haccepts⟩

theorem readsOn_chain (hreach : registry.Reachable) (hapart : registry.OperatorsApart)
    (hbudget : registry.ReadsUpTo budget)
    {own : Int} (hown : minimum ≤ own) (hlength : ts.length ≤ budget + 1)
    (haccepts : registry.Accepts .operator minimum frames ts) (left : Expr) :
    registry.ReadsOn budget (.chain own left) minimum frames ts := by
  -- on the number of tokens, since a right operand takes several of them
  induction hsize : ts.length using Nat.strongRecOn generalizing ts left with
  | ind size ih =>
      obtain ⟨token, later, rfl⟩ := haccepts.exists_cons
      by_cases hbinary : registry.IsBinary own token
      · obtain ⟨op, operator, rfl, hfind, hlevel⟩ := hbinary
        -- the right operand leaves the least minimum as it is
        have hopen := level_le_rightMinimum operator
        have hleast : min minimum operator.rightMinimum = minimum := by omega
        cases haccepts with
        | postfixed hpost _ => exact absurd hpost (hapart.not_postfixed hreach hfind)
        | binary _ _ hlater =>
            simp only [List.length_cons] at hlength hsize
            obtain ⟨right, middle, hright, hmiddle⟩ :=
              hbudget minimum operator.rightMinimum (by omega) (hleast.symm ▸ hlater)
            have hshorter := hright.length_le
            obtain ⟨e, rest, hchain, hrest⟩ :=
              ih middle.length (by omega) (by omega) hmiddle (.binary left op right) rfl
            exact ⟨e, rest, .chain hfind hlevel hright hchain, hrest⟩
      · exact ⟨left, _, .chainEnd hbinary, haccepts⟩

/-- An argument is read, and behind it the parentheses are closed or another one
follows. -/
theorem reads_argument (hbudget : registry.ReadsUpTo budget) {outer : Int} {missing : Nat}
    (hlength : ts.length ≤ budget)
    (haccepts : registry.Accepts .operand 0 (⟨outer, missing⟩ :: frames) ts) :
    ∃ e token rest, registry.Reads budget (.expression 0 e) ts (token :: rest) ∧
      ((token = .rightParen ∧ missing = 0 ∧ registry.Accepts .operator outer frames rest) ∨
        ∃ fewer, token = .comma ∧ missing = fewer + 1 ∧
          registry.Accepts .operand 0 (⟨outer, fewer⟩ :: frames) rest) := by
  obtain ⟨e, behind, hreads, hbehind⟩ := hbudget 0 0 hlength haccepts
  obtain ⟨token, rest, rfl⟩ := hbehind.exists_cons
  refine ⟨e, token, rest, hreads, ?_⟩
  cases hbehind with
  | postfixed hfind _ => exact absurd ⟨_, rfl, hfind⟩ hreads.stops.1
  | binary hfind hlevel _ => exact absurd ⟨_, _, rfl, hfind, hlevel⟩ hreads.stops.2
  | closing hlater => exact .inl ⟨rfl, rfl, hlater⟩
  | comma hlater => exact .inr ⟨_, rfl, rfl, hlater⟩

theorem reads_arguments (hbudget : registry.ReadsUpTo budget) {outer : Int} {missing : Nat}
    (hlength : ts.length ≤ budget)
    (haccepts : registry.Accepts .operand 0 (⟨outer, missing⟩ :: frames) ts) :
    ∃ args behind, args.length = missing + 1 ∧
      registry.Reads budget (.arguments args) ts (.rightParen :: behind) ∧
      registry.Accepts .operator outer frames behind := by
  induction missing generalizing ts with
  | zero =>
      obtain ⟨e, token, rest, hfirst, ⟨rfl, _, hbehind⟩ | ⟨fewer, _, h, _⟩⟩ :=
        reads_argument hbudget hlength haccepts
      · exact ⟨[e], rest, rfl, .arguments hfirst (.othersEnd (by simp)), hbehind⟩
      · simp at h
  | succ missing ih =>
      obtain ⟨e, token, rest, hfirst, ⟨_, h, _⟩ | ⟨fewer, rfl, h, hlater⟩⟩ :=
        reads_argument hbudget hlength haccepts
      · simp at h
      · obtain rfl : missing = fewer := Nat.succ.inj h
        have hshorter := hfirst.length_le
        rw [List.length_cons] at hshorter
        obtain ⟨args, behind, hcount, hothers, hbehind⟩ := ih (by omega) hlater
        -- the first of the arguments that follow moves behind the comma
        cases hothers with
        | noArguments => simp at hcount
        | arguments hsecond hothers =>
            exact ⟨_, behind, by simp [hcount], .arguments hfirst (.others hsecond hothers), hbehind⟩

theorem readsOn_operand (hbudget : registry.ReadsUpTo budget) (hlength : ts.length ≤ budget + 1)
    (haccepts : registry.Accepts .operand minimum frames ts) :
    registry.ReadsOn budget .operand minimum frames ts := by
  cases haccepts with
  | number hlater =>
      obtain ⟨next, later, rfl⟩ := hlater.exists_cons
      exact ⟨_, _, .number, hlater⟩
  | group hlater =>
      simp only [List.length_cons] at hlength
      -- a group misses no argument, so no comma follows
      obtain ⟨e, token, rest, hinner, ⟨rfl, _, hbehind⟩ | ⟨fewer, _, h, _⟩⟩ :=
        reads_argument hbudget (by omega) hlater
      · obtain ⟨after, behind, rfl⟩ := hbehind.exists_cons
        exact ⟨e, _, .group hinner, hbehind⟩
      · simp at h
  | prefixed hfind hlater =>
      simp only [List.length_cons] at hlength
      obtain ⟨e, rest, hoperand, hrest⟩ := hbudget _ _ (by omega) hlater
      exact ⟨_, rest, .prefixed hfind hoperand, hrest⟩
  | emptyCall hfind harity hlater =>
      obtain ⟨next, later, rfl⟩ := hlater.exists_cons
      exact ⟨_, _, .call hfind (List.length_nil.trans harity.symm) .noArguments, hlater⟩
  | call hfind harity hlater =>
      simp only [List.length_cons] at hlength
      obtain ⟨args, behind, hcount, hargs, hbehind⟩ :=
        reads_arguments hbudget (by omega) hlater
      obtain ⟨after, behind, rfl⟩ := hbehind.exists_cons
      exact ⟨_, _, .call hfind (hcount.trans harity.symm) hargs, hbehind⟩

/-- **Accepted tokens are read greedily.** -/
theorem readsUpTo (hreach : registry.Reachable) (hapart : registry.OperatorsApart) (budget : Nat) :
    registry.ReadsUpTo budget := by
  induction budget with
  | zero =>
      intro minimum own frames ts hlength haccepts
      obtain ⟨token, later, rfl⟩ := haccepts.exists_cons
      simp at hlength
  | succ budget ih =>
      intro minimum own frames ts hlength haccepts
      obtain ⟨inner, middle, hoperand, hmiddle⟩ := readsOn_operand ih hlength haccepts
      obtain ⟨left, middle', hpostfixes, hmiddle'⟩ :=
        readsOn_postfixes budget hreach hapart hmiddle inner
      have hshorter := hoperand.length_le
      have hshorter' := hpostfixes.length_le
      obtain ⟨e, rest, hchain, hrest⟩ :=
        readsOn_chain hreach hapart ih (Int.min_le_right minimum own) (by omega) hmiddle' left
      have hreads := Reads.expression (.primary hoperand hpostfixes) hchain
      obtain ⟨token, later, rfl⟩ := hrest.exists_cons
      exact ⟨e, _, hreads, hrest.leave hreads.stops.1 hreads.stops.2⟩

end Registry

/-! ## Texts -/

/-- **Completeness.**  A text whose tokens can be derived in some way is read, if
no name is both a binary and a postfix operator and the limit exceeds the number
of tokens. -/
theorem Registry.exists_parse_of_derives {registry : Registry} (hreach : registry.Reachable)
    (hapart : registry.OperatorsApart) {source : Text} {lexemes : List Lexeme} {e : Expr}
    (hlexes : registry.Tokenizes source lexemes)
    (hderives : registry.Derives (.expression 0 e) (lexemes.map (·.token))) {limit : Nat}
    (hlimit : lexemes.length + 1 ≤ limit) :
    ∃ tree, registry.parse limit source = .ok tree := by
  obtain ⟨tree, rest, hreads, hrest⟩ :=
    readsUpTo hreach hapart limit 0 0 (by simpa using hlimit) hderives.accepts
  obtain ⟨token, later, rfl⟩ := hrest.exists_cons
  -- outside all parentheses nothing but the end of input can follow
  have hended : token :: later = [.endOfInput] := by
    cases hrest with
    | postfixed hfind _ => exact absurd ⟨_, rfl, hfind⟩ hreads.stops.1
    | binary hfind hlevel _ => exact absurd ⟨_, _, rfl, hfind, hlevel⟩ hreads.stops.2
    | ended => rfl
  rw [hended] at hreads
  -- the tree is no higher than the text has tokens
  have hdepth : tree.depth ≤ limit := by
    have hle := hreads.derives_append.depth_le_length
    rw [List.length_map] at hle
    omega
  exact ⟨tree, (parse_eq_ok_iff hreach).mpr ⟨lexemes, hlexes, hreads, hdepth⟩⟩

/-- Powers that a derivation groups to the left, other than the parser. -/
theorem Registry.exists_parse_of_derives_powers :
    ∃ tree, Registry.standard.parse 6 "2^3^4".toList = .ok tree ∧
      tree = .binary (.number (.ofInt 2)) "^".toList
        (.binary (.number (.ofInt 3)) "^".toList (.number (.ofInt 4))) := by
  let power := "^".toList
  let number (i : Int) : Expr := .number (.ofInt i)
  have htokens : (LexemeStream.ofText Registry.standard "2^3^4".toList).tokens =
      [.number (.ofInt 2), .operator power, .number (.ofInt 3), .operator power,
        .number (.ofInt 4)] ++ [.endOfInput] := by
    decide +kernel
  obtain ⟨lexemes, hlexes, hmap⟩ :=
    (LexemeStream.tokens_ofText_eq_iff Registry.reachable_standard).mp htokens
  have hapart : Registry.standard.OperatorsApart := by
    unfold Registry.OperatorsApart
    decide +kernel
  have hoperand (i : Int) : Registry.standard.Derives (.primary (number i)) [.number (.ofInt i)] :=
    .primary .number .postfixesEnd
  have hpower {left e : Expr} {later : List Token} (i : Int)
      (hchain : Registry.standard.Derives (.chain 0 (.binary left power (number i)) e) later) :
      Registry.standard.Derives (.chain 0 left e)
        (.operator power :: ([.number (.ofInt i)] ++ later)) :=
    .chain rfl (by decide) (.expression (hoperand i) .chainEnd) hchain
  have hderives : Registry.standard.Derives
      (.expression 0 (.binary (.binary (number 2) power (number 3)) power (number 4)))
      (lexemes.map (·.token)) :=
    hmap ▸ .expression (hoperand 2) (hpower 3 (hpower 4 .chainEnd))
  have hlength : lexemes.length = 5 := by simpa using congrArg List.length hmap
  have hlimit : lexemes.length + 1 ≤ 6 := by omega
  obtain ⟨tree, hparse⟩ := Registry.exists_parse_of_derives Registry.reachable_standard hapart
    hlexes hderives hlimit
  have hright : Registry.standard.parse 6 "2^3^4".toList =
      .ok (.binary (.number (.ofInt 2)) "^".toList
        (.binary (.number (.ofInt 3)) "^".toList (.number (.ofInt 4)))) := by
    decide +kernel
  exact ⟨tree, hparse, Except.ok.inj (hparse.symm.trans hright)⟩

end Reckoner
