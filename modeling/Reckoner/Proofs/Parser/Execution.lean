import Reckoner.Proofs.Parser.Outcome

/-!
# Readings are carried out

The converse of `outcome_of_expression`: whatever can be read of the tokens ahead
within the budget, and is no higher than the limit, the parser reads.  With it,
`Registry.parse_eq_ok_iff` says what it means for a text to be an expression: the
lexer splits it, its tokens can be read within the limit up to the end of input,
and the tree is no higher than the limit.
-/

namespace Reckoner

open ParserM

/-- A tree with its height. -/
def Node.ofExpr (e : Expr) : Node := ⟨e, e.depth⟩

/-- A run that ends with a value and leaves the given tokens. -/
def ParserM.Leaves {α : Type} (m : ParserM α) (s : ParserState) (a : α) (rest : List Token) :
    Prop :=
  ∃ t, m.run s = (.ok a, t) ∧ t.tokens = rest

namespace ParserM

variable {α β : Type} {m : ParserM α} {f : α → ParserM β} {s : ParserState} {a : α} {b : β}
  {rest : List Token}

theorem Leaves.bind {middle : List Token} (hfirst : m.Leaves s a middle)
    (hnext : ∀ t, t.tokens = middle → (f a).Leaves t b rest) : (m >>= f).Leaves s b rest := by
  obtain ⟨t, hrun, htokens⟩ := hfirst
  obtain ⟨u, hlater, hrest⟩ := hnext t htokens
  exact ⟨u, by rw [run_bind_of_ok hrun, hlater], hrest⟩

theorem leaves_peek_bind {f : Lexeme → ParserM β} (hnext : (f s.current).Leaves s b rest) :
    (Parser.peek >>= f).Leaves s b rest :=
  hnext

theorem leaves_roundsLeft_bind {f : Nat → ParserM β}
    (hnext : (f (s.upcoming.size + 1)).Leaves s b rest) :
    (Parser.roundsLeft >>= f).Leaves s b rest :=
  hnext

theorem leaves_pure (htokens : s.tokens = rest) : (pure a : ParserM α).Leaves s a rest :=
  ⟨s, rfl, htokens⟩

theorem leaves_wrap {limit height : Nat} {expr : Expr} {span : Span} (hle : height ≤ limit)
    (htokens : s.tokens = rest) :
    (Parser.wrap limit expr height span).Leaves s ⟨expr, height⟩ rest :=
  ⟨s, run_wrap_eq_ok.mpr ⟨hle, rfl, rfl⟩, htokens⟩

theorem leaves_advance {first second : Token} {later : List Token}
    (htokens : s.tokens = first :: second :: later) :
    Parser.advance.Leaves s () (second :: later) :=
  Parser.exists_advance_of_tokens htokens

theorem leaves_closing {opening : Span} {token : Token} {later : List Token}
    (htokens : s.tokens = .rightParen :: token :: later) :
    (Parser.closing opening).Leaves s s.current.span (token :: later) := by
  obtain ⟨t, hadvance, hlater⟩ := Parser.exists_advance_of_tokens htokens
  exact ⟨t, Parser.run_closing_eq_ok.mpr ⟨ParserState.current_of_tokens htokens, rfl, hadvance⟩,
    hlater⟩

end ParserM

namespace Parser

/-- What the parser does with the tokens of a reading.  Loops may be given any
number of rounds that is enough for the tokens. -/
def CarriesOut (registry : Registry) (limit budget : Nat) (ts rest : List Token) : Phrase → Prop
  | .expression minimum e => ∀ s : ParserState, s.tokens = ts → e.depth ≤ limit →
      (expression registry limit budget minimum).Leaves s (.ofExpr e) rest
  | .chain minimum left e => ∀ (s : ParserState) (rounds : Nat), s.tokens = ts →
      ts.length ≤ rounds + 1 → e.depth ≤ limit →
      (binaryChain registry limit (expression registry limit budget) minimum rounds
        (.ofExpr left)).Leaves s (.ofExpr e) rest
  | .primary e => ∀ s : ParserState, s.tokens = ts → e.depth ≤ limit →
      (primary registry limit (expression registry limit budget)).Leaves s (.ofExpr e) rest
  | .postfixes inner e => ∀ (s : ParserState) (rounds : Nat), s.tokens = ts →
      ts.length ≤ rounds + 1 → e.depth ≤ limit →
      (postfixChain registry limit rounds (.ofExpr inner)).Leaves s (.ofExpr e) rest
  | .operand e => ∀ s : ParserState, s.tokens = ts → e.depth ≤ limit →
      (atom registry limit (expression registry limit budget)).Leaves s (.ofExpr e) rest
  | .arguments args => ∀ s : ParserState, s.tokens = ts → Expr.maxDepth args ≤ limit →
      (argumentList (expression registry limit budget)).Leaves s (args.map .ofExpr) rest
  | .others args => ∀ (s : ParserState) (rounds : Nat) (done : List Node), s.tokens = ts →
      ts.length ≤ rounds + 1 → Expr.maxDepth args ≤ limit →
      (arguments (expression registry limit budget) rounds done).Leaves s
        (done ++ args.map .ofExpr) rest

/-! ## Loops -/

section Loops

variable {registry : Registry} {limit : Nat} {operand : Int → ParserM Node} {s : ParserState}
  {rounds : Nat} {node : Node} {token : Token} {later : List Token}

theorem run_postfixChain_end (hstop : ¬ registry.IsPostfix s.current.token) :
    (postfixChain registry limit rounds node).run s = (.ok node, s) := by
  cases rounds with
  | zero => rfl
  | succ rounds =>
      simp only [postfixChain]
      rw [run_peek_bind]
      split
      · next op hop => rw [if_neg fun hfind => hstop ⟨op, hop, hfind⟩, run_pure]
      · rfl

theorem leaves_postfixChain_end (hstop : ¬ registry.IsPostfix token)
    (htokens : s.tokens = token :: later) :
    (postfixChain registry limit rounds node).Leaves s node (token :: later) := by
  have hcurrent := ParserState.current_of_tokens htokens
  exact ⟨s, run_postfixChain_end (hcurrent ▸ hstop), htokens⟩

theorem leaves_binaryChain_end {minimum : Int} (hstop : ¬ registry.IsBinary minimum token)
    (htokens : s.tokens = token :: later) :
    (binaryChain registry limit operand minimum rounds node).Leaves s node (token :: later) := by
  have hcurrent := ParserState.current_of_tokens htokens
  refine ⟨s, ?_, htokens⟩
  cases rounds with
  | zero => rfl
  | succ rounds =>
      simp only [binaryChain]
      rw [run_peek_bind]
      split
      · next op hop =>
          split
          · rfl
          · next operator hfind =>
              have hlevel : operator.precedence.level < minimum :=
                Int.not_le.mp fun hle => hstop ⟨op, operator, hcurrent ▸ hop, hfind, hle⟩
              rw [if_pos hlevel, run_pure]
      · rfl

theorem leaves_arguments_end {done : List Node} (hstop : token ≠ .comma)
    (htokens : s.tokens = token :: later) :
    (arguments operand rounds done).Leaves s done (token :: later) := by
  have hcurrent := ParserState.current_of_tokens htokens
  refine ⟨s, ?_, htokens⟩
  cases rounds with
  | zero => rfl
  | succ rounds =>
      simp only [arguments]
      rw [run_peek_bind, if_neg (by rwa [hcurrent]), run_pure]

end Loops

/-! ## All phrases -/

/-- A loop with tokens for a round has a round. -/
private theorem exists_rounds {rounds : Nat} {first second : Token} {later : List Token}
    (hrounds : (first :: second :: later).length ≤ rounds + 1) :
    ∃ fewer, rounds = fewer + 1 ∧ (second :: later).length ≤ fewer + 1 := by
  cases rounds with
  | zero => simp at hrounds
  | succ fewer => exact ⟨fewer, rfl, by simpa using hrounds⟩

/-- **A greedy reading within the limits is carried out.** -/
theorem carriesOut_of_reads {registry : Registry} {limit budget : Nat} {phrase : Phrase}
    {ts rest : List Token} (hreads : registry.Reads budget phrase ts rest) :
    CarriesOut registry limit budget ts rest phrase := by
  induction hreads with
  | expression _ hchainReads hleft hchain =>
      intro s htokens hle
      refine (hleft s htokens (Nat.le_trans hchainReads.grows hle)).bind fun t ht => ?_
      refine leaves_roundsLeft_bind (hchain t _ ht ?_ hle)
      exact ht ▸ t.length_tokens_le
  | chainEnd hstop =>
      intro s rounds htokens _ _
      exact leaves_binaryChain_end hstop htokens
  | @chain budget minimum left right e op operator ts middle rest hfind hlevel hrightReads
      hchainReads hright hchain =>
      intro s rounds htokens hrounds hle
      obtain ⟨token, later, rfl⟩ := hrightReads.exists_cons
      obtain ⟨rounds, rfl, hfewer⟩ := exists_rounds hrounds
      have hshorter := hrightReads.length_le
      have hjoined : (Expr.binary left op right).depth ≤ limit :=
        Nat.le_trans hchainReads.grows hle
      have hdepth : right.depth ≤ limit := by
        simp only [Expr.depth] at hjoined
        omega
      simp only [binaryChain]
      refine leaves_peek_bind ?_
      simp only [ParserState.current_of_tokens htokens, hfind]
      rw [if_neg (Int.not_lt.mpr hlevel)]
      refine (leaves_advance htokens).bind fun t ht => ?_
      refine (hright t ht hdepth).bind fun u hu => ?_
      refine (leaves_wrap hjoined hu).bind fun v hv => ?_
      exact hchain v rounds hv (Nat.le_trans hshorter hfewer) hle
  | primary _ hpostfixesReads hoperand hpostfixes =>
      intro s htokens hle
      refine (hoperand s htokens (Nat.le_trans hpostfixesReads.grows hle)).bind fun t ht => ?_
      refine leaves_roundsLeft_bind (hpostfixes t _ ht ?_ hle)
      exact ht ▸ t.length_tokens_le
  | postfixesEnd hstop =>
      intro s rounds htokens _ _
      exact leaves_postfixChain_end hstop htokens
  | @postfixes budget operand e op ts rest hfind hpostfixesReads hpostfixes =>
      intro s rounds htokens hrounds hle
      obtain ⟨token, later, rfl⟩ := hpostfixesReads.exists_cons
      obtain ⟨rounds, rfl, hfewer⟩ := exists_rounds hrounds
      have hwrapped : (Expr.postfixed operand op).depth ≤ limit :=
        Nat.le_trans hpostfixesReads.grows hle
      simp only [postfixChain]
      refine leaves_peek_bind ?_
      simp only [ParserState.current_of_tokens htokens]
      rw [if_pos hfind]
      refine (leaves_advance htokens).bind fun t ht => ?_
      have hheight : (Node.ofExpr operand).height + 1 = (Expr.postfixed operand op).depth :=
        Nat.add_comm _ 1
      rw [hheight]
      refine (leaves_wrap hwrapped ht).bind fun v hv => ?_
      exact hpostfixes v rounds hv hfewer hle
  | number =>
      intro s htokens _
      refine leaves_peek_bind ?_
      simp only [ParserState.current_of_tokens htokens]
      refine (leaves_advance htokens).bind fun t ht => leaves_pure ht
  | group hinnerReads hinner =>
      intro s htokens hle
      obtain ⟨token, later, rfl⟩ := hinnerReads.exists_cons
      refine leaves_peek_bind ?_
      simp only [ParserState.current_of_tokens htokens]
      refine (leaves_advance htokens).bind fun t ht => ?_
      refine (hinner t ht hle).bind fun u hu => ?_
      exact (leaves_closing hu).bind fun v hv => leaves_pure hv
  | @prefixed budget operand op operator ts rest hfind hoperandReads hoperand =>
      intro s htokens hle
      obtain ⟨token, later, rfl⟩ := hoperandReads.exists_cons
      have hheight : (Node.ofExpr operand).height + 1 = (Expr.prefixed op operand).depth :=
        Nat.add_comm _ 1
      have hdepth : operand.depth ≤ limit := by
        simp only [Expr.depth] at hle
        omega
      refine leaves_peek_bind ?_
      simp only [ParserState.current_of_tokens htokens, hfind]
      refine (leaves_advance htokens).bind fun t ht => ?_
      refine (hoperand t ht hdepth).bind fun u hu => ?_
      rw [hheight]
      exact leaves_wrap hle hu
  | @call budget name f args token ts rest hfind harity hargsReads hargs =>
      intro s htokens hle
      obtain ⟨first, later, rfl⟩ := hargsReads.exists_cons
      simp only [Expr.depth] at hle
      refine leaves_peek_bind ?_
      simp only [ParserState.current_of_tokens htokens, call]
      refine leaves_peek_bind ?_
      simp only [hfind]
      refine (leaves_advance htokens).bind fun t ht => ?_
      refine leaves_peek_bind ?_
      rw [if_neg (not_not_intro (ParserState.current_of_tokens ht))]
      refine (leaves_advance ht).bind fun u hu => ?_
      refine (hargs u hu (by omega)).bind fun v hv => ?_
      refine (leaves_closing hv).bind fun w hw => ?_
      have hexprs : (args.map Node.ofExpr).map (·.expr) = args := by
        simp [Function.comp_def, Node.ofExpr]
      have hheights : ((args.map Node.ofExpr).map (·.height)).foldr max 0 = Expr.maxDepth args := by
        rw [foldr_height_eq_maxDepth (by simp [Node.ofExpr]), hexprs]
      rw [if_neg (not_not_intro (by simpa using harity)), hexprs, hheights]
      exact leaves_wrap hle hw
  | noArguments =>
      intro s htokens _
      refine leaves_peek_bind ?_
      rw [if_pos (ParserState.current_of_tokens htokens)]
      exact leaves_pure htokens
  | arguments hfirstReads hothersReads hfirst hothers =>
      intro s htokens hle
      simp only [Expr.maxDepth] at hle
      have hopen : s.current.token ≠ .rightParen := by
        obtain ⟨token, later, rfl⟩ := hfirstReads.exists_cons
        rintro hclosed
        obtain rfl := (ParserState.current_of_tokens htokens).symm.trans hclosed
        exact hfirstReads.head_ne_rightParen rfl
      refine leaves_peek_bind ?_
      rw [if_neg hopen]
      refine (hfirst s htokens (by omega)).bind fun t ht => ?_
      exact leaves_roundsLeft_bind (hothers t _ [_] ht (ht ▸ t.length_tokens_le) (by omega))
  | othersEnd hstop =>
      intro s rounds done htokens _ _
      simpa using leaves_arguments_end hstop htokens
  | @others budget e args ts middle rest hfirstReads hothersReads hfirst hothers =>
      intro s rounds done htokens hrounds hle
      obtain ⟨token, later, rfl⟩ := hfirstReads.exists_cons
      obtain ⟨rounds, rfl, hfewer⟩ := exists_rounds hrounds
      have hshorter := hfirstReads.length_le
      simp only [Expr.maxDepth] at hle
      simp only [arguments]
      refine leaves_peek_bind ?_
      rw [if_pos (ParserState.current_of_tokens htokens)]
      refine (leaves_advance htokens).bind fun t ht => ?_
      refine (hfirst t ht (by omega)).bind fun u hu => ?_
      rw [List.map_cons, List.append_cons done (.ofExpr e) (args.map .ofExpr)]
      exact hothers u rounds _ hu (Nat.le_trans hshorter hfewer) (by omega)

end Parser

/-! ## Texts -/

variable {registry : Registry} {limit : Nat} {source : Text} {e : Expr}

theorem ParserState.start_eq_ok {s : ParserState}
    (hstart : ParserState.start registry source = .ok s) :
    s.tokens = (LexemeStream.ofText registry source).tokens := by
  unfold start at hstart
  split at hstart
  · next lexeme later hnext =>
      obtain rfl := Except.ok.inj hstart
      unfold ParserState.tokens
      cases hstream : LexemeStream.ofText registry source with
      | ended span =>
          rw [hstream] at hnext
          obtain ⟨rfl, rfl⟩ : ⟨.endOfInput, span⟩ = lexeme ∧ .ended span = later := by
            simpa [LexemeStream.next] using hnext
          rfl
      | stuck error => simp [hstream, LexemeStream.next] at hnext
      | fault error after => simp [hstream, LexemeStream.next] at hnext
      | lexeme first after =>
          rw [hstream] at hnext
          obtain ⟨rfl, rfl⟩ : first = lexeme ∧ after = later := by
            simpa [LexemeStream.next] using hnext
          rfl
  · exact absurd hstart (by simp)

theorem ParserState.exists_start {token : Token} {later : List Token}
    (htokens : (LexemeStream.ofText registry source).tokens = token :: later) :
    ∃ s, ParserState.start registry source = .ok s ∧ s.tokens = token :: later := by
  obtain ⟨s, hstart⟩ : ∃ s, ParserState.start registry source = .ok s := by
    unfold start
    cases hstream : LexemeStream.ofText registry source with
    | stuck error => simp [hstream, LexemeStream.tokens] at htokens
    | fault error after => simp [hstream, LexemeStream.tokens] at htokens
    | ended span => exact ⟨_, rfl⟩
    | lexeme first after => exact ⟨_, rfl⟩
  exact ⟨s, hstart, (start_eq_ok hstart).trans htokens⟩

theorem Parser.run_parse_eq_ok {s t : ParserState} :
    (Parser.parse registry limit).run s = (.ok e, t) ↔
      ∃ height, (Parser.expression registry limit limit 0).run s = (.ok ⟨e, height⟩, t) ∧
        t.current.token = .endOfInput := by
  unfold Parser.parse
  rw [run_bind_eq_ok]
  constructor
  · rintro ⟨node, middle, hnode, hrest⟩
    rw [run_peek_bind] at hrest
    split at hrest
    · next hended =>
        obtain ⟨rfl, rfl⟩ := run_pure_eq_ok.mp hrest
        exact ⟨node.height, hnode, hended⟩
    · exact absurd hrest run_snippet_throw_ne_ok
  · rintro ⟨height, hnode, hended⟩
    exact ⟨_, t, hnode, by rw [run_peek_bind, if_pos hended, run_pure]⟩

/-- What is read from a text is read from its tokens, up to the end of input,
and no higher than the limit.  The registry may be any. -/
theorem Registry.reads_of_parse (hparse : registry.parse limit source = .ok e) :
    registry.Reads limit (.expression 0 e) (LexemeStream.ofText registry source).tokens
      [.endOfInput] ∧ e.depth ≤ limit := by
  unfold Registry.parse at hparse
  split at hparse
  · simp at hparse
  · next s hstart =>
      have hrun : ∃ t, (Parser.parse registry limit).run s = (.ok e, t) :=
        ⟨_, Prod.ext hparse rfl⟩
      obtain ⟨t, hrun⟩ := hrun
      obtain ⟨height, hnode, hended⟩ := Parser.run_parse_eq_ok.mp hrun
      have houtcome := Parser.outcome_of_expression (Nat.le_refl _) hnode
      have hreads := houtcome.reads
      rw [ParserState.start_eq_ok hstart, ParserState.tokens, if_pos hended] at hreads
      exact ⟨hreads, houtcome.height_eq ▸ houtcome.height_le⟩

theorem Registry.parse_of_reads
    (hreads : registry.Reads limit (.expression 0 e) (LexemeStream.ofText registry source).tokens
      [.endOfInput]) (hdepth : e.depth ≤ limit) : registry.parse limit source = .ok e := by
  obtain ⟨token, later, hcons⟩ := hreads.exists_cons
  obtain ⟨s, hstart, htokens⟩ := ParserState.exists_start hcons
  obtain ⟨t, hrun, hended⟩ := Parser.carriesOut_of_reads hreads s (htokens.trans hcons.symm) hdepth
  have hparse : (Parser.parse registry limit).run s = (.ok e, t) :=
    Parser.run_parse_eq_ok.mpr ⟨_, hrun, ParserState.current_of_tokens hended⟩
  unfold Registry.parse
  rw [hstart]
  exact congrArg Prod.fst hparse

/-- **When a text is an expression.**  The lexer splits it, its tokens can be
read greedily up to the end of input, and neither nesting nor height exceed the
limit. -/
theorem Registry.parse_eq_ok_iff (hreach : registry.Reachable) :
    registry.parse limit source = .ok e ↔
      ∃ lexemes, registry.Tokenizes source lexemes ∧
        registry.Reads limit (.expression 0 e) (lexemes.map (·.token) ++ [.endOfInput])
          [.endOfInput] ∧ e.depth ≤ limit := by
  constructor
  · intro hparse
    obtain ⟨hreads, hdepth⟩ := reads_of_parse hparse
    obtain ⟨used, hused, _⟩ := hreads.derives
    obtain ⟨lexemes, hlexes, rfl⟩ := (LexemeStream.tokens_ofText_eq_iff hreach).mp hused
    exact ⟨lexemes, hlexes, hused ▸ hreads, hdepth⟩
  · rintro ⟨lexemes, hlexes, hreads, hdepth⟩
    have htokens := (LexemeStream.tokens_ofText_eq_iff hreach).mpr ⟨lexemes, hlexes, rfl⟩
    exact parse_of_reads (htokens ▸ hreads) hdepth

end Reckoner
