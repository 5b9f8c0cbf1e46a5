import Mathlib.Data.Nat.Find
import Reckoner.Proofs.Lexer.Tiling
import Reckoner.Proofs.Parser.Run

/-!
# Depth and tokens

How deep a parse goes is a matter of how many tokens there are.  Two things can be
too deep: the calls of `expression` under way, and the tree.

* Each call inside another one is made behind a token that was taken for it: a
  parenthesis, a comma or an operator.
* Each level of a tree is built for a token that was taken for it: a number, an
  operator or the name of a function.

So the tokens that are left pay for both.  A call with as many tokens ahead as its
budget has room for leaves a node whose height, together with the tokens that are
still ahead, is no more than the tokens that were ahead of it (`OperandStays`).

`ParserM.Stays` is the form in which a part of the parser says so: its run ends with
a value as described, or with an error of another kind.
-/

namespace Reckoner

/-! ## Tokens ahead -/

/-- The number of tokens ahead, without the end of input. -/
def ParserState.pending (s : ParserState) : Nat :=
  s.tokens.countP (· ≠ .endOfInput)

theorem ParserState.pending_pos {s : ParserState} (hmore : s.current.token ≠ .endOfInput) :
    0 < s.pending := by
  unfold pending tokens
  rw [if_neg hmore, List.countP_cons_of_pos (by simpa using hmore)]
  exact Nat.succ_pos _

/-- Each token ahead is one to come, but for the current one. -/
theorem ParserState.pending_le (s : ParserState) : s.pending ≤ s.upcoming.size + 1 := by
  have hstream (stream : LexemeStream) : stream.tokens.countP (· ≠ .endOfInput) ≤ stream.size := by
    induction stream with
    | ended => exact Nat.le_refl _
    | stuck => exact Nat.zero_le _
    | fault => exact Nat.zero_le _
    | lexeme first later ih =>
      simp only [LexemeStream.tokens, LexemeStream.size]
      split
      · exact Nat.zero_le _
      · next hmore =>
        rw [List.countP_cons_of_pos (by simpa using hmore)]
        exact Nat.succ_le_succ ih
  have hupcoming := hstream s.upcoming
  unfold pending tokens
  split
  · exact Nat.zero_le _
  · next hmore =>
    rw [List.countP_cons_of_pos (by simpa using hmore)]
    exact Nat.succ_le_succ hupcoming

/-- A token that is taken is no longer ahead. -/
theorem Parser.pending_of_advance {s t : ParserState} {u : Unit}
    (hadvance : advance.run s = (.ok u, t)) (hmore : s.current.token ≠ .endOfInput) :
    t.pending + 1 = s.pending := by
  rw [ParserState.pending, ParserState.pending, (tokens_of_advance hadvance hmore).1,
    List.countP_cons_of_pos (by simpa using hmore)]

/-! ## Runs that do not end for their depth -/

namespace ParserM

variable {α β : Type} {m : ParserM α} {f : α → ParserM β} {s : ParserState}
  {middle : α → ParserState → Prop} {post : β → ParserState → Prop}

/-- A run ends with a value and a state as described, or with an error that has nothing
to do with depth. -/
def Stays (m : ParserM α) (s : ParserState) (post : α → ParserState → Prop) : Prop :=
  match m.run s with
  | (.ok a, t) => post a t
  | (.error error, _) => ∀ limit span snippet, error ≠ .tooDeep limit span snippet

theorem Stays.bind (hfirst : m.Stays s middle)
    (hnext : ∀ a t, middle a t → (f a).Stays t post) : (m >>= f).Stays s post := by
  unfold Stays at hfirst ⊢
  rw [run_bind]
  rcases hrun : m.run s with ⟨error | a, t⟩
  · rw [hrun] at hfirst
    exact hfirst
  · rw [hrun] at hfirst
    exact hnext a t hfirst

theorem stays_peek_bind {f : Lexeme → ParserM β} (hnext : (f s.current).Stays s post) :
    (Parser.peek >>= f).Stays s post :=
  hnext

theorem stays_roundsLeft_bind {f : Nat → ParserM β}
    (hnext : (f (s.upcoming.size + 1)).Stays s post) : (Parser.roundsLeft >>= f).Stays s post :=
  hnext

theorem stays_pure {b : β} (hpost : post b s) : (pure b : ParserM β).Stays s post :=
  hpost

theorem stays_snippet_throw {span : Span} {error : Snippet → ParseError}
    (herror : ∀ snippet limit span snippet', error snippet ≠ .tooDeep limit span snippet') :
    (Parser.snippet span >>= fun snippet => (throw (error snippet) : ParserM β)).Stays s post :=
  herror _

theorem stays_reject {expected : Expectation} :
    (Parser.reject expected : ParserM β).Stays s post :=
  stays_peek_bind (stays_snippet_throw (by simp))

theorem stays_wrap_bind {limit height : Nat} {expr : Expr} {span : Span} {f : Node → ParserM β}
    (hle : height ≤ limit) (hnext : (f ⟨expr, height⟩).Stays s post) :
    (Parser.wrap limit expr height span >>= f).Stays s post := by
  have hwrap : (Parser.wrap limit expr height span).run s = (.ok ⟨expr, height⟩, s) :=
    run_wrap_eq_ok.mpr ⟨hle, rfl, rfl⟩
  unfold Stays
  rw [run_bind_of_ok hwrap]
  exact hnext

theorem stays_wrap {limit height : Nat} {expr : Expr} {span : Span}
    {post : Node → ParserState → Prop} (hle : height ≤ limit) (hpost : post ⟨expr, height⟩ s) :
    (Parser.wrap limit expr height span).Stays s post := by
  unfold Stays
  rw [run_wrap_eq_ok.mpr ⟨hle, rfl, rfl⟩]
  exact hpost

theorem stays_advance (hmore : s.current.token ≠ .endOfInput) :
    Parser.advance.Stays s fun _ t => t.pending + 1 = s.pending := by
  unfold Stays
  rcases hrun : Parser.advance.run s with ⟨error | u, t⟩
  · rw [run_advance] at hrun
    rcases hnext : s.upcoming.next with ⟨error' | first, later⟩
    · obtain ⟨⟨⟩, _⟩ := Prod.mk.inj (hnext ▸ hrun)
      simp
    · simp [hnext] at hrun
  · exact Parser.pending_of_advance hrun hmore

end ParserM

namespace Parser

open ParserM

variable {registry : Registry} {limit budget bound : Nat} {operand : Int → ParserM Node}
  {s : ParserState}

theorem stays_closing {opening : Span} :
    (closing opening).Stays s fun _ t => t.pending + 1 = s.pending := by
  refine stays_peek_bind ?_
  split
  · next htoken =>
      refine (stays_advance (by simp [htoken])).bind fun _ t ht => ?_
      exact stays_pure ht
  · exact stays_snippet_throw (by simp)

/-! ## Loops -/

theorem stays_postfixChain (hbound : bound ≤ limit) (rounds : Nat) {node : Node}
    (hnode : node.height + s.pending ≤ bound) :
    (postfixChain registry limit rounds node).Stays s fun result t =>
      result.height + t.pending ≤ bound := by
  induction rounds generalizing node s with
  | zero => exact stays_pure hnode
  | succ rounds ih =>
      refine stays_peek_bind ?_
      split
      · next op htoken =>
          split
          · refine (stays_advance (by simp [htoken])).bind fun _ t ht => ?_
            refine stays_wrap_bind (by omega) (ih ?_)
            show node.height + 1 + t.pending ≤ bound
            omega
          · exact stays_pure hnode
      · exact stays_pure hnode

/-- A function for operands does not go too deep where there are fewer tokens ahead than
the budget, and pays with tokens for the height of its tree. -/
def OperandStays (budget : Nat) (operand : Int → ParserM Node) : Prop :=
  ∀ ⦃minimum : Int⦄ ⦃s : ParserState⦄, s.pending < budget →
    (operand minimum).Stays s fun node t => node.height + t.pending ≤ s.pending

variable (hoperand : OperandStays budget operand)

include hoperand

theorem stays_binaryChain (hbound : bound ≤ limit) (hbudget : bound ≤ budget) (minimum : Int)
    (rounds : Nat) {left : Node} (hleft : left.height + s.pending ≤ bound) :
    (binaryChain registry limit operand minimum rounds left).Stays s fun result t =>
      result.height + t.pending ≤ bound := by
  induction rounds generalizing left s with
  | zero => exact stays_pure hleft
  | succ rounds ih =>
      refine stays_peek_bind ?_
      split
      · next op htoken =>
          split
          · exact stays_pure hleft
          split
          · exact stays_pure hleft
          · refine (stays_advance (by simp [htoken])).bind fun _ t ht => ?_
            refine (hoperand (by omega)).bind fun right u hright => ?_
            refine stays_wrap_bind (by omega) (ih ?_)
            show 1 + max left.height right.height + u.pending ≤ bound
            omega
      · exact stays_pure hleft

theorem stays_arguments (hbudget : bound ≤ budget) (rounds : Nat) {args : List Node}
    (hpending : s.pending ≤ bound) (hargs : ∀ arg ∈ args, arg.height + s.pending ≤ bound) :
    (arguments operand rounds args).Stays s fun nodes t =>
      t.pending ≤ bound ∧ ∀ node ∈ nodes, node.height + t.pending ≤ bound := by
  induction rounds generalizing args s with
  | zero => exact stays_pure ⟨hpending, hargs⟩
  | succ rounds ih =>
      refine stays_peek_bind ?_
      split
      · next htoken =>
          refine (stays_advance (by simp [htoken])).bind fun _ t ht => ?_
          refine (hoperand (by omega)).bind fun arg u harg => ?_
          refine ih (by omega) ?_
          intro node hnode
          rcases List.mem_append.mp hnode with hold | hnew
          · have := hargs node hold
            omega
          · obtain rfl := List.mem_singleton.mp hnew
            omega
      · exact stays_pure ⟨hpending, hargs⟩

theorem stays_argumentList (hbudget : s.pending < budget) :
    (argumentList operand).Stays s fun nodes t =>
      t.pending ≤ s.pending ∧ ∀ node ∈ nodes, node.height + t.pending ≤ s.pending := by
  refine stays_peek_bind ?_
  split
  · exact stays_pure ⟨Nat.le_refl _, by simp⟩
  · refine (hoperand hbudget).bind fun first t hfirst => stays_roundsLeft_bind ?_
    refine stays_arguments hoperand (Nat.le_of_lt hbudget) _ (by omega) ?_
    intro node hnode
    obtain rfl := List.mem_singleton.mp hnode
    exact hfirst

/-! ## Expressions -/

omit hoperand in
/-- The highest of trees is within a bound that each of them is within. -/
theorem foldr_height_add_le {nodes : List Node} {ahead : Nat} (hahead : ahead ≤ bound)
    (hnodes : ∀ node ∈ nodes, node.height + ahead ≤ bound) :
    (nodes.map (·.height)).foldr max 0 + ahead ≤ bound := by
  induction nodes with
  | nil => simpa using hahead
  | cons node nodes ih =>
      obtain ⟨hnode, hothers⟩ := List.forall_mem_cons.mp hnodes
      have hmax := ih hothers
      simp only [List.map_cons, List.foldr_cons]
      omega

theorem stays_call (hlimit : s.pending ≤ limit) (hbudget : s.pending ≤ budget) {name : Text}
    (htoken : s.current.token = .function name) :
    (call registry limit operand name).Stays s fun node t =>
      node.height + t.pending ≤ s.pending := by
  refine stays_peek_bind ?_
  split
  · exact stays_reject
  · refine (stays_advance (by simp [htoken])).bind fun _ opened hopened => stays_peek_bind ?_
    split
    · exact stays_reject
    · next hparenthesis =>
        have hmore : opened.current.token ≠ .endOfInput := by
          simp [Decidable.not_not.mp hparenthesis]
        refine (stays_advance hmore).bind fun _ inside hinside => ?_
        refine (stays_argumentList hoperand (by omega)).bind fun args behind hargs => ?_
        obtain ⟨hpending, hargs⟩ := hargs
        refine stays_closing.bind fun _ after hafter => ?_
        have hheight := foldr_height_add_le hpending hargs
        split
        · exact stays_snippet_throw (by simp)
        · refine stays_wrap (by omega) ?_
          show 1 + (args.map (·.height)).foldr max 0 + after.pending ≤ s.pending
          omega

theorem stays_atom (hlimit : s.pending ≤ limit) (hbudget : s.pending ≤ budget) :
    (atom registry limit operand).Stays s fun node t => node.height + t.pending ≤ s.pending := by
  refine stays_peek_bind ?_
  split
  · next value htoken =>
      refine (stays_advance (by simp [htoken])).bind fun _ t ht => stays_pure ?_
      show 1 + t.pending ≤ s.pending
      omega
  · next htoken =>
      refine (stays_advance (by simp [htoken])).bind fun _ t ht => ?_
      refine (hoperand (by omega)).bind fun inner u hinner => ?_
      refine stays_closing.bind fun _ v hv => stays_pure ?_
      omega
  · next op htoken =>
      split
      · exact stays_reject
      · refine (stays_advance (by simp [htoken])).bind fun _ t ht => ?_
        refine (hoperand (by omega)).bind fun inner u hinner => ?_
        refine stays_wrap (by omega) ?_
        show inner.height + 1 + u.pending ≤ s.pending
        omega
  · next name htoken => exact stays_call hoperand hlimit hbudget htoken
  · exact stays_reject

theorem stays_primary (hlimit : s.pending ≤ limit) (hbudget : s.pending ≤ budget) :
    (primary registry limit operand).Stays s fun node t =>
      node.height + t.pending ≤ s.pending := by
  refine (stays_atom hoperand hlimit hbudget).bind fun node t hnode => stays_roundsLeft_bind ?_
  exact stays_postfixChain hlimit _ hnode

omit hoperand in
/-- **Fewer tokens than the budget are not too deep.** -/
theorem operandStays_expression (hbudget : budget ≤ limit) :
    OperandStays budget (expression registry limit budget) := by
  induction budget with
  | zero =>
      intro minimum s hpending
      exact absurd hpending (Nat.not_lt_zero _)
  | succ budget ih =>
      intro minimum s hpending
      have hoperand := ih (Nat.le_of_succ_le hbudget)
      have hroom : s.pending ≤ budget := Nat.le_of_lt_succ hpending
      have hlimit : s.pending ≤ limit := by omega
      refine (stays_primary hoperand hlimit hroom).bind fun left t hleft => stays_roundsLeft_bind ?_
      exact stays_binaryChain hoperand hlimit hroom minimum _ hleft

omit hoperand in
theorem stays_parse (hpending : s.pending < limit) :
    (parse registry limit).Stays s fun _ _ => True := by
  refine (operandStays_expression (Nat.le_refl _) hpending).bind fun node t _ => stays_peek_bind ?_
  split
  · exact stays_pure trivial
  · exact stays_snippet_throw (by simp)

end Parser

/-! ## Lexemes of a text -/

namespace Registry

variable {registry : Registry} {source : Text} {n : Nat}

/-- A request is answered with the end of input or with an error. -/
def stops (registry : Registry) (source : Text) (request : Nat) : Bool :=
  match registry.answer source request with
  | .ok lexeme => lexeme.token = .endOfInput
  | .error _ => true

/-- The lexer yields `n` lexemes before the first end of input or error. -/
def YieldsFirst (registry : Registry) (source : Text) (n : Nat) : Prop :=
  (∀ request < n, registry.stops source request = false) ∧ registry.stops source n = true

/-- The stream of a text holds the lexemes that the lexer yields first. -/
theorem countP_tokens_unfold (hreach : registry.Reachable) (hyields : registry.YieldsFirst source n)
    {more done steps : Nat} (hn : done + more = n)
    (hsteps : (registry.position source done).rest.length < steps) :
    (LexemeStream.unfold registry steps (registry.position source done)).tokens.countP
      (· ≠ .endOfInput) = more := by
  -- on the lexemes that are still to come
  induction more generalizing done steps with
  | zero =>
      obtain rfl : done = n := hn
      obtain ⟨steps, rfl⟩ := Nat.exists_eq_add_one_of_ne_zero (Nat.ne_zero_of_lt hsteps)
      cases hanswer : registry.answer source done with
      | ok lexeme =>
          obtain ⟨token, span⟩ := lexeme
          obtain rfl : token = .endOfInput := by simpa [stops, hanswer] using hyields.2
          rw [LexemeStream.unfold_of_next_ended (next_position_of_answer hanswer)]
          rfl
      | error error =>
          rw [LexemeStream.tokens_unfold_of_next_error (next_position_of_answer hanswer)]
          rfl
  | succ more ih =>
      obtain ⟨steps, rfl⟩ := Nat.exists_eq_add_one_of_ne_zero (Nat.ne_zero_of_lt hsteps)
      have hgoes := hyields.1 done (by omega)
      cases hanswer : registry.answer source done with
      | error error => simp [stops, hanswer] at hgoes
      | ok lexeme =>
          have hmore : lexeme.token ≠ .endOfInput := by simpa [stops, hanswer] using hgoes
          have hnext := next_position_of_answer hanswer
          have hshorter := Cursor.length_rest_lt_of_next hreach hnext hmore
          have hlater : (LexemeStream.unfold registry steps
              (registry.position source (done + 1))).tokens.countP (· ≠ .endOfInput) = more :=
            ih (by omega) (by omega)
          rw [LexemeStream.unfold_of_next_lexeme hnext hmore, LexemeStream.tokens, if_neg hmore,
            List.countP_cons_of_pos (by simpa using hmore), hlater]

theorem countP_tokens_ofText (hreach : registry.Reachable)
    (hyields : registry.YieldsFirst source n) :
    (LexemeStream.ofText registry source).tokens.countP (· ≠ .endOfInput) = n :=
  countP_tokens_unfold hreach hyields (Nat.zero_add n) (Nat.lt_succ_self _)

/-- Each lexeme takes a character, so the lexer comes to the end of input or to an error before the
characters run out. -/
theorem exists_yieldsFirst (hreach : registry.Reachable) (source : Text) :
    ∃ n ≤ source.length, registry.YieldsFirst source n := by
  have hshorter : ∀ n, (∀ request < n, registry.stops source request = false) →
      (registry.position source n).rest.length + n ≤ source.length := by
    intro n
    induction n with
    | zero => exact fun _ => Nat.le_refl _
    | succ n ih =>
      intro hgoes
      have hgoesOn := hgoes n (Nat.lt_succ_self n)
      have hle := ih fun request hrequest => hgoes request (Nat.lt_succ_of_lt hrequest)
      cases hanswer : registry.answer source n with
      | error error => simp [stops, hanswer] at hgoesOn
      | ok lexeme =>
        have hmore : lexeme.token ≠ .endOfInput := by simpa [stops, hanswer] using hgoesOn
        have hless := Cursor.length_rest_lt_of_next hreach (next_position_of_answer hanswer) hmore
        omega
  have hstops : ∃ n, registry.stops source n = true := by
    by_contra hnone
    have hgoes : ∀ request, registry.stops source request = false := by simpa using hnone
    have hle := hshorter (source.length + 1) fun request _ => hgoes request
    omega
  have hgoes : ∀ request < Nat.find hstops, registry.stops source request = false :=
    fun request hlt => by simpa using Nat.find_min hstops hlt
  have hle := hshorter _ hgoes
  exact ⟨Nat.find hstops, by omega, hgoes, Nat.find_spec hstops⟩

end Registry

end Reckoner
