import Reckoner.Proofs.Parser.Leaves
import Reckoner.Proofs.Parser.Reading

/-!
# Replacing a number in what is read

If the tokens of an operand stand where a number stood, the same phrase is read, and the
tree of the operand takes the place of the number (`Reads.replaceNumber`).  The operand
may be read with a budget of its own, which is added to that of the phrase.

The induction goes through the reading.  Where a phrase has two parts, the number stands
in one of them.

* If it stands in the second, then the first part is followed by other tokens than
  before.  It ends all the same, as an operand begins with a token that nothing can go on
  with (`Reads.exchange`).
* If it stands in the first, then the second part goes on from another tree.  The
  operators behind a tree do not depend on it (`Reads.replaceBefore`).

Which part that is, and how many numbers stand before it, is the same argument for every
phrase; `AtNumbers` makes it once, for the parts of a list of tokens.
-/

namespace Reckoner

/-! ## Phrases with another tree -/

namespace Phrase

/-- The phrase with another tree in the place of a number among its tokens. -/
def replaceNumber (index : Nat) (u : Expr) : Phrase → Phrase
  | expression minimum e => expression minimum (e.replaceNumber index u)
  | chain minimum left e => chain minimum left (e.replaceNumber (left.numbers.length + index) u)
  | primary e => primary (e.replaceNumber index u)
  | postfixes inner e => postfixes inner (e.replaceNumber (inner.numbers.length + index) u)
  | operand e => operand (e.replaceNumber index u)
  | arguments args => arguments (Expr.replaceNumberAll args index u)
  | others args => others (Expr.replaceNumberAll args index u)

/-- The phrase with another tree in the place of a number in the tree that it begins
with. -/
def replaceBefore (index : Nat) (u : Expr) : Phrase → Phrase
  | chain minimum left e => chain minimum (left.replaceNumber index u) (e.replaceNumber index u)
  | postfixes inner e => postfixes (inner.replaceNumber index u) (e.replaceNumber index u)
  | phrase => phrase

end Phrase

namespace Registry

/-! ## Other tokens behind a phrase -/

/-- A phrase that ends before the first rest ends before the second one too: they begin
with the same token, or the second with one that nothing goes on with. -/
inductive Exchange : List Token → List Token → Prop
  | same {token : Token} {later later' : List Token} :
      Exchange (token :: later) (token :: later')
  | stop {token token' : Token} {later later' : List Token} (hclosing : token ≠ .rightParen)
      (hoperator : ∀ op, token' ≠ .operator op) (hcomma : token' ≠ .comma) :
      Exchange (token :: later) (token' :: later')

theorem Exchange.append {rest rest' : List Token} (hexchange : Exchange rest rest')
    (used : List Token) : Exchange (used ++ rest) (used ++ rest') := by
  cases used with
  | nil => exact hexchange
  | cons token used => exact .same

namespace Reads

variable {registry : Registry} {budget : Nat} {phrase : Phrase} {ts rest : List Token}

private theorem exists_exchange (hreads : registry.Reads budget phrase ts rest) :
    ∃ used, ts = used ++ rest ∧
      ∀ rest', Exchange rest rest' → registry.Reads budget phrase (used ++ rest') rest' := by
  induction hreads with
  | expression _ _ hleft hchain =>
      obtain ⟨first, rfl, hleft⟩ := hleft
      obtain ⟨later, rfl, hchain⟩ := hchain
      refine ⟨first ++ later, by simp, ?_⟩
      intro rest' hexchange
      rw [List.append_assoc]
      exact .expression (hleft _ (hexchange.append later)) (hchain rest' hexchange)
  | chainEnd hstop =>
      refine ⟨[], rfl, ?_⟩
      intro rest' hexchange
      cases hexchange with
      | same => exact .chainEnd hstop
      | stop _ hoperator _ => exact .chainEnd (not_isBinary_of_ne hoperator)
  | @chain _ _ _ _ _ op _ _ _ _ hfind hlevel _ _ hright hchain =>
      obtain ⟨first, rfl, hright⟩ := hright
      obtain ⟨later, rfl, hchain⟩ := hchain
      refine ⟨.operator op :: (first ++ later), by simp, ?_⟩
      intro rest' hexchange
      rw [List.cons_append, List.append_assoc]
      exact .chain hfind hlevel (hright _ (hexchange.append later)) (hchain rest' hexchange)
  | primary _ _ hoperand hpostfixes =>
      obtain ⟨first, rfl, hoperand⟩ := hoperand
      obtain ⟨later, rfl, hpostfixes⟩ := hpostfixes
      refine ⟨first ++ later, by simp, ?_⟩
      intro rest' hexchange
      rw [List.append_assoc]
      exact .primary (hoperand _ (hexchange.append later)) (hpostfixes rest' hexchange)
  | postfixesEnd hstop =>
      refine ⟨[], rfl, ?_⟩
      intro rest' hexchange
      cases hexchange with
      | same => exact .postfixesEnd hstop
      | stop _ hoperator _ => exact .postfixesEnd (not_isPostfix_of_ne hoperator)
  | postfixes hfind _ hpostfixes =>
      obtain ⟨later, rfl, hpostfixes⟩ := hpostfixes
      exact ⟨_ :: later, rfl, fun rest' hexchange => .postfixes hfind (hpostfixes rest' hexchange)⟩
  | number =>
      refine ⟨[_], rfl, ?_⟩
      intro rest' hexchange
      cases hexchange <;> exact .number
  | group _ hinner =>
      obtain ⟨inner, rfl, hinner⟩ := hinner
      refine ⟨.leftParen :: (inner ++ [.rightParen]), by simp, ?_⟩
      intro rest' hexchange
      have hclosed := hinner (.rightParen :: rest') .same
      rw [List.cons_append, List.append_assoc]
      cases hexchange <;> exact .group hclosed
  | prefixed hfind _ hoperand =>
      obtain ⟨later, rfl, hoperand⟩ := hoperand
      exact ⟨_ :: later, rfl, fun rest' hexchange => .prefixed hfind (hoperand rest' hexchange)⟩
  | @call _ name _ _ _ _ _ hfind harity _ hargs =>
      obtain ⟨inner, rfl, hargs⟩ := hargs
      refine ⟨.function name :: .leftParen :: (inner ++ [.rightParen]), by simp, ?_⟩
      intro rest' hexchange
      have hclosed := hargs (.rightParen :: rest') .same
      rw [List.cons_append, List.cons_append, List.append_assoc]
      cases hexchange <;> exact .call hfind harity hclosed
  | noArguments =>
      refine ⟨[], rfl, ?_⟩
      intro rest' hexchange
      cases hexchange with
      | same => exact .noArguments
      | stop hclosing => exact absurd rfl hclosing
  | arguments _ _ hfirst hothers =>
      obtain ⟨first, rfl, hfirst⟩ := hfirst
      obtain ⟨later, rfl, hothers⟩ := hothers
      refine ⟨first ++ later, by simp, ?_⟩
      intro rest' hexchange
      rw [List.append_assoc]
      exact .arguments (hfirst _ (hexchange.append later)) (hothers rest' hexchange)
  | othersEnd hstop =>
      refine ⟨[], rfl, ?_⟩
      intro rest' hexchange
      cases hexchange with
      | same => exact .othersEnd hstop
      | stop _ _ hcomma => exact .othersEnd hcomma
  | others _ _ hfirst hothers =>
      obtain ⟨first, rfl, hfirst⟩ := hfirst
      obtain ⟨later, rfl, hothers⟩ := hothers
      refine ⟨.comma :: (first ++ later), by simp, ?_⟩
      intro rest' hexchange
      rw [List.cons_append, List.append_assoc]
      exact .others (hfirst _ (hexchange.append later)) (hothers rest' hexchange)

/-- **A phrase ends before another rest as well.** -/
theorem exchange {used rest' : List Token}
    (hreads : registry.Reads budget phrase (used ++ rest) rest)
    (hexchange : Exchange rest rest') : registry.Reads budget phrase (used ++ rest') rest' := by
  obtain ⟨taken, htaken, hreads⟩ := exists_exchange hreads
  rw [List.append_cancel_right htaken]
  exact hreads rest' hexchange

/-! ## Another tree in front -/

/-- The operators behind a tree are the same behind another tree. -/
theorem replaceBefore (hreads : registry.Reads budget phrase ts rest) {index : Nat}
    (hlt : index < (Token.numbers phrase.tokensBefore).length) (u : Expr) :
    registry.Reads budget (phrase.replaceBefore index u) ts rest := by
  induction hreads with
  | chainEnd hstop => exact .chainEnd hstop
  | @chain _ _ left right _ op _ _ _ _ hfind hlevel hright _ _ hchain =>
      have hleft : index < left.numbers.length := hlt
      have hlonger : index < (Expr.binary left op right).numbers.length := by
        rw [Expr.numbers_binary, List.length_append]
        omega
      have hlater := hchain hlonger
      simp only [Phrase.replaceBefore, Expr.replaceNumber_left hleft] at hlater
      exact .chain hfind hlevel hright hlater
  | postfixesEnd hstop => exact .postfixesEnd hstop
  | @postfixes _ operand _ op _ _ hfind _ hpostfixes =>
      have hsame : index < (Expr.postfixed operand op).numbers.length := by
        rw [Expr.numbers_postfixed]
        exact hlt
      exact .postfixes hfind (hpostfixes hsame)
  | _ => exact absurd hlt (Nat.not_lt_zero _)

end Reads

/-! ## Tokens in the place of a number -/

/-- Whichever number among the used tokens gives way to the inserted ones, the tokens are
as described then.  The number is told by how many numbers stand before it. -/
def AtNumbers (inserted used rest : List Token) (result : Nat → List Token → Prop) : Prop :=
  ∀ before value behind, used = before ++ .number value :: behind →
    result (Token.numbers before).length (before ++ (inserted ++ (behind ++ rest)))

namespace AtNumbers

variable {inserted used first later rest : List Token} {result result' : Nat → List Token → Prop}
  {token : Token}

theorem nil : AtNumbers inserted [] rest result := by
  intro before value behind heq
  simp at heq

theorem cons (hnumber : token.number? = none)
    (hlater : AtNumbers inserted used rest fun index ts => result index (token :: ts)) :
    AtNumbers inserted (token :: used) rest result := by
  intro before value behind heq
  cases before with
  | nil =>
      obtain ⟨rfl, _⟩ := List.cons.inj heq
      simp [Token.number?] at hnumber
  | cons other before =>
      obtain ⟨rfl, rfl⟩ := List.cons.inj heq
      have hsame : Token.numbers (token :: before) = Token.numbers before :=
        List.filterMap_cons_none hnumber
      rw [hsame]
      exact hlater before value behind rfl

theorem append (hfirst : AtNumbers inserted first (later ++ rest) result)
    (hlater : AtNumbers inserted later rest fun index ts =>
      result ((Token.numbers first).length + index) (first ++ ts)) :
    AtNumbers inserted (first ++ later) rest result := by
  intro before value behind heq
  rcases List.append_eq_append_iff.mp heq with ⟨more, rfl, rfl⟩ | ⟨more, rfl, hbehind⟩
  · rw [Token.numbers_append, List.length_append, List.append_assoc]
    exact hlater more value behind rfl
  · cases more with
    | nil =>
        have hresult := hlater [] value behind hbehind.symm
        simpa using hresult
    | cons other more =>
        obtain ⟨rfl, rfl⟩ := List.cons.inj hbehind
        have hbehind : more ++ later ++ rest = more ++ (later ++ rest) :=
          List.append_assoc more later rest
        show result _ (before ++ (inserted ++ (more ++ later ++ rest)))
        rw [hbehind]
        exact hfirst before value more rfl

theorem closing (hinner : AtNumbers inserted used (.rightParen :: rest) result) :
    AtNumbers inserted (used ++ [.rightParen]) rest result :=
  hinner.append (nil.cons rfl)

/-- What follows of the tokens then: they stop whatever the tokens did before. -/
theorem mono {inner : List Token} (hused : AtNumbers (.leftParen :: inner) used rest result)
    (himp : ∀ index ts, index < (Token.numbers used).length → Exchange (used ++ rest) ts →
      result index ts → result' index ts) :
    AtNumbers (.leftParen :: inner) used rest result' := by
  intro before value behind heq
  refine himp _ _ ?_ ?_ (hused before value behind heq)
  · rw [heq, Token.numbers_append, Token.numbers_number, List.length_append, List.length_cons]
    omega
  · rw [heq, List.append_assoc]
    exact Exchange.append (.stop (by simp) (by simp) (by simp)) before

end AtNumbers

/-! ## An operand in the place of a number -/

namespace Reads

variable {registry : Registry} {budget extra : Nat} {phrase : Phrase} {ts rest : List Token}
  {u : Expr} {inner : List Token}

/-- The numbers of what has been read before a rest. -/
theorem numbers_eq {used : List Token} (hreads : registry.Reads budget phrase (used ++ rest) rest) :
    Token.numbers phrase.tokens = Token.numbers phrase.tokensBefore ++ Token.numbers used :=
  hreads.derives_append.numbers_eq

private theorem exists_replaceNumber
    (hoperand : ∀ budget token later, registry.Reads (extra + budget) (.operand u)
      (.leftParen :: (inner ++ token :: later)) (token :: later))
    (hreads : registry.Reads budget phrase ts rest) :
    ∃ used, ts = used ++ rest ∧ AtNumbers (.leftParen :: inner) used rest fun index ts =>
      registry.Reads (extra + budget) (phrase.replaceNumber index u) ts rest := by
  have hlarger (budget : Nat) : budget ≤ extra + budget := Nat.le_add_left budget extra
  induction hreads with
  | @expression budget minimum left e ts middle rest hleftReads hchainReads hleft hchain =>
      obtain ⟨first, rfl, hleft⟩ := hleft
      obtain ⟨later, rfl, hchain⟩ := hchain
      have hcount : left.numbers = Token.numbers first := hleftReads.numbers_eq
      refine ⟨first ++ later, by simp, .append (hleft.mono ?_) (hchain.mono ?_)⟩
      · intro index ts hlt _ hleft
        have hbehind := hchainReads.replaceBefore (hcount ▸ hlt) u
        exact .expression hleft (hbehind.mono (hlarger budget))
      · intro index ts _ hexchange hchain
        have hbefore := (hleftReads.exchange hexchange).mono (hlarger budget)
        rw [← hcount]
        exact .expression hbefore hchain
  | chainEnd => exact ⟨[], rfl, .nil⟩
  | @chain budget minimum left right e op operator ts middle rest hfind hlevel hrightReads
      hchainReads hright hchain =>
      obtain ⟨first, rfl, hright⟩ := hright
      obtain ⟨later, rfl, hchain⟩ := hchain
      have hcount : right.numbers = Token.numbers first := hrightReads.numbers_eq
      refine ⟨.operator op :: (first ++ later), by simp,
        .cons rfl (.append (hright.mono ?_) (hchain.mono ?_))⟩
      · intro index ts hlt _ hright
        have hinside :
            left.numbers.length + index < (Expr.binary left op right).numbers.length := by
          rw [Expr.numbers_binary, List.length_append, hcount]
          omega
        have hbehind := hchainReads.replaceBefore hinside u
        simp only [Phrase.replaceBefore, Expr.replaceNumber_right] at hbehind
        exact .chain hfind hlevel hright (hbehind.mono (hlarger budget))
      · intro index ts _ hexchange hchain
        have hbefore := (hrightReads.exchange hexchange).mono (hlarger budget)
        simp only [Phrase.replaceNumber, Expr.numbers_binary, List.length_append, hcount,
          Nat.add_assoc] at hchain
        exact .chain hfind hlevel hbefore hchain
  | @primary budget operand e ts middle rest hoperandReads hpostfixesReads hoperand hpostfixes =>
      obtain ⟨first, rfl, hoperand⟩ := hoperand
      obtain ⟨later, rfl, hpostfixes⟩ := hpostfixes
      have hcount : operand.numbers = Token.numbers first := hoperandReads.numbers_eq
      refine ⟨first ++ later, by simp, .append (hoperand.mono ?_) (hpostfixes.mono ?_)⟩
      · intro index ts hlt _ hoperand
        have hbehind := hpostfixesReads.replaceBefore (hcount ▸ hlt) u
        exact .primary hoperand (hbehind.mono (hlarger budget))
      · intro index ts _ hexchange hpostfixes
        have hbefore := (hoperandReads.exchange hexchange).mono (hlarger budget)
        rw [← hcount]
        exact .primary hbefore hpostfixes
  | postfixesEnd => exact ⟨[], rfl, .nil⟩
  | @postfixes budget operand e op ts rest hfind _ hpostfixes =>
      obtain ⟨later, rfl, hpostfixes⟩ := hpostfixes
      refine ⟨.operator op :: later, rfl, .cons rfl (hpostfixes.mono ?_)⟩
      intro index ts _ _ hpostfixes
      simp only [Phrase.replaceNumber, Expr.numbers_postfixed] at hpostfixes
      exact .postfixes hfind hpostfixes
  | @number budget value token rest =>
      refine ⟨[.number value], rfl, ?_⟩
      intro before value' behind heq
      cases before with
      | nil =>
          obtain ⟨_, rfl⟩ := List.cons.inj heq
          have hthere : (Expr.number value).replaceNumber 0 u = u := if_pos rfl
          simp only [Phrase.replaceNumber, Token.numbers_nil, List.length_nil, hthere]
          exact hoperand budget token rest
      | cons other before => simp at heq
  | @group budget e token ts rest _ hinner =>
      obtain ⟨used, rfl, hinner⟩ := hinner
      refine ⟨.leftParen :: (used ++ [.rightParen]), by simp,
        .cons rfl (.closing (hinner.mono ?_))⟩
      intro index ts _ _ hinner
      exact .group hinner
  | @prefixed budget operand op operator ts rest hfind _ hoperand =>
      obtain ⟨later, rfl, hoperand⟩ := hoperand
      refine ⟨.operator op :: later, rfl, .cons rfl (hoperand.mono ?_)⟩
      intro index ts _ _ hoperand
      exact .prefixed hfind hoperand
  | @call budget name f args token ts rest hfind harity _ hargs =>
      obtain ⟨used, rfl, hargs⟩ := hargs
      refine ⟨.function name :: .leftParen :: (used ++ [.rightParen]), by simp,
        .cons rfl (.cons rfl (.closing (hargs.mono ?_)))⟩
      intro index ts _ _ hargs
      exact .call hfind ((Expr.length_replaceNumberAll args index u).trans harity) hargs
  | noArguments => exact ⟨[], rfl, .nil⟩
  | @arguments budget e args ts middle rest hfirstReads hothersReads hfirst hothers =>
      obtain ⟨first, rfl, hfirst⟩ := hfirst
      obtain ⟨later, rfl, hothers⟩ := hothers
      have hcount : e.numbers = Token.numbers first := hfirstReads.numbers_eq
      refine ⟨first ++ later, by simp, .append (hfirst.mono ?_) (hothers.mono ?_)⟩
      · intro index ts hlt _ hfirst
        simp only [Phrase.replaceNumber, Expr.replaceNumberAll_first (hcount ▸ hlt)]
        exact .arguments hfirst (hothersReads.mono (hlarger budget))
      · intro index ts _ hexchange hothers
        have hbefore := (hfirstReads.exchange hexchange).mono (hlarger budget)
        simp only [Phrase.replaceNumber, ← hcount, Expr.replaceNumberAll_others]
        exact .arguments hbefore hothers
  | othersEnd => exact ⟨[], rfl, .nil⟩
  | @others budget e args ts middle rest hfirstReads hothersReads hfirst hothers =>
      obtain ⟨first, rfl, hfirst⟩ := hfirst
      obtain ⟨later, rfl, hothers⟩ := hothers
      have hcount : e.numbers = Token.numbers first := hfirstReads.numbers_eq
      refine ⟨.comma :: (first ++ later), by simp,
        .cons rfl (.append (hfirst.mono ?_) (hothers.mono ?_))⟩
      · intro index ts hlt _ hfirst
        simp only [Phrase.replaceNumber, Expr.replaceNumberAll_first (hcount ▸ hlt)]
        exact .others hfirst (hothersReads.mono (hlarger budget))
      · intro index ts _ hexchange hothers
        have hbefore := (hfirstReads.exchange hexchange).mono (hlarger budget)
        simp only [Phrase.replaceNumber, ← hcount, Expr.replaceNumberAll_others]
        exact .others hbefore hothers

/-- **An operand in the place of a number.**  If the tokens of an operand in parentheses
stand where a number stood, the same phrase is read, with the tree of the operand where
the number was. -/
theorem replaceNumber {before behind : List Token} {value : Number}
    (hoperand : ∀ budget token later, registry.Reads (extra + budget) (.operand u)
      (.leftParen :: (inner ++ token :: later)) (token :: later))
    (hreads : registry.Reads budget phrase (before ++ .number value :: (behind ++ rest)) rest) :
    registry.Reads (extra + budget) (phrase.replaceNumber (Token.numbers before).length u)
      (before ++ .leftParen :: (inner ++ (behind ++ rest))) rest := by
  obtain ⟨used, htokens, hnumbers⟩ := exists_replaceNumber hoperand hreads
  have hused : before ++ .number value :: behind = used :=
    List.append_cancel_right (by simpa using htokens)
  exact hnumbers before value behind hused.symm

end Reads

end Registry

end Reckoner
