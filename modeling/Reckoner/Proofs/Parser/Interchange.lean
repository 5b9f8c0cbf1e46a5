import Reckoner.Proofs.Evaluation.Renaming
import Reckoner.Proofs.Parser.Reading

/-!
# Reading with other names

In a role a name may take the place of another one if both stand for the same definition
there.  For a binary operator there is more to ask: where it is expected, the parser first
looks for a postfix operator, so the new name must not be one unless the old one was
(`Registry.Interchanges`).

If the names of a tree give way to such names, each in the role of its own node, then the new
tree is read from the tokens with the new names (`Reads.interchange`).

The induction goes through the reading and gives a reading of the renamed phrase.  The point
to settle in each case is that a part still ends where it ended.

* A binary operator behind a part goes on with it no more than the old one did, and a postfix
  operator behind it is no longer looked at than the old one (`Registry.Keeps`).
* A postfix operator may be exchanged for one that is a binary operator as well, where the old
  one was none.  What stands in front of it is an operand, and no operand with a prefix
  operator ends there: its own operand would have taken the postfix operator.
-/

namespace Reckoner

/-- A name that may stand for another one in a role. -/
structure Registry.Interchanges (registry : Registry) (role : Role) (name name' : Text) :
    Prop where
  same : registry.find? role name = registry.find? role name'
  postfixed : role = .binary → (registry.findUnary? .postfixed name').isSome = true →
    (registry.findUnary? .postfixed name).isSome = true

namespace Registry

variable {registry : Registry} {budget : Nat} {phrase : Phrase} {ts rest used used' : List Token}

theorem Interchanges.refl (role : Role) (name : Text) : registry.Interchanges role name name :=
  ⟨rfl, fun _ hpostfixed => hpostfixed⟩

/-! ## Where a part ends -/

/-- What ends at the first token ends at the second one, unless a postfix operator stands
there: then no more is said of binary operators. -/
structure Keeps (registry : Registry) (token token' : Token) : Prop where
  postfixed : registry.IsPostfix token' → registry.IsPostfix token
  binary {minimum : Int} : registry.IsBinary minimum token' →
    registry.IsPostfix token ∨ registry.IsBinary minimum token
  comma : token' = .comma → token = .comma
  rightParen : token = .rightParen → token' = .rightParen

theorem Keeps.refl (token : Token) : registry.Keeps token token :=
  ⟨id, .inr, id, id⟩

theorem Keeps.binary_operator {op op' : Text} (hop : registry.Interchanges .binary op op') :
    registry.Keeps (.operator op) (.operator op') where
  postfixed := by
    rintro ⟨_, heq, hpostfixed⟩
    obtain rfl := Token.operator.inj heq
    exact ⟨op, rfl, hop.postfixed rfl hpostfixed⟩
  binary := by
    rintro minimum ⟨_, operator, heq, hfind, hlevel⟩
    obtain rfl := Token.operator.inj heq
    rw [← findBinary?_eq_of_find?_eq hop.same] at hfind
    exact .inr ⟨op, operator, rfl, hfind, hlevel⟩
  comma := nofun
  rightParen := nofun

theorem Keeps.postfix_operator {op op' : Text}
    (hop : (registry.findUnary? .postfixed op).isSome = true) :
    registry.Keeps (.operator op) (.operator op') where
  postfixed := fun _ => ⟨op, rfl, hop⟩
  binary := fun _ => .inl ⟨op, rfl, hop⟩
  comma := nofun
  rightParen := nofun

/-- What ends before the first tokens ends before the second ones. -/
inductive Behind (registry : Registry) : List Token → List Token → Prop
  | head {token token' : Token} {later later' : List Token} (hkeeps : registry.Keeps token token') :
      Behind registry (token :: later) (token' :: later')

/-! ## Phrases with other names -/

/-- A phrase is read from the new tokens wherever the old ones were. -/
structure ReadsLike (registry : Registry) (budget : Nat) (phrase : Phrase)
    (used used' rest : List Token) : Prop where
  alike : List.Forall₂ (Token.Alike fun _ _ => True) used used'
  reads {rest' : List Token} : registry.Behind rest rest' →
    registry.Reads budget phrase (used' ++ rest') rest'

/-- What ends before the old tokens ends before the new ones. -/
def Leads (registry : Registry) (used used' rest : List Token) : Prop :=
  ∀ rest', registry.Behind rest rest' → registry.Behind (used ++ rest) (used' ++ rest')

theorem Leads.nil : registry.Leads [] [] rest :=
  fun _ hbehind => hbehind

theorem Leads.cons {token token' : Token} (hkeeps : registry.Keeps token token') :
    registry.Leads (token :: used) (token' :: used') rest :=
  fun _ _ => .head hkeeps

/-- A phrase that takes some tokens before a rest can be read with any names for its tree that
may stand for the old ones.  Where the phrase begins with a tree of its own, the new tree
tells the new one, and what stands in front of the phrase still ends there. -/
def Interchangeable (registry : Registry) (budget : Nat) (used rest : List Token) : Phrase → Prop
  | .expression minimum e => ∀ {e'}, e.Renames registry.Interchanges e' →
      ∃ used', registry.ReadsLike budget (.expression minimum e') used used' rest
  | .primary e => ∀ {e'}, e.Renames registry.Interchanges e' →
      ∃ used', registry.ReadsLike budget (.primary e') used used' rest
  | .operand e => ∀ {e'}, e.Renames registry.Interchanges e' →
      ∃ used', registry.ReadsLike budget (.operand e') used used' rest
  | .chain minimum left e => ∀ {e'}, e.Renames registry.Interchanges e' →
      (∀ token ∈ rest.head?, ¬ registry.IsPostfix token) →
      ∃ left' used', left.Renames registry.Interchanges left' ∧ registry.Leads used used' rest ∧
        registry.ReadsLike budget (.chain minimum left' e') used used' rest
  | .postfixes inner e => ∀ {e'}, e.Renames registry.Interchanges e' →
      ∃ inner' used', inner.Renames registry.Interchanges inner' ∧
        registry.Leads used used' rest ∧
        registry.ReadsLike budget (.postfixes inner' e') used used' rest
  | .arguments args => ∀ {args'}, List.Forall₂ (Expr.Renames registry.Interchanges) args args' →
      ∃ used', registry.ReadsLike budget (.arguments args') used used' rest
  | .others args => ∀ {args'}, List.Forall₂ (Expr.Renames registry.Interchanges) args args' →
      ∃ used', registry.Leads used used' rest ∧
        registry.ReadsLike budget (.others args') used used' rest

/-! ## Reading -/

private theorem Reads.exists_interchangeable (hreads : registry.Reads budget phrase ts rest) :
    ∃ used, ts = used ++ rest ∧ registry.Interchangeable budget used rest phrase := by
  induction hreads with
  | @expression budget minimum left e ts middle rest hleftReads hchainReads hleft hchain =>
      obtain ⟨first, rfl, hleft⟩ := hleft
      obtain ⟨later, rfl, hchain⟩ := hchain
      refine ⟨first ++ later, by simp, fun he => ?_⟩
      -- no postfix operator stands behind an expression
      have hend : ∀ token ∈ rest.head?, ¬ registry.IsPostfix token := by
        intro token htoken
        obtain ⟨behind, rfl⟩ := List.head?_eq_some_iff.mp htoken
        exact (Reads.expression hleftReads hchainReads).stops.1
      obtain ⟨left', later', hleft', hleads, hlater⟩ := hchain he hend
      obtain ⟨first', hfirst⟩ := hleft hleft'
      refine ⟨first' ++ later', List.rel_append hfirst.alike hlater.alike, fun hbehind => ?_⟩
      rw [List.append_assoc]
      exact .expression (hfirst.reads (hleads _ hbehind)) (hlater.reads hbehind)
  | @chainEnd budget minimum e token rest hstop =>
      refine ⟨[], rfl, fun {e'} he hend => ⟨e', [], he, .nil, .nil, ?_⟩⟩
      rintro _ ⟨hkeeps⟩
      refine .chainEnd fun hbinary => ?_
      exact (hkeeps.binary hbinary).elim (hend token rfl) hstop
  | @chain budget minimum left right e op operator ts middle rest hfind hlevel _ _ hright hchain =>
      obtain ⟨first, rfl, hright⟩ := hright
      obtain ⟨later, rfl, hchain⟩ := hchain
      refine ⟨.operator op :: (first ++ later), by simp, fun he hend => ?_⟩
      obtain ⟨joined, later', hjoined, hleads, hlater⟩ := hchain he hend
      cases hjoined with
      | @binary _ left' _ right' _ op' hleft' hop hright' =>
          obtain ⟨first', hfirst⟩ := hright hright'
          rw [findBinary?_eq_of_find?_eq hop.same] at hfind
          refine ⟨left', .operator op' :: (first' ++ later'), hleft', .cons (.binary_operator hop),
            .cons (.operator trivial) (List.rel_append hfirst.alike hlater.alike),
            fun hbehind => ?_⟩
          rw [List.cons_append, List.append_assoc]
          exact .chain hfind hlevel (hfirst.reads (hleads _ hbehind)) (hlater.reads hbehind)
  | primary _ _ hoperand hpostfixes =>
      obtain ⟨first, rfl, hoperand⟩ := hoperand
      obtain ⟨later, rfl, hpostfixes⟩ := hpostfixes
      refine ⟨first ++ later, by simp, fun he => ?_⟩
      obtain ⟨inner', later', hinner', hleads, hlater⟩ := hpostfixes he
      obtain ⟨first', hfirst⟩ := hoperand hinner'
      refine ⟨first' ++ later', List.rel_append hfirst.alike hlater.alike, fun hbehind => ?_⟩
      rw [List.append_assoc]
      exact .primary (hfirst.reads (hleads _ hbehind)) (hlater.reads hbehind)
  | postfixesEnd hstop =>
      refine ⟨[], rfl, fun {e'} he => ⟨e', [], he, .nil, .nil, ?_⟩⟩
      rintro _ ⟨hkeeps⟩
      exact .postfixesEnd fun hpostfixed => hstop (hkeeps.postfixed hpostfixed)
  | @postfixes budget operand e op ts rest hfind _ hpostfixes =>
      obtain ⟨later, rfl, hpostfixes⟩ := hpostfixes
      refine ⟨.operator op :: later, rfl, fun he => ?_⟩
      obtain ⟨applied, later', happlied, _, hlater⟩ := hpostfixes he
      cases happlied with
      | @postfixed _ operand' _ op' hoperand' hop =>
          refine ⟨operand', .operator op' :: later', hoperand', .cons (.postfix_operator hfind),
            .cons (.operator trivial) hlater.alike, fun hbehind => ?_⟩
          rw [findUnary?_eq_of_find?_eq hop.same] at hfind
          exact .postfixes hfind (hlater.reads hbehind)
  | @number budget value token rest =>
      refine ⟨[.number value], rfl, fun he => ?_⟩
      cases he
      refine ⟨[.number value], .cons (.number value) .nil, ?_⟩
      rintro _ ⟨_⟩
      exact .number
  | @group budget e token ts rest _ hinner =>
      obtain ⟨inner, rfl, hinner⟩ := hinner
      refine ⟨.leftParen :: (inner ++ [.rightParen]), by simp, fun he => ?_⟩
      obtain ⟨inner', hinner'⟩ := hinner he
      refine ⟨.leftParen :: (inner' ++ [.rightParen]),
        .cons .leftParen (List.rel_append hinner'.alike (.cons .rightParen .nil)), ?_⟩
      rintro _ ⟨_⟩
      rw [List.cons_append, List.append_assoc]
      exact .group (hinner'.reads (.head (.refl .rightParen)))
  | @prefixed budget operand op operator ts rest hfind _ hoperand =>
      obtain ⟨later, rfl, hoperand⟩ := hoperand
      refine ⟨.operator op :: later, rfl, fun he => ?_⟩
      cases he with
      | @prefixed _ op' _ operand' hop hoperand' =>
          obtain ⟨later', hlater⟩ := hoperand hoperand'
          rw [findUnary?_eq_of_find?_eq hop.same] at hfind
          exact ⟨.operator op' :: later', .cons (.operator trivial) hlater.alike,
            fun hbehind => .prefixed hfind (hlater.reads hbehind)⟩
  | @call budget name f args token ts rest hfind harity _ hargs =>
      obtain ⟨inner, rfl, hargs⟩ := hargs
      refine ⟨.function name :: .leftParen :: (inner ++ [.rightParen]), by simp, fun he => ?_⟩
      cases he with
      | @call _ name' _ args' hname hargs' =>
          obtain ⟨inner', hinner'⟩ := hargs hargs'
          rw [findFunction?_eq_of_find?_eq hname.same] at hfind
          rw [hargs'.length_eq] at harity
          refine ⟨.function name' :: .leftParen :: (inner' ++ [.rightParen]),
            .cons (.function trivial) (.cons .leftParen
              (List.rel_append hinner'.alike (.cons .rightParen .nil))), ?_⟩
          rintro _ ⟨_⟩
          rw [List.cons_append, List.cons_append, List.append_assoc]
          exact .call hfind harity (hinner'.reads (.head (.refl .rightParen)))
  | noArguments =>
      refine ⟨[], rfl, fun hargs => ?_⟩
      cases hargs
      refine ⟨[], .nil, ?_⟩
      rintro _ ⟨hkeeps⟩
      obtain rfl := hkeeps.rightParen rfl
      exact .noArguments
  | arguments _ _ hfirst hothers =>
      obtain ⟨first, rfl, hfirst⟩ := hfirst
      obtain ⟨later, rfl, hothers⟩ := hothers
      refine ⟨first ++ later, by simp, fun hargs => ?_⟩
      cases hargs with
      | cons he hargs =>
          obtain ⟨later', hleads, hlater⟩ := hothers hargs
          obtain ⟨first', hfirst⟩ := hfirst he
          refine ⟨first' ++ later', List.rel_append hfirst.alike hlater.alike, fun hbehind => ?_⟩
          rw [List.append_assoc]
          exact .arguments (hfirst.reads (hleads _ hbehind)) (hlater.reads hbehind)
  | othersEnd hstop =>
      refine ⟨[], rfl, fun hargs => ?_⟩
      cases hargs
      refine ⟨[], .nil, .nil, ?_⟩
      rintro _ ⟨hkeeps⟩
      exact .othersEnd fun hcomma => hstop (hkeeps.comma hcomma)
  | others _ _ hfirst hothers =>
      obtain ⟨first, rfl, hfirst⟩ := hfirst
      obtain ⟨later, rfl, hothers⟩ := hothers
      refine ⟨.comma :: (first ++ later), by simp, fun hargs => ?_⟩
      cases hargs with
      | cons he hargs =>
          obtain ⟨later', hleads, hlater⟩ := hothers hargs
          obtain ⟨first', hfirst⟩ := hfirst he
          refine ⟨.comma :: (first' ++ later'), .cons (.refl .comma),
            .cons .comma (List.rel_append hfirst.alike hlater.alike), fun hbehind => ?_⟩
          rw [List.cons_append, List.append_assoc]
          exact .others (hfirst.reads (hleads _ hbehind)) (hlater.reads hbehind)

/-- **Names are exchanged.**  If the names of the tree of an expression give way to others that
may stand for them, the new tree is read from tokens that differ in names only. -/
theorem Reads.interchange {minimum : Int} {e e' : Expr} {token : Token}
    (hreads : registry.Reads budget (.expression minimum e) (used ++ token :: rest) (token :: rest))
    (hrenames : e.Renames registry.Interchanges e') :
    ∃ used', List.Forall₂ (Token.Alike fun _ _ => True) used used' ∧
      registry.Reads budget (.expression minimum e') (used' ++ token :: rest) (token :: rest) := by
  obtain ⟨taken, htaken, hinterchange⟩ := hreads.exists_interchangeable
  obtain rfl := List.append_cancel_right htaken
  obtain ⟨used', halike, hreads'⟩ := hinterchange hrenames
  exact ⟨used', halike, hreads' (.head (.refl token))⟩

end Registry

end Reckoner
