import Reckoner.Proofs.Parser.Grammar

/-!
# Greedy reading

The grammar leaves open where an operand ends; the parser ends it as late as it
can.  `Registry.Reads` is the grammar with that choice made.  It has the rules of
`Registry.Derives`, each with the tokens that stand behind what it reads: a group
of binary or postfix operators ends only where the next token cannot belong to it.

```text
Reads budget phrase ts rest    of the tokens ts, phrase takes those before rest
```

The budget counts the expressions that may be open at once.  It is the parser's
limit of nesting without the parser: no states, no errors and no heights.

* `Reads.derives`: what is read can be derived.
* `Reads.mono`: a larger budget reads the same.
* `Reads.stops`: an expression ends before a token that is neither a postfix
  operator nor a binary operator of its level.  The condition of the innermost
  group is carried outward through operands that end with other operands.
-/

namespace Reckoner

namespace Registry

/-! ## Tokens that go on -/

/-- A token that names a postfix operator. -/
def IsPostfix (registry : Registry) (token : Token) : Prop :=
  ∃ op, token = .operator op ∧ (registry.findUnary? .postfixed op).isSome = true

/-- A token that names a binary operator binding at least as tightly as
`minimum`. -/
def IsBinary (registry : Registry) (minimum : Int) (token : Token) : Prop :=
  ∃ op operator, token = .operator op ∧ registry.findBinary? op = some operator ∧
    minimum ≤ operator.precedence.level

section

variable {registry : Registry} {token : Token}

theorem not_isPostfix_of_ne (hne : ∀ op, token ≠ .operator op) : ¬ registry.IsPostfix token := by
  rintro ⟨op, h, _⟩
  exact hne op h

theorem not_isBinary_of_ne {minimum : Int} (hne : ∀ op, token ≠ .operator op) :
    ¬ registry.IsBinary minimum token := by
  rintro ⟨op, _, h, _⟩
  exact hne op h

end

/-! ## The rules -/

/-- Of some tokens a phrase takes those before the rest, with as many
expressions open at once as the budget allows. -/
inductive Reads (registry : Registry) : Nat → Phrase → List Token → List Token → Prop
  | expression {budget : Nat} {minimum : Int} {left e : Expr} {ts middle rest : List Token}
      (hleft : Reads registry budget (.primary left) ts middle)
      (hchain : Reads registry budget (.chain minimum left e) middle rest) :
      Reads registry (budget + 1) (.expression minimum e) ts rest
  | chainEnd {budget : Nat} {minimum : Int} {e : Expr} {token : Token} {rest : List Token}
      (hstop : ¬ registry.IsBinary minimum token) :
      Reads registry budget (.chain minimum e e) (token :: rest) (token :: rest)
  | chain {budget : Nat} {minimum : Int} {left right e : Expr} {op : Text}
      {operator : BinaryOperator} {ts middle rest : List Token}
      (hfind : registry.findBinary? op = some operator)
      (hlevel : minimum ≤ operator.precedence.level)
      (hright : Reads registry budget (.expression operator.rightMinimum right) ts middle)
      (hchain : Reads registry budget (.chain minimum (.binary left op right) e) middle rest) :
      Reads registry budget (.chain minimum left e) (.operator op :: ts) rest
  | primary {budget : Nat} {inner e : Expr} {ts middle rest : List Token}
      (hoperand : Reads registry budget (.operand inner) ts middle)
      (hpostfixes : Reads registry budget (.postfixes inner e) middle rest) :
      Reads registry budget (.primary e) ts rest
  | postfixesEnd {budget : Nat} {e : Expr} {token : Token} {rest : List Token}
      (hstop : ¬ registry.IsPostfix token) :
      Reads registry budget (.postfixes e e) (token :: rest) (token :: rest)
  | postfixes {budget : Nat} {operand e : Expr} {op : Text} {ts rest : List Token}
      (hfind : (registry.findUnary? .postfixed op).isSome = true)
      (hpostfixes : Reads registry budget (.postfixes (.postfixed operand op) e) ts rest) :
      Reads registry budget (.postfixes operand e) (.operator op :: ts) rest
  | number {budget : Nat} {value : Number} {token : Token} {rest : List Token} :
      Reads registry budget (.operand (.number value)) (.number value :: token :: rest)
        (token :: rest)
  | group {budget : Nat} {e : Expr} {token : Token} {ts rest : List Token}
      (hinner : Reads registry budget (.expression 0 e) ts (.rightParen :: token :: rest)) :
      Reads registry budget (.operand e) (.leftParen :: ts) (token :: rest)
  | prefixed {budget : Nat} {operand : Expr} {op : Text} {operator : UnaryOperator}
      {ts rest : List Token} (hfind : registry.findUnary? .prefixed op = some operator)
      (hoperand : Reads registry budget (.expression operator.precedence.level operand) ts rest) :
      Reads registry budget (.operand (.prefixed op operand)) (.operator op :: ts) rest
  | call {budget : Nat} {name : Text} {f : Function} {args : List Expr} {token : Token}
      {ts rest : List Token} (hfind : registry.findFunction? name = some f)
      (harity : args.length = f.arity)
      (hargs : Reads registry budget (.arguments args) ts (.rightParen :: token :: rest)) :
      Reads registry budget (.operand (.call name args)) (.function name :: .leftParen :: ts)
        (token :: rest)
  | noArguments {budget : Nat} {rest : List Token} :
      Reads registry budget (.arguments []) (.rightParen :: rest) (.rightParen :: rest)
  | arguments {budget : Nat} {e : Expr} {args : List Expr} {ts middle rest : List Token}
      (hfirst : Reads registry budget (.expression 0 e) ts middle)
      (hothers : Reads registry budget (.others args) middle rest) :
      Reads registry budget (.arguments (e :: args)) ts rest
  | othersEnd {budget : Nat} {token : Token} {rest : List Token} (hstop : token ≠ .comma) :
      Reads registry budget (.others []) (token :: rest) (token :: rest)
  | others {budget : Nat} {e : Expr} {args : List Expr} {ts middle rest : List Token}
      (hfirst : Reads registry budget (.expression 0 e) ts middle)
      (hothers : Reads registry budget (.others args) middle rest) :
      Reads registry budget (.others (e :: args)) (.comma :: ts) rest

namespace Reads

variable {registry : Registry} {budget : Nat} {phrase : Phrase} {ts rest : List Token}

/-! ## What is read can be derived -/

theorem derives (hreads : registry.Reads budget phrase ts rest) :
    ∃ used, ts = used ++ rest ∧ registry.Derives phrase used := by
  induction hreads with
  | expression _ _ hleft hchain =>
      obtain ⟨first, rfl, hleft⟩ := hleft
      obtain ⟨later, rfl, hchain⟩ := hchain
      exact ⟨first ++ later, by simp, .expression hleft hchain⟩
  | chainEnd => exact ⟨[], rfl, .chainEnd⟩
  | chain hfind hlevel _ _ hright hchain =>
      obtain ⟨first, rfl, hright⟩ := hright
      obtain ⟨later, rfl, hchain⟩ := hchain
      exact ⟨_ :: (first ++ later), by simp, .chain hfind hlevel hright hchain⟩
  | primary _ _ hoperand hpostfixes =>
      obtain ⟨first, rfl, hoperand⟩ := hoperand
      obtain ⟨later, rfl, hpostfixes⟩ := hpostfixes
      exact ⟨first ++ later, by simp, .primary hoperand hpostfixes⟩
  | postfixesEnd => exact ⟨[], rfl, .postfixesEnd⟩
  | postfixes hfind _ hpostfixes =>
      obtain ⟨later, rfl, hpostfixes⟩ := hpostfixes
      exact ⟨_ :: later, rfl, .postfixes hfind hpostfixes⟩
  | number => exact ⟨[_], rfl, .number⟩
  | group _ hinner =>
      obtain ⟨inner, rfl, hinner⟩ := hinner
      exact ⟨.leftParen :: (inner ++ [.rightParen]), by simp, .group hinner⟩
  | prefixed hfind _ hoperand =>
      obtain ⟨later, rfl, hoperand⟩ := hoperand
      exact ⟨_ :: later, rfl, .prefixed hfind hoperand⟩
  | call hfind harity _ hargs =>
      obtain ⟨inner, rfl, hargs⟩ := hargs
      exact ⟨_ :: .leftParen :: (inner ++ [.rightParen]), by simp, .call hfind harity hargs⟩
  | noArguments => exact ⟨[], rfl, .noArguments⟩
  | arguments _ _ hfirst hothers =>
      obtain ⟨first, rfl, hfirst⟩ := hfirst
      obtain ⟨later, rfl, hothers⟩ := hothers
      exact ⟨first ++ later, by simp, .arguments hfirst hothers⟩
  | othersEnd => exact ⟨[], rfl, .othersEnd⟩
  | others _ _ hfirst hothers =>
      obtain ⟨first, rfl, hfirst⟩ := hfirst
      obtain ⟨later, rfl, hothers⟩ := hothers
      exact ⟨.comma :: (first ++ later), by simp, .others hfirst hothers⟩

/-- What is read before a rest is derived. -/
theorem derives_append {used : List Token} (hreads : registry.Reads budget phrase (used ++ rest) rest) :
    registry.Derives phrase used := by
  obtain ⟨taken, htaken, hderives⟩ := hreads.derives
  rwa [List.append_cancel_right htaken]

theorem length_le (hreads : registry.Reads budget phrase ts rest) : rest.length ≤ ts.length := by
  obtain ⟨used, rfl, _⟩ := hreads.derives
  simp

theorem subset (hreads : registry.Reads budget phrase ts rest) : rest ⊆ ts := by
  obtain ⟨used, rfl, _⟩ := hreads.derives
  exact List.subset_append_right used rest

theorem grows (hreads : registry.Reads budget phrase ts rest) : phrase.Grows := by
  obtain ⟨used, rfl, hderives⟩ := hreads.derives
  exact hderives.grows

/-! ## Budgets -/

/-- What a budget reads, a larger one reads too. -/
theorem mono (hreads : registry.Reads budget phrase ts rest) {larger : Nat}
    (hle : budget ≤ larger) : registry.Reads larger phrase ts rest := by
  induction hreads generalizing larger with
  | expression _ _ hleft hchain =>
      obtain ⟨larger, rfl⟩ : ∃ smaller, larger = smaller + 1 := ⟨larger - 1, by omega⟩
      have hle := Nat.le_of_succ_le_succ hle
      exact .expression (hleft hle) (hchain hle)
  | chainEnd hstop => exact .chainEnd hstop
  | chain hfind hlevel _ _ hright hchain => exact .chain hfind hlevel (hright hle) (hchain hle)
  | primary _ _ hoperand hpostfixes => exact .primary (hoperand hle) (hpostfixes hle)
  | postfixesEnd hstop => exact .postfixesEnd hstop
  | postfixes hfind _ hpostfixes => exact .postfixes hfind (hpostfixes hle)
  | number => exact .number
  | group _ hinner => exact .group (hinner hle)
  | prefixed hfind _ hoperand => exact .prefixed hfind (hoperand hle)
  | call hfind harity _ hargs => exact .call hfind harity (hargs hle)
  | noArguments => exact .noArguments
  | arguments _ _ hfirst hothers => exact .arguments (hfirst hle) (hothers hle)
  | othersEnd hstop => exact .othersEnd hstop
  | others _ _ hfirst hothers => exact .others (hfirst hle) (hothers hle)

/-! ## Where reading ends -/

theorem exists_rest (hreads : registry.Reads budget phrase ts rest) :
    ∃ token later, rest = token :: later := by
  induction hreads <;> first | assumption | exact ⟨_, _, rfl⟩

theorem exists_cons (hreads : registry.Reads budget phrase ts rest) :
    ∃ token later, ts = token :: later := by
  obtain ⟨token, later, hrest⟩ := hreads.exists_rest
  have hlength := hreads.length_le
  cases ts with
  | nil => simp [hrest] at hlength
  | cons first behind => exact ⟨first, behind, rfl⟩

/-- What is known of the token at which the reading of a phrase ends, where `ts`
are the tokens at which it begins. -/
def Stops (registry : Registry) (ts : List Token) (token : Token) : Phrase → Prop
  | .expression minimum _ => ¬ registry.IsPostfix token ∧ ¬ registry.IsBinary minimum token
  | .chain minimum _ _ =>
    ¬ registry.IsBinary minimum token ∧
      (registry.IsPostfix token → ∃ first later, ts = first :: later ∧ registry.IsPostfix first)
  | .primary _ => ¬ registry.IsPostfix token
  | .postfixes _ _ => ¬ registry.IsPostfix token
  | .others _ => token ≠ .comma
  | .operand _ => True
  | .arguments _ => True

private theorem stops_of_eq (hreads : registry.Reads budget phrase ts rest) {token : Token}
    {later : List Token} (hrest : rest = token :: later) : Stops registry ts token phrase := by
  induction hreads generalizing token later with
  | expression _ _ hleft hchain =>
      obtain ⟨hbinary, hpost⟩ := hchain hrest
      -- a postfix operator behind the chain would stand behind its first operand
      refine ⟨fun h => ?_, hbinary⟩
      obtain ⟨first, behind, rfl, hfirst⟩ := hpost h
      exact hleft rfl hfirst
  | chainEnd hstop =>
      obtain ⟨rfl, rfl⟩ := List.cons.inj hrest
      exact ⟨hstop, fun h => ⟨_, _, rfl, h⟩⟩
  | chain _ _ _ _ hright hchain =>
      obtain ⟨hbinary, hpost⟩ := hchain hrest
      refine ⟨hbinary, fun h => ?_⟩
      -- the same of the rest of the chain, which begins behind the right operand
      obtain ⟨first, behind, rfl, hfirst⟩ := hpost h
      exact absurd hfirst (hright rfl).1
  | primary _ _ _ hpostfixes => exact hpostfixes hrest
  | postfixesEnd hstop =>
      obtain ⟨rfl, rfl⟩ := List.cons.inj hrest
      exact hstop
  | postfixes _ _ hpostfixes => exact hpostfixes hrest
  | othersEnd hstop =>
      obtain ⟨rfl, rfl⟩ := List.cons.inj hrest
      exact hstop
  | others _ _ _ hothers => exact hothers hrest
  | number => trivial
  | group => trivial
  | prefixed => trivial
  | call => trivial
  | noArguments => trivial
  | arguments => trivial

/-- **An expression ends only where it must.**  The token behind what has been
read cannot belong to it. -/
theorem stops {token : Token} (hreads : registry.Reads budget phrase ts (token :: rest)) :
    Stops registry ts token phrase :=
  stops_of_eq hreads rfl

/-- No expression begins with a closing parenthesis. -/
theorem head_ne_rightParen {minimum : Int} {e : Expr} {later : List Token}
    (hreads : registry.Reads budget (.expression minimum e) ts rest) :
    ts ≠ .rightParen :: later := by
  cases hreads with
  | expression hleft _ =>
      cases hleft with
      | primary hoperand _ => cases hoperand <;> simp

end Reads

end Registry

end Reckoner
