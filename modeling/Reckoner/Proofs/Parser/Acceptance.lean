import Reckoner.Proofs.Parser.Grammar

/-!
# Acceptance without trees

Whether tokens can be derived depends on little of what has been read so far.  An
acceptor that goes through the tokens once keeps

* whether an operand or an operator comes next,
* the least of the minimums of the expressions that are open inside the innermost
  parentheses, and
* for each open parenthesis the least minimum outside it and the number of
  arguments that must follow the current one.

An operator is taken if the least minimum allows it, by whichever of the open
expressions: the others may end before it.  The right operand of a binary
operator opens an expression whose minimum is no lower, so the least minimum
stays.  Only a prefix operator can lower it.

`Registry.Derives.accepts`: whatever is derived, in any way, is accepted.
`Accepts.loosen`: lower minimums accept more.
-/

namespace Reckoner

/-! ## Frames -/

/-- An open parenthesis. -/
structure Frame where
  /-- The least minimum outside the parentheses. -/
  minimum : Int
  /-- The number of arguments behind the current one; none in a group. -/
  missing : Nat

/-- The same open parentheses, with minimums that are no higher. -/
inductive Frame.Looser : List Frame → List Frame → Prop
  | nil : Looser [] []
  | cons {looser minimum : Int} {missing : Nat} {frames frames' : List Frame}
      (hle : looser ≤ minimum) (hframes : Looser frames' frames) :
      Looser (⟨looser, missing⟩ :: frames') (⟨minimum, missing⟩ :: frames)

theorem Frame.Looser.refl : ∀ frames : List Frame, Looser frames frames
  | [] => .nil
  | _ :: frames => .cons (Int.le_refl _) (refl frames)

/-! ## The acceptor -/

/-- What the acceptor expects next. -/
inductive Expects
  | operand
  | operator

/-- The tokens, up to the end of input, can be accepted with the given least
minimum and open parentheses. -/
inductive Registry.Accepts (registry : Registry) :
    Expects → Int → List Frame → List Token → Prop
  | number {minimum : Int} {frames : List Frame} {value : Number} {ts : List Token}
      (hlater : Accepts registry .operator minimum frames ts) :
      Accepts registry .operand minimum frames (.number value :: ts)
  | group {minimum : Int} {frames : List Frame} {ts : List Token}
      (hlater : Accepts registry .operand 0 (⟨minimum, 0⟩ :: frames) ts) :
      Accepts registry .operand minimum frames (.leftParen :: ts)
  | prefixed {minimum : Int} {frames : List Frame} {op : Text} {operator : UnaryOperator}
      {ts : List Token} (hfind : registry.findUnary? .prefixed op = some operator)
      (hlater : Accepts registry .operand (min minimum operator.precedence.level) frames ts) :
      Accepts registry .operand minimum frames (.operator op :: ts)
  | emptyCall {minimum : Int} {frames : List Frame} {name : Text} {f : Function}
      {ts : List Token} (hfind : registry.findFunction? name = some f) (harity : f.arity = 0)
      (hlater : Accepts registry .operator minimum frames ts) :
      Accepts registry .operand minimum frames
        (.function name :: .leftParen :: .rightParen :: ts)
  | call {minimum : Int} {frames : List Frame} {name : Text} {f : Function} {missing : Nat}
      {ts : List Token} (hfind : registry.findFunction? name = some f)
      (harity : f.arity = missing + 1)
      (hlater : Accepts registry .operand 0 (⟨minimum, missing⟩ :: frames) ts) :
      Accepts registry .operand minimum frames (.function name :: .leftParen :: ts)
  | postfixed {minimum : Int} {frames : List Frame} {op : Text} {ts : List Token}
      (hfind : (registry.findUnary? .postfixed op).isSome = true)
      (hlater : Accepts registry .operator minimum frames ts) :
      Accepts registry .operator minimum frames (.operator op :: ts)
  | binary {minimum : Int} {frames : List Frame} {op : Text} {operator : BinaryOperator}
      {ts : List Token} (hfind : registry.findBinary? op = some operator)
      (hlevel : minimum ≤ operator.precedence.level)
      (hlater : Accepts registry .operand minimum frames ts) :
      Accepts registry .operator minimum frames (.operator op :: ts)
  | closing {minimum outer : Int} {frames : List Frame} {ts : List Token}
      (hlater : Accepts registry .operator outer frames ts) :
      Accepts registry .operator minimum (⟨outer, 0⟩ :: frames) (.rightParen :: ts)
  | comma {minimum outer : Int} {missing : Nat} {frames : List Frame} {ts : List Token}
      (hlater : Accepts registry .operand 0 (⟨outer, missing⟩ :: frames) ts) :
      Accepts registry .operator minimum (⟨outer, missing + 1⟩ :: frames) (.comma :: ts)
  | ended {minimum : Int} : Accepts registry .operator minimum [] [.endOfInput]

namespace Registry

variable {registry : Registry} {expects : Expects} {minimum : Int} {frames : List Frame}
  {ts : List Token}

/-- Lower minimums accept more. -/
theorem Accepts.loosen (haccepts : registry.Accepts expects minimum frames ts) {looser : Int}
    {frames' : List Frame} (hle : looser ≤ minimum) (hframes : Frame.Looser frames' frames) :
    registry.Accepts expects looser frames' ts := by
  induction haccepts generalizing looser frames' with
  | number _ ih => exact .number (ih hle hframes)
  | group _ ih => exact .group (ih (Int.le_refl _) (.cons hle hframes))
  | prefixed hfind _ ih => exact .prefixed hfind (ih (by omega) hframes)
  | emptyCall hfind harity _ ih => exact .emptyCall hfind harity (ih hle hframes)
  | call hfind harity _ ih => exact .call hfind harity (ih (Int.le_refl _) (.cons hle hframes))
  | postfixed hfind _ ih => exact .postfixed hfind (ih hle hframes)
  | binary hfind hlevel _ ih => exact .binary hfind (Int.le_trans hle hlevel) (ih hle hframes)
  | closing _ ih =>
      cases hframes with
      | cons houter hframes => exact .closing (ih houter hframes)
  | comma _ ih =>
      cases hframes with
      | cons houter hframes => exact .comma (ih (Int.le_refl _) (.cons houter hframes))
  | ended =>
      cases hframes
      exact .ended

theorem Accepts.exists_cons (haccepts : registry.Accepts expects minimum frames ts) :
    ∃ token later, ts = token :: later := by
  cases haccepts <;> exact ⟨_, _, rfl⟩

/-- A right operand keeps the least minimum: its own is at least the level of its
operator. -/
theorem level_le_rightMinimum (operator : BinaryOperator) :
    operator.precedence.level ≤ operator.rightMinimum := by
  have hrange := operator.precedence.inRange.2
  unfold BinaryOperator.rightMinimum
  cases operator.associativity with
  | left => simp only; omega
  | right => exact Int.le_refl _

/-! ## Derived tokens are accepted -/

/-- What the acceptor does with the tokens derived from a phrase: it goes through
them if it can go on behind them. -/
def Passes (registry : Registry) (used : List Token) : Phrase → Prop
  | .expression limit _ => ∀ {minimum frames rest}, minimum ≤ limit →
      registry.Accepts .operator minimum frames rest →
      registry.Accepts .operand minimum frames (used ++ rest)
  | .chain limit _ _ => ∀ {minimum frames rest}, minimum ≤ limit →
      registry.Accepts .operator minimum frames rest →
      registry.Accepts .operator minimum frames (used ++ rest)
  | .primary _ => ∀ {minimum frames rest}, registry.Accepts .operator minimum frames rest →
      registry.Accepts .operand minimum frames (used ++ rest)
  | .postfixes _ _ => ∀ {minimum frames rest}, registry.Accepts .operator minimum frames rest →
      registry.Accepts .operator minimum frames (used ++ rest)
  | .operand _ => ∀ {minimum frames rest}, registry.Accepts .operator minimum frames rest →
      registry.Accepts .operand minimum frames (used ++ rest)
  | .arguments [] => used = []
  | .arguments (_ :: others) => ∀ {minimum frames rest},
      registry.Accepts .operator minimum frames rest →
      registry.Accepts .operand 0 (⟨minimum, others.length⟩ :: frames)
        (used ++ .rightParen :: rest)
  | .others args => ∀ {minimum frames rest}, registry.Accepts .operator minimum frames rest →
      registry.Accepts .operator 0 (⟨minimum, args.length⟩ :: frames)
        (used ++ .rightParen :: rest)

theorem Derives.passes {phrase : Phrase} {used : List Token}
    (hderives : registry.Derives phrase used) : Passes registry used phrase := by
  induction hderives with
  | expression _ _ hleft hchain =>
      intro minimum frames rest hle hrest
      rw [List.append_assoc]
      exact hleft (hchain hle hrest)
  | chainEnd => exact fun _ hrest => hrest
  | @chain _ _ _ _ _ operator _ _ hfind hlevel _ _ hright hchain =>
      intro minimum frames rest hle hrest
      -- the least minimum also allows the right operand
      have hopen := level_le_rightMinimum operator
      rw [List.cons_append, List.append_assoc]
      exact .binary hfind (by omega) (hright (by omega) (hchain hle hrest))
  | primary _ _ hoperand hpostfixes =>
      intro minimum frames rest hrest
      rw [List.append_assoc]
      exact hoperand (hpostfixes hrest)
  | postfixesEnd => exact fun hrest => hrest
  | postfixes hfind _ hpostfixes => exact fun hrest => .postfixed hfind (hpostfixes hrest)
  | number => exact fun hrest => .number hrest
  | group _ hinner =>
      intro minimum frames rest hrest
      have hclosed := hinner (Int.le_refl 0) (.closing hrest)
      simpa using Accepts.group hclosed
  | @prefixed _ _ operator _ hfind _ hoperand =>
      intro minimum frames rest hrest
      -- behind the operand its own minimum no longer counts
      have hlower := hrest.loosen (Int.min_le_left minimum operator.precedence.level)
        (Frame.Looser.refl frames)
      exact .prefixed hfind (hoperand (Int.min_le_right _ _) hlower)
  | @call _ _ args _ hfind harity _ hargs =>
      intro minimum frames rest hrest
      cases args with
      | nil =>
          obtain rfl := hargs
          exact .emptyCall hfind harity.symm hrest
      | cons first others => simpa using Accepts.call hfind harity.symm (hargs hrest)
  | noArguments => rfl
  | arguments _ _ hfirst hothers =>
      intro minimum frames rest hrest
      rw [List.append_assoc]
      exact hfirst (Int.le_refl 0) (hothers hrest)
  | othersEnd => exact fun hrest => .closing hrest
  | others _ _ hfirst hothers =>
      intro minimum frames rest hrest
      rw [List.cons_append, List.append_assoc]
      exact .comma (hfirst (Int.le_refl 0) (hothers hrest))

/-- **Whatever is derived is accepted.** -/
theorem Derives.accepts {e : Expr} {used : List Token}
    (hderives : registry.Derives (.expression 0 e) used) :
    registry.Accepts .operand 0 [] (used ++ [.endOfInput]) :=
  hderives.passes (Int.le_refl 0) .ended

end Registry

end Reckoner
