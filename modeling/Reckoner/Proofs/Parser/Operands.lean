import Reckoner.Proofs.Parser.Reading

/-!
# Operands that show their ends

A number, a call and an expression in parentheses can be told from the tokens alone: the
parentheses say where they end, whatever stands between them.  `Registry.IsOperand` describes
such operands, with the postfix operators behind them, and no part of it speaks of trees.

An operand of this kind is read as a whole.  What is derived as a primary at its beginning has
the same parentheses (`Balanced.eq_of_append_rightParen`) and takes the same postfix operators
(`eq_of_forall_append`), so it is this operand and nothing more (`IsOperand.eq_of_derives`).
-/

namespace Reckoner

namespace Token

/-! ## Parentheses -/

/-- Tokens in which every parenthesis has its other one. -/
inductive Balanced : List Token → Prop
  | nil : Balanced []
  | other {token : Token} {later : List Token} (hleft : token ≠ .leftParen)
      (hright : token ≠ .rightParen) (hlater : Balanced later) : Balanced (token :: later)
  | group {inner later : List Token} (hinner : Balanced inner) (hlater : Balanced later) :
      Balanced (.leftParen :: (inner ++ .rightParen :: later))

namespace Balanced

variable {first later : List Token}

theorem append (hfirst : Balanced first) (hlater : Balanced later) : Balanced (first ++ later) := by
  induction hfirst with
  | nil => exact hlater
  | other hleft hright _ ih => exact .other hleft hright ih
  | group hinner _ _ ih => simpa using hinner.group ih

theorem parenthesized (hinner : Balanced first) : Balanced (.leftParen :: (first ++ [.rightParen])) :=
  .group hinner .nil

/-- The parenthesis that closes balanced tokens is where they end. -/
theorem eq_of_append_rightParen {second rest rest' : List Token} (hfirst : Balanced first)
    (hsecond : Balanced second)
    (heq : first ++ .rightParen :: rest = second ++ .rightParen :: rest') :
    first = second ∧ rest = rest' := by
  induction hfirst generalizing second rest rest' with
  | nil =>
    cases hsecond with
    | nil => exact ⟨rfl, (List.cons.inj heq).2⟩
    | other _ hright _ => exact absurd (List.cons.inj heq).1.symm hright
    | group => exact absurd (List.cons.inj heq).1 (by simp)
  | other hleft hright _ ih =>
    cases hsecond with
    | nil => exact absurd (List.cons.inj heq).1 hright
    | other _ _ hlater' =>
      obtain ⟨rfl, htail⟩ := List.cons.inj heq
      obtain ⟨rfl, hrest⟩ := ih hlater' htail
      exact ⟨rfl, hrest⟩
    | group => exact absurd (List.cons.inj heq).1 hleft
  | group _ _ ihInner ihLater =>
    cases hsecond with
    | nil => exact absurd (List.cons.inj heq).1 (by simp)
    | other hleft' => exact absurd (List.cons.inj heq).1.symm hleft'
    | group hinner' hlater' =>
      simp only [List.cons_append, List.append_assoc, List.cons.injEq, true_and] at heq
      obtain ⟨rfl, hbehind⟩ := ihInner hinner' heq
      obtain ⟨rfl, hrest⟩ := ihLater hlater' hbehind
      exact ⟨rfl, hrest⟩

end Balanced

/-- A number, an expression in parentheses or a call, as tokens. -/
inductive Encloses : List Token → Prop
  | number (value : Number) : Encloses [.number value]
  | group {inner : List Token} (hinner : Balanced inner) :
      Encloses (.leftParen :: (inner ++ [.rightParen]))
  | call {name : Text} {inner : List Token} (hinner : Balanced inner) :
      Encloses (.function name :: .leftParen :: (inner ++ [.rightParen]))

end Token

/-- Two runs of members with a property are one if none stands behind either. -/
theorem eq_of_forall_append {α : Type} {p : α → Prop} {run run' rest rest' : List α}
    (hrun : ∀ a ∈ run, p a) (hrun' : ∀ a ∈ run', p a) (hrest : ∀ a ∈ rest.head?, ¬ p a)
    (hrest' : ∀ a ∈ rest'.head?, ¬ p a) (heq : run ++ rest = run' ++ rest') :
    run = run' ∧ rest = rest' := by
  induction run generalizing run' with
  | nil =>
    cases run' with
    | nil => exact ⟨rfl, heq⟩
    | cons a run' =>
      exact absurd (hrun' a List.mem_cons_self) (hrest a (by simpa using congrArg List.head? heq))
  | cons a run ih =>
    cases run' with
    | nil =>
      exact absurd (hrun a List.mem_cons_self)
        (hrest' a (by simpa using (congrArg List.head? heq).symm))
    | cons a' run' =>
      obtain ⟨rfl, htail⟩ := List.cons.inj heq
      obtain ⟨rfl, hrest⟩ := ih (List.forall_mem_cons.mp hrun).2
        (List.forall_mem_cons.mp hrun').2 htail
      exact ⟨rfl, hrest⟩

namespace Registry

variable {registry : Registry}

/-! ## Operands -/

/-- The tokens of a number, a call or an expression in parentheses, with any postfix operators
behind it. -/
inductive IsOperand (registry : Registry) : List Token → Prop
  | mk {core postfixes : List Token} (hcore : Token.Encloses core)
      (hpostfixes : ∀ token ∈ postfixes, registry.IsPostfix token) :
      IsOperand registry (core ++ postfixes)

/-! ## What is derived -/

theorem Derives.balanced {phrase : Phrase} {used : List Token}
    (hderives : registry.Derives phrase used) : Token.Balanced used := by
  have hoperator (op : Text) {later : List Token} (hlater : Token.Balanced later) :
      Token.Balanced (.operator op :: later) := .other (by simp) (by simp) hlater
  induction hderives with
  | expression _ _ hleft hchain => exact hleft.append hchain
  | chain _ _ _ _ hright hchain => exact hoperator _ (hright.append hchain)
  | primary _ _ hoperand hpostfixes => exact hoperand.append hpostfixes
  | postfixes _ _ hpostfixes => exact hoperator _ hpostfixes
  | number => exact .other (by simp) (by simp) .nil
  | group _ hinner => exact hinner.parenthesized
  | prefixed _ _ hoperand => exact hoperator _ hoperand
  | call _ _ _ hargs => exact .other (by simp) (by simp) hargs.parenthesized
  | arguments _ _ hfirst hothers => exact hfirst.append hothers
  | others _ _ hfirst hothers => exact .other (by simp) (by simp) (hfirst.append hothers)
  | chainEnd | postfixesEnd | noArguments | othersEnd => exact .nil

/-- Behind an operand only postfix operators are taken. -/
theorem Derives.isPostfix_of_mem {inner e : Expr} {used : List Token} :
    registry.Derives (.postfixes inner e) used → ∀ token ∈ used, registry.IsPostfix token
  | .postfixesEnd => by simp
  | .postfixes hfind hlater =>
    List.forall_mem_cons.mpr ⟨⟨_, rfl, hfind⟩, hlater.isPostfix_of_mem⟩

variable {e : Expr} {core operand used rest rest' : List Token}

/-- What is derived where an operand begins ends where the operand does. -/
theorem Derives.eq_of_encloses (hderives : registry.Derives (.operand e) used)
    (hcore : Token.Encloses core) (heq : used ++ rest = core ++ rest') :
    used = core ∧ rest = rest' := by
  cases hderives with
  | number =>
    cases hcore with
    | number value => simpa using heq
    | group => exact absurd (List.cons.inj heq).1 (by simp)
    | call => exact absurd (List.cons.inj heq).1 (by simp)
  | prefixed => cases hcore <;> exact absurd (List.cons.inj heq).1 (by simp)
  | group hinner =>
    cases hcore with
    | number => exact absurd (List.cons.inj heq).1 (by simp)
    | call => exact absurd (List.cons.inj heq).1 (by simp)
    | group hinner' =>
      simp only [List.cons_append, List.append_assoc, List.nil_append, List.cons.injEq,
        true_and] at heq
      obtain ⟨rfl, hrest⟩ := hinner.balanced.eq_of_append_rightParen hinner' heq
      exact ⟨rfl, hrest⟩
  | call _ _ hargs =>
    cases hcore with
    | number => exact absurd (List.cons.inj heq).1 (by simp)
    | group => exact absurd (List.cons.inj heq).1 (by simp)
    | call hinner' =>
      simp only [List.cons_append, List.append_assoc, List.nil_append, List.cons.injEq,
        true_and, Token.function.injEq] at heq
      obtain ⟨rfl, hbehind⟩ := heq
      obtain ⟨rfl, hrest⟩ := hargs.balanced.eq_of_append_rightParen hinner' hbehind
      exact ⟨rfl, hrest⟩

/-- **A primary is the operand that stands there.**  Neither of them is followed by a postfix
operator. -/
theorem IsOperand.eq_of_derives (hoperand : registry.IsOperand operand)
    (hderives : registry.Derives (.primary e) used)
    (hrest : ∀ token ∈ rest.head?, ¬ registry.IsPostfix token)
    (hrest' : ∀ token ∈ rest'.head?, ¬ registry.IsPostfix token)
    (heq : used ++ rest = operand ++ rest') : used = operand ∧ rest = rest' := by
  obtain ⟨hcore, hpostfixes⟩ := hoperand
  cases hderives with
  | primary hinner hlater =>
    rw [List.append_assoc, List.append_assoc] at heq
    obtain ⟨rfl, hbehind⟩ := hinner.eq_of_encloses hcore heq
    obtain ⟨rfl, hrest⟩ :=
      eq_of_forall_append hlater.isPostfix_of_mem hpostfixes hrest hrest' hbehind
    exact ⟨rfl, hrest⟩

end Registry

end Reckoner
