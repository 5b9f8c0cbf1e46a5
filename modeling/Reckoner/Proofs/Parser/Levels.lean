import Reckoner.Proofs.Evaluation.Resolution
import Reckoner.Proofs.Parser.Acceptance

/-!
# The levels of binary operators in a tree

A binary operator belongs to an expression whose least precedence lets it through.  The
least precedence of a whole text is 0, and so it is in parentheses and in an argument;
behind a prefix operator it is the level of that operator, and behind a binary operator it
is no lower than before.  So a binary operator of a negative level needs a prefix operator
somewhere in front of it that stands no higher (`Derives.levelled`).
-/

namespace Reckoner

/-- What holds where something else holds of all trees in a tree. -/
theorem Expr.All.imp {p q : Expr → Prop} {e : Expr} (hall : e.All p)
    (himp : ∀ node, p node → q node) : e.All q :=
  fun node hnode => himp node (hall node hnode)

namespace Registry

/-- Parentheses or a prefix operator open an expression that lets the level through. -/
def Opens (registry : Registry) (level : Int) : Prop :=
  0 ≤ level ∨ ∃ op operator, registry.findUnary? .prefixed op = some operator ∧
    operator.precedence.level ≤ level

/-- The operator of a binary node is let through by the least precedence, or by one that
is opened inside. -/
def LevelledAt (registry : Registry) (minimum : Int) : Expr → Prop
  | .binary _ op _ => ∀ operator, registry.findBinary? op = some operator →
      minimum ≤ operator.precedence.level ∨ registry.Opens operator.precedence.level
  | _ => True

variable {registry : Registry} {minimum : Int} {node : Expr}

theorem LevelledAt.lower (hlevelled : registry.LevelledAt minimum node) {lower : Int}
    (hle : lower ≤ minimum) : registry.LevelledAt lower node := by
  cases node with
  | binary left op right =>
      intro operator hfind
      exact (hlevelled operator hfind).imp_left (Int.le_trans hle)
  | number | prefixed | postfixed | call => trivial

/-- What a least precedence lets through that is opened is opened. -/
theorem LevelledAt.opened (hlevelled : registry.LevelledAt minimum node)
    (hopens : ∀ level, minimum ≤ level → registry.Opens level) (other : Int) :
    registry.LevelledAt other node := by
  cases node with
  | binary left op right =>
      intro operator hfind
      exact .inr ((hlevelled operator hfind).elim (hopens _) id)
  | number | prefixed | postfixed | call => trivial

/-- What a derivation tells of the levels in the trees of a phrase.  Where no least
precedence is given, all levels are opened inside. -/
def PhraseLevelled (registry : Registry) : Phrase → Prop
  | .expression minimum e => e.All (registry.LevelledAt minimum)
  | .chain minimum left e =>
    left.All (registry.LevelledAt minimum) → e.All (registry.LevelledAt minimum)
  | .primary e => ∀ minimum, e.All (registry.LevelledAt minimum)
  | .postfixes operand e =>
    ∀ minimum, operand.All (registry.LevelledAt minimum) → e.All (registry.LevelledAt minimum)
  | .operand e => ∀ minimum, e.All (registry.LevelledAt minimum)
  | .arguments args => ∀ minimum, ∀ e ∈ args, e.All (registry.LevelledAt minimum)
  | .others args => ∀ minimum, ∀ e ∈ args, e.All (registry.LevelledAt minimum)

/-- **The levels of a derivation.** -/
theorem Derives.levelled {phrase : Phrase} {used : List Token}
    (hderives : registry.Derives phrase used) : registry.PhraseLevelled phrase := by
  -- in parentheses and in arguments
  have hzero {e : Expr} (hinner : e.All (registry.LevelledAt 0)) (minimum : Int) :
      e.All (registry.LevelledAt minimum) :=
    hinner.imp fun _ hnode => hnode.opened (fun _ hlevel => .inl hlevel) minimum
  induction hderives with
  | expression _ _ hleft hchain => exact hchain (hleft _)
  | chainEnd => exact id
  | @chain minimum left right e op operator _ _ hfind hlevel _ _ hright hchain =>
      intro hleft
      have hle : minimum ≤ operator.rightMinimum :=
        Int.le_trans hlevel (level_le_rightMinimum operator)
      have hnode : registry.LevelledAt minimum (.binary left op right) := by
        intro operator' hfind'
        obtain rfl := Option.some.inj (hfind.symm.trans hfind')
        exact .inl hlevel
      exact hchain (Expr.all_binary.mpr ⟨hleft, hright.imp fun _ h => h.lower hle, hnode⟩)
  | primary _ _ hoperand hpostfixes => exact fun minimum => hpostfixes minimum (hoperand minimum)
  | postfixesEnd => exact fun _ => id
  | postfixes _ _ hpostfixes =>
      exact fun minimum hoperand =>
        hpostfixes minimum (Expr.all_postfixed.mpr ⟨hoperand, trivial⟩)
  | number => exact fun _ => Expr.all_number.mpr trivial
  | group _ hinner => exact hzero hinner
  | prefixed hfind _ hoperand =>
      intro minimum
      refine Expr.all_prefixed.mpr ⟨hoperand.imp fun _ hnode => ?_, trivial⟩
      exact hnode.opened (fun _ hlevel => .inr ⟨_, _, hfind, hlevel⟩) minimum
  | call _ _ _ hargs => exact fun minimum => Expr.all_call.mpr ⟨hargs minimum, trivial⟩
  | noArguments => exact fun _ _ h => absurd h List.not_mem_nil
  | arguments _ _ hfirst hothers =>
      exact fun minimum => List.forall_mem_cons.mpr ⟨hzero hfirst minimum, hothers minimum⟩
  | othersEnd => exact fun _ _ h => absurd h List.not_mem_nil
  | others _ _ hfirst hothers =>
      exact fun minimum => List.forall_mem_cons.mpr ⟨hzero hfirst minimum, hothers minimum⟩

end Registry

end Reckoner
