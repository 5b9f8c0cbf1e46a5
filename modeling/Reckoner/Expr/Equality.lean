import Reckoner.Expr.Basic

/-!
# Equality of trees

Equality of trees is decidable, and so is equality of results, so that what a
text is read as can be compared with a tree that is written down.
-/

namespace Reckoner

namespace Expr

mutual

def same : Expr → Expr → Bool
  | number x, number y => x = y
  | binary left op right, binary left' op' right' =>
    left.same left' && decide (op = op') && right.same right'
  | prefixed op operand, prefixed op' operand' => decide (op = op') && operand.same operand'
  | postfixed operand op, postfixed operand' op' => operand.same operand' && decide (op = op')
  | call name args, call name' args' => decide (name = name') && sameAll args args'
  | _, _ => false

def sameAll : List Expr → List Expr → Bool
  | [], [] => true
  | e :: es, e' :: es' => e.same e' && sameAll es es'
  | _, _ => false

end

mutual

theorem same_self : ∀ e : Expr, e.same e = true
  | number _ => by simp [same]
  | binary left _ right => by simp [same, same_self left, same_self right]
  | prefixed _ operand => by simp [same, same_self operand]
  | postfixed operand _ => by simp [same, same_self operand]
  | call _ args => by simp [same, sameAll_self args]

theorem sameAll_self : ∀ es : List Expr, sameAll es es = true
  | [] => rfl
  | e :: es => by simp [sameAll, same_self e, sameAll_self es]

end

mutual

theorem eq_of_same : ∀ {a b : Expr}, a.same b = true → a = b
  | number _, b, h => by
      cases b <;> simp_all [same]
  | binary left _ right, b, h => by
      cases b with
      | binary left' op' right' =>
          simp only [same, Bool.and_eq_true, decide_eq_true_eq] at h
          rw [eq_of_same h.1.1, h.1.2, eq_of_same h.2]
      | _ => simp [same] at h
  | prefixed _ operand, b, h => by
      cases b with
      | prefixed op' operand' =>
          simp only [same, Bool.and_eq_true, decide_eq_true_eq] at h
          rw [h.1, eq_of_same h.2]
      | _ => simp [same] at h
  | postfixed operand _, b, h => by
      cases b with
      | postfixed operand' op' =>
          simp only [same, Bool.and_eq_true, decide_eq_true_eq] at h
          rw [eq_of_same h.1, h.2]
      | _ => simp [same] at h
  | call _ args, b, h => by
      cases b with
      | call name' args' =>
          simp only [same, Bool.and_eq_true, decide_eq_true_eq] at h
          rw [h.1, eq_of_sameAll h.2]
      | _ => simp [same] at h

theorem eq_of_sameAll : ∀ {as bs : List Expr}, sameAll as bs = true → as = bs
  | [], bs, h => by
      cases bs <;> simp_all [sameAll]
  | a :: as, bs, h => by
      cases bs with
      | nil => simp [sameAll] at h
      | cons b bs =>
          simp only [sameAll, Bool.and_eq_true] at h
          rw [eq_of_same h.1, eq_of_sameAll h.2]

end

theorem same_iff {a b : Expr} : a.same b = true ↔ a = b :=
  ⟨eq_of_same, fun h => h ▸ same_self a⟩

instance : DecidableEq Expr := fun _ _ => decidable_of_iff _ same_iff

end Expr

instance decidableEqExcept {ε α : Type} [DecidableEq ε] [DecidableEq α] :
    DecidableEq (Except ε α)
  | .ok a, .ok b => decidable_of_iff (a = b) ⟨congrArg _, Except.ok.inj⟩
  | .error a, .error b => decidable_of_iff (a = b) ⟨congrArg _, Except.error.inj⟩
  | .ok _, .error _ => .isFalse nofun
  | .error _, .ok _ => .isFalse nofun

end Reckoner
