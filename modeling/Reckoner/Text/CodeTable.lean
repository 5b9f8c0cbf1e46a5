/-!
# Tables of code points

The character classes of this library are tables of closed ranges of code
points.  The ranges of a table stand in ascending order and do not touch, so a
look-up may stop at the first range that begins beyond the code point it is
asked for.
-/

namespace Reckoner

/-- Closed ranges of code points, in ascending order. -/
abbrev CodeTable := List (Nat × Nat)

namespace CodeTable

/-- Whether a code point lies in one of the ranges of a table.  The ranges
ascend, so the first one that begins beyond the code point ends the search. -/
def contains : CodeTable → Nat → Bool
  | [], _ => false
  | (first, last) :: later, code =>
    if code < first then false
    else if code ≤ last then true
    else contains later code

@[simp] theorem contains_nil (code : Nat) : contains [] code = false := rfl

/-- A code point that a table contains lies in a range of it. -/
theorem exists_of_contains {table : CodeTable} {code : Nat} (h : table.contains code = true) :
    ∃ range ∈ table, range.1 ≤ code ∧ code ≤ range.2 := by
  induction table with
  | nil => simp at h
  | cons range later ih =>
    obtain ⟨first, last⟩ := range
    rw [contains] at h
    split at h
    · exact absurd h (by simp)
    · split at h
      · exact ⟨(first, last), by simp, by omega, by omega⟩
      · obtain ⟨range, hmem, hrange⟩ := ih h
        exact ⟨range, List.mem_cons_of_mem _ hmem, hrange⟩

end CodeTable

end Reckoner
