import Reckoner.Text.Basic

/-!
# Indexes

An index tells where the definition of a name stands in a list.  It holds each
name once: a name that is inserted again stands for its new position.
-/

namespace Reckoner

/-- The positions that names stand for. -/
structure Index where
  entries : List (Text × Nat)
  deriving DecidableEq

namespace Index

def empty : Index := ⟨[]⟩

/-- The names that stand for a position. -/
def names (index : Index) : List Text :=
  index.entries.map (·.1)

def position? (index : Index) (name : Text) : Option Nat :=
  index.entries.lookup name

def contains (index : Index) (name : Text) : Bool :=
  (index.position? name).isSome

def insert (index : Index) (name : Text) (position : Nat) : Index :=
  ⟨(name, position) :: index.entries.filter fun entry => entry.1 ≠ name⟩

/-- The index in which all of the names stand for one position. -/
def insertAll (index : Index) (names : List Text) (position : Nat) : Index :=
  names.foldl (fun index name => index.insert name position) index

/-! ## What an index holds -/

variable {index : Index} {name other : Text} {position : Nat}

@[simp] theorem position?_empty : empty.position? name = none := rfl

@[simp] theorem names_empty : empty.names = [] := rfl

theorem contains_iff_mem_names : index.contains name = true ↔ name ∈ index.names := by
  simp [contains, position?, names, @eq_comm _ name]

theorem lookup_filter_ne {entries : List (Text × Nat)} (hne : other ≠ name) :
    (entries.filter fun entry => entry.1 ≠ name).lookup other = entries.lookup other := by
  induction entries with
  | nil => rfl
  | cons entry entries ih =>
      by_cases hname : entry.1 = name
      · have hother : (other == entry.1) = false := by simpa [hname] using hne
        rw [List.filter_cons_of_neg (by simpa using hname), ih, List.lookup_cons, hother]
      · rw [List.filter_cons_of_pos (by simpa using hname), List.lookup_cons, List.lookup_cons, ih]

theorem position?_insert :
    (index.insert name position).position? other =
      if other = name then some position else index.position? other := by
  by_cases hother : other = name
  · simp [insert, position?, hother]
  · have hfalse : (other == name) = false := by simpa using hother
    rw [if_neg hother]
    simp only [insert, position?, List.lookup_cons, hfalse]
    exact lookup_filter_ne hother

theorem position?_insertAll {names : List Text} :
    (index.insertAll names position).position? other =
      if other ∈ names then some position else index.position? other := by
  induction names generalizing index with
  | nil => simp [insertAll]
  | cons name names ih =>
      have hcons : index.insertAll (name :: names) position =
          (index.insert name position).insertAll names position := rfl
      rw [hcons, ih, position?_insert]
      by_cases hother : other ∈ names <;> simp [hother]

theorem nodup_names_insert (hnodup : index.names.Nodup) :
    (index.insert name position).names.Nodup := by
  have hfilter : (index.insert name position).names =
      name :: index.names.filter (· ≠ name) := by
    simp [insert, names, List.filter_map, Function.comp_def]
  rw [hfilter]
  exact List.nodup_cons.mpr ⟨by simp, hnodup.filter _⟩

theorem nodup_names_insertAll {names : List Text} (hnodup : index.names.Nodup) :
    (index.insertAll names position).names.Nodup := by
  induction names generalizing index with
  | nil => exact hnodup
  | cons name names ih => exact ih (nodup_names_insert hnodup)

end Index

end Reckoner
