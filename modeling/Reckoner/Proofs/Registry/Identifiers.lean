import Reckoner.Proofs.Registry.Coherence
import Reckoner.Proofs.Text.Order

/-!
# Look-up and longest match

The two ways in which names are asked for.  A definition is looked up by the
lower case of a name (`find?_isSome_iff` and its companions say when there is
one), and a symbol is matched against the list of all operator names.

The list is made by sorting the names of three indexes and merging equal
neighbours.  Sorting brings equal names side by side, so the list is strictly
sorted (`pairwise_identifiers`), longer names first, and the first hit is the
longest one (`find?_identifiers_eq_some_iff`).
-/

namespace Reckoner

/-! ## Prefixes -/

namespace Text

/-- A prefix with as many bytes as the whole is the whole. -/
theorem eq_of_isPrefix_of_byteLength_le {s t : Text} (hbegins : s <+: t)
    (hle : byteLength t ≤ byteLength s) : s = t := by
  obtain ⟨rest, rfl⟩ := hbegins
  cases rest with
  | nil => simp
  | cons c rest =>
      have := c.utf8Size_pos
      simp only [byteLength_append, byteLength_cons] at hle
      omega

end Text

namespace Registry

/-! ## Look-up -/

variable {registry : Registry} {name : Text} {role : Role}

/-- A name is found in a role if and only if the role has its lower case. -/
theorem find?_isSome_iff (hreach : registry.Reachable) :
    (registry.find? role name).isSome ↔ lower name ∈ registry.names role := by
  rw [← hreach.coherent.contains_iff, find?_eq_bind, Index.contains]
  cases hposition : (registry.index role).position? (lower name) with
  | none => simp
  | some position =>
      obtain ⟨definition, hdefinition, _⟩ := hreach.coherent.position?_eq_some_iff.mp hposition
      simp [hdefinition]

theorem findBinary?_isSome_iff (hreach : registry.Reachable) :
    (registry.findBinary? name).isSome ↔ lower name ∈ registry.names .binary := by
  rw [← find?_isSome_iff hreach, find?, Option.isSome_map]

theorem findUnary?_isSome_iff (hreach : registry.Reachable) {fixity : Fixity} :
    (registry.findUnary? fixity name).isSome ↔ lower name ∈ registry.names (.unary fixity) := by
  rw [← find?_isSome_iff hreach, find?, Option.isSome_map]

theorem findFunction?_isSome_iff (hreach : registry.Reachable) :
    (registry.findFunction? name).isSome ↔ lower name ∈ registry.names .function := by
  rw [← find?_isSome_iff hreach, find?, Option.isSome_map]

theorem findBinary?_mem {operator : BinaryOperator}
    (hfind : registry.findBinary? name = some operator) : operator ∈ registry.binary := by
  obtain ⟨_, _, hget⟩ := Option.bind_eq_some_iff.mp hfind
  exact List.mem_of_getElem? hget

theorem findFunction?_isSome_of_mem (hreach : registry.Reachable)
    (hname : name ∈ registry.names .function) : (registry.findFunction? name).isSome = true := by
  rwa [findFunction?_isSome_iff hreach, lower_of_mem_names hreach hname]

theorem isOperator_iff (hreach : registry.Reachable) :
    registry.isOperator name = true ↔ lower name ∈ registry.operatorNames := by
  have hcontains (role : Role) :
      (registry.index role).contains (lower name) = true ↔ lower name ∈ registry.names role :=
    hreach.coherent.contains_iff
  simp only [isOperator, operatorNames, Bool.or_eq_true, List.mem_append, ← hcontains]
  rfl

theorem isOperator_of_mem (hreach : registry.Reachable) (hname : name ∈ registry.operatorNames) :
    registry.isOperator name = true := by
  rwa [isOperator_iff hreach, lower_of_mem_operatorNames hreach hname]

/-! ## The list of operator names -/

theorem mem_insertName {other : Text} {others : List Text} :
    other ∈ insertName name others ↔ other = name ∨ other ∈ others := by
  induction others with
  | nil => simp [insertName]
  | cons first others ih =>
      unfold insertName
      split
      · simp only [List.mem_cons, ih, or_left_comm]
      · simp

theorem mem_foldr_insertName {names : List Text} :
    name ∈ names.foldr insertName [] ↔ name ∈ names := by
  induction names with
  | nil => simp
  | cons first others ih => simp [mem_insertName, ih]

theorem mem_mergeNeighbours {names : List Text} : name ∈ mergeNeighbours names ↔ name ∈ names := by
  induction names using mergeNeighbours.induct with
  | case1 => simp [mergeNeighbours]
  | case2 => simp [mergeNeighbours]
  | case3 first others ih => simp [mergeNeighbours, ih]
  | case4 first other others hne ih => simp [mergeNeighbours, hne, ih]

theorem identifiers_eq (hreach : registry.Reachable) :
    registry.identifiers =
      mergeNeighbours ((registry.binaryIndex.names ++ registry.prefixedIndex.names ++
        registry.postfixedIndex.names).foldr insertName []) :=
  congrArg identifiers hreach.coherent.rebuilt.symm

theorem mem_identifiers (hreach : registry.Reachable) :
    name ∈ registry.identifiers ↔ name ∈ registry.operatorNames := by
  have hindex (role : Role) : name ∈ (registry.index role).names ↔ name ∈ registry.names role :=
    hreach.coherent.mem_names_index
  simp only [identifiers_eq hreach, mem_mergeNeighbours, mem_foldr_insertName, operatorNames,
    List.mem_append, ← hindex]
  rfl

/-- Inserting a name keeps the order, in which equal names may stand side by
side. -/
theorem pairwise_insertName {others : List Text}
    (hsorted : others.Pairwise fun s t => ¬ Text.longerFirst t s = true) :
    (insertName name others).Pairwise fun s t => ¬ Text.longerFirst t s = true := by
  induction others with
  | nil => simp [insertName]
  | cons first others ih =>
      obtain ⟨hfirst, hothers⟩ := List.pairwise_cons.mp hsorted
      unfold insertName
      split
      · next hlonger =>
          refine List.pairwise_cons.mpr ⟨fun t ht => ?_, ih hothers⟩
          rcases mem_insertName.mp ht with rfl | ht
          · exact Text.not_longerFirst_of hlonger
          · exact hfirst t ht
      · next hnot =>
          refine List.pairwise_cons.mpr ⟨fun t ht => ?_, hsorted⟩
          rcases List.mem_cons.mp ht with rfl | ht
          · exact hnot
          · exact Text.not_longerFirst_trans hnot (hfirst t ht)

theorem pairwise_foldr_insertName (names : List Text) :
    (names.foldr insertName []).Pairwise fun s t => ¬ Text.longerFirst t s = true := by
  induction names with
  | nil => exact List.Pairwise.nil
  | cons first others ih => exact pairwise_insertName ih

/-- In a sorted list equal names are neighbours, so that merging neighbours
leaves each name once. -/
theorem pairwise_mergeNeighbours {names : List Text}
    (hsorted : names.Pairwise fun s t => ¬ Text.longerFirst t s = true) :
    (mergeNeighbours names).Pairwise fun s t => Text.longerFirst s t = true := by
  induction names using mergeNeighbours.induct with
  | case1 => exact List.Pairwise.nil
  | case2 name => exact List.pairwise_singleton _ name
  | case3 first others ih =>
      rw [mergeNeighbours, if_pos rfl]
      exact ih (List.pairwise_cons.mp hsorted).2
  | case4 first other others hne ih =>
      obtain ⟨hfirst, hlater⟩ := List.pairwise_cons.mp hsorted
      have hnext : Text.longerFirst first other = true :=
        Text.longerFirst_of_not (Ne.symm hne) (hfirst other List.mem_cons_self)
      rw [mergeNeighbours, if_neg hne]
      refine List.pairwise_cons.mpr ⟨fun t ht => ?_, ih hlater⟩
      rcases List.mem_cons.mp (mem_mergeNeighbours.mp ht) with rfl | ht
      · exact hnext
      · refine Text.longerFirst_of_not (fun heq => ?_) (hfirst t (List.mem_cons_of_mem _ ht))
        exact (List.pairwise_cons.mp hlater).1 t ht (heq ▸ hnext)

/-- The names of operators are strictly sorted, longer names first. -/
theorem pairwise_identifiers (hreach : registry.Reachable) :
    registry.identifiers.Pairwise fun s t => Text.longerFirst s t = true := by
  rw [identifiers_eq hreach]
  exact pairwise_mergeNeighbours (pairwise_foldr_insertName _)

theorem nodup_identifiers (hreach : registry.Reachable) : registry.identifiers.Nodup :=
  (pairwise_identifiers hreach).imp fun hlonger heq => by
    subst heq
    exact Text.longerFirst_irrefl hlonger

/-! ## Longest match -/

/-- A name before which none is a prefix of the text is the longest that is. -/
theorem length_le_of_find?_identifiers (hreach : registry.Reachable) {rest : Text}
    (hfind : registry.identifiers.find? (·.isPrefixOf rest) = some name) {other : Text}
    (hother : other ∈ registry.operatorNames) (hbegins : other <+: rest) :
    other.length ≤ name.length := by
  obtain ⟨hname, before, after, hlist, hbefore⟩ := List.find?_eq_some_iff_append.mp hfind
  have hname : name <+: rest := List.isPrefixOf_iff_prefix.mp hname
  have hsorted := pairwise_identifiers hreach
  rw [hlist, List.pairwise_append] at hsorted
  rw [← mem_identifiers hreach, hlist, List.mem_append, List.mem_cons] at hother
  rcases hother with hother | rfl | hother
  · have hfail := hbefore other hother
    simp [List.isPrefixOf_iff_prefix.mpr hbegins] at hfail
  · exact Nat.le_refl _
  · have hshorter := Text.byteLength_le_of_longerFirst
      ((List.pairwise_cons.mp hsorted.2.1).1 other hother)
    rcases List.prefix_or_prefix_of_prefix hbegins hname with hle | hle
    · exact hle.length_le
    · have heq := Text.eq_of_isPrefix_of_byteLength_le hle hshorter
      exact Nat.le_of_eq (congrArg List.length heq.symm)

/-- **Longest match.**  The first operator name in the list that is a prefix of
a text is the longest operator name that is one. -/
theorem find?_identifiers_eq_some_iff (hreach : registry.Reachable) {rest : Text} :
    registry.identifiers.find? (·.isPrefixOf rest) = some name ↔
      name ∈ registry.operatorNames ∧ name <+: rest ∧
        ∀ other ∈ registry.operatorNames, other <+: rest → other.length ≤ name.length := by
  constructor
  · intro hfind
    exact ⟨(mem_identifiers hreach).mp (List.mem_of_find?_eq_some hfind),
      by simpa using List.find?_some hfind,
      fun other hother hbegins => length_le_of_find?_identifiers hreach hfind hother hbegins⟩
  · rintro ⟨hname, hbegins, hlongest⟩
    have hsome : (registry.identifiers.find? (·.isPrefixOf rest)).isSome :=
      List.find?_isSome.mpr
        ⟨name, (mem_identifiers hreach).mpr hname, List.isPrefixOf_iff_prefix.mpr hbegins⟩
    obtain ⟨found, hfound⟩ := Option.isSome_iff_exists.mp hsome
    have hfoundBegins : found <+: rest := by simpa using List.find?_some hfound
    have hmem := (mem_identifiers hreach).mp (List.mem_of_find?_eq_some hfound)
    have hle := hlongest found hmem hfoundBegins
    have hge := length_le_of_find?_identifiers hreach hfound hname hbegins
    have heq : found = name := by
      rcases List.prefix_or_prefix_of_prefix hfoundBegins hbegins with h | h
      · exact h.eq_of_length_le hge
      · exact (h.eq_of_length_le hle).symm
    rw [hfound, heq]

end Registry

end Reckoner
