import Mathlib.Logic.Basic
import Reckoner.Proofs.Registry.Reachable

/-!
# The indexes agree with the definitions

A registry keeps three lists of definitions, four indexes into them and a list of
operator names.  `Registry.Declares` says what the definitions alone tell: that
the one at a position has a role and a name.  A registry is `Coherent` if its
other fields tell the same.

* `Coherent.insert`: the registry with one definition more is coherent if the
  names of the definition are new in its role.
* `Reachable.coherent`: registration lets only such definitions pass, so every
  reachable registry is coherent.

Unary operators share one list and have two indexes.  So a prefix operator also
moves the end of the list in which postfix operators are looked up; it does not
move the operators themselves, and its own position has the wrong role.
-/

namespace Reckoner

namespace Registry

/-! ## Declarations -/

/-- The list in which a role keeps its definitions. -/
def definitions (registry : Registry) : Role → List Definition
  | .binary => registry.binary.map .binary
  | .unary _ => registry.unary.map .unary
  | .function => registry.functions.map .function

/-- A definition with the role and the name stands at the position. -/
def Declares (registry : Registry) (role : Role) (name : Text) (position : Nat) : Prop :=
  ∃ definition, (registry.definitions role)[position]? = some definition ∧
    definition.role = role ∧ name ∈ definition.names

variable {registry next : Registry} {definition : Definition} {role : Role} {name : Text}
  {position : Nat}

theorem mem_names_iff_exists_mem_definitions :
    name ∈ registry.names role ↔
      ∃ definition ∈ registry.definitions role,
        definition.role = role ∧ name ∈ definition.names := by
  cases role <;> simp only [definitions, List.mem_map, exists_exists_and_eq_and] <;>
    simp [names, Definition.role, Definition.names, and_assoc, @eq_comm _ name]

theorem mem_names_iff_declares :
    name ∈ registry.names role ↔ ∃ position, registry.Declares role name position := by
  rw [mem_names_iff_exists_mem_definitions]
  constructor
  · rintro ⟨definition, hmem, hdeclares⟩
    obtain ⟨position, hget⟩ := List.mem_iff_getElem?.mp hmem
    exact ⟨position, definition, hget, hdeclares⟩
  · rintro ⟨position, definition, hget, hdeclares⟩
    exact ⟨definition, List.mem_of_getElem? hget, hdeclares⟩

private theorem map_bind_getElem? {α β : Type} (f : α → β) (items : List α)
    (position : Option Nat) :
    (position.bind (items[·]?)).map f = position.bind ((items.map f)[·]?) := by
  cases position with
  | none => rfl
  | some position => exact List.getElem?_map.symm

/-- A look-up goes through the index of the role to the list of the role. -/
theorem find?_eq_bind :
    registry.find? role name =
      ((registry.index role).position? (lower name)).bind ((registry.definitions role)[·]?) := by
  cases role with
  | binary => exact map_bind_getElem? Definition.binary registry.binary _
  | unary fixity => exact map_bind_getElem? Definition.unary registry.unary _
  | function => exact map_bind_getElem? Definition.function registry.functions _

/-! ## One definition more -/

theorem definitions_insert_role :
    (registry.insert definition).definitions definition.role =
      registry.definitions definition.role ++ [definition] := by
  cases definition with
  | binary operator => exact List.map_append
  | unary operator => simp [insert, Definition.role, definitions]
  | function f => exact List.map_append

theorem definitions_insert_of_ne (hrole : definition.role ≠ role) :
    ∃ others,
      (registry.insert definition).definitions role = registry.definitions role ++ others ∧
        ∀ other ∈ others, other.role ≠ role := by
  cases definition with
  | binary operator =>
      cases role with
      | binary => exact absurd rfl hrole
      | unary fixity => exact ⟨[], (List.append_nil _).symm, by simp⟩
      | function => exact ⟨[], (List.append_nil _).symm, by simp⟩
  | unary operator =>
      cases role with
      | binary => exact ⟨[], by simp [insert, definitions], by simp⟩
      | unary fixity => exact ⟨[.unary operator], by simp [insert, definitions], by simpa using hrole⟩
      | function => exact ⟨[], by simp [insert, definitions], by simp⟩
  | function f =>
      cases role with
      | binary => exact ⟨[], (List.append_nil _).symm, by simp⟩
      | unary fixity => exact ⟨[], (List.append_nil _).symm, by simp⟩
      | function => exact absurd rfl hrole

private theorem getElem?_append_eq_some_iff {α : Type} {items others : List α} {found : α}
    {position : Nat} :
    (items ++ others)[position]? = some found ↔
      items[position]? = some found ∨
        items.length ≤ position ∧ others[position - items.length]? = some found := by
  grind

/-- The new definition declares its names in its role, at the end of the list,
and nothing else changes. -/
theorem declares_insert :
    (registry.insert definition).Declares role name position ↔
      registry.Declares role name position ∨
        definition.role = role ∧ name ∈ definition.names ∧
          position = (registry.definitions role).length := by
  by_cases hrole : definition.role = role
  · subst hrole
    have hlast : ∀ d, (registry.definitions definition.role).length ≤ position ∧
        [definition][position - (registry.definitions definition.role).length]? = some d ↔
          position = (registry.definitions definition.role).length ∧ definition = d := by
      grind
    simp only [Declares, definitions_insert_role, getElem?_append_eq_some_iff, hlast, true_and]
    constructor
    · rintro ⟨d, hold | ⟨hposition, rfl⟩, hdrole, hname⟩
      · exact .inl ⟨d, hold, hdrole, hname⟩
      · exact .inr ⟨hname, hposition⟩
    · rintro (⟨d, hold, hd⟩ | ⟨hname, hposition⟩)
      · exact ⟨d, .inl hold, hd⟩
      · exact ⟨definition, .inr ⟨hposition, rfl⟩, rfl, hname⟩
  · obtain ⟨others, hothers, hne⟩ := @definitions_insert_of_ne registry _ _ hrole
    simp only [Declares, hothers, getElem?_append_eq_some_iff, hrole, false_and, or_false]
    constructor
    · rintro ⟨d, hold | ⟨_, hnew⟩, hdrole, hname⟩
      · exact ⟨d, hold, hdrole, hname⟩
      · exact absurd hdrole (hne d (List.mem_of_getElem? hnew))
    · rintro ⟨d, hold, hd⟩
      exact ⟨d, .inl hold, hd⟩

theorem index_insert :
    (registry.insert definition).index role =
      if definition.role = role then
        (registry.index role).insertAll definition.names (registry.definitions role).length
      else registry.index role := by
  cases definition with
  | binary operator =>
      rcases role with _ | ⟨_ | _⟩ | _ <;>
        simp [insert, insertBinary, rebuildIdentifiers, index, Definition.role, Definition.names,
          definitions]
  | unary operator =>
      obtain ⟨aliases, fixity, precedence, rule⟩ := operator
      cases fixity <;> rcases role with _ | ⟨_ | _⟩ | _ <;>
        simp [insert, insertUnary, rebuildIdentifiers, index, Definition.role, Definition.names,
          definitions]
  | function f =>
      rcases role with _ | ⟨_ | _⟩ | _ <;>
        simp [insert, insertFunction, index, Definition.role, Definition.names, definitions,
          Index.insertAll]

/-- Making the list of operator names anew has no effect on registration. -/
theorem rebuildIdentifiers_insert (hrebuilt : registry.rebuildIdentifiers = registry) :
    (registry.insert definition).rebuildIdentifiers = registry.insert definition := by
  cases definition with
  | binary operator => rfl
  | unary operator => rfl
  | function f =>
      calc
        (registry.insertFunction f).rebuildIdentifiers
          = registry.rebuildIdentifiers.insertFunction f := rfl
        _ = registry.insertFunction f := by rw [hrebuilt]

/-! ## Coherence -/

/-- The indexes and the list of operator names tell what the definitions do. -/
structure Coherent (registry : Registry) : Prop where
  /-- A name stands for the position of the definition that declares it. -/
  position?_eq_some_iff {role : Role} {name : Text} {position : Nat} :
    (registry.index role).position? name = some position ↔ registry.Declares role name position
  nodup_names (role : Role) : (registry.index role).names.Nodup
  rebuilt : registry.rebuildIdentifiers = registry

namespace Coherent

theorem contains_iff (hcoherent : registry.Coherent) :
    (registry.index role).contains name = true ↔ name ∈ registry.names role := by
  simp only [Index.contains, Option.isSome_iff_exists, hcoherent.position?_eq_some_iff,
    mem_names_iff_declares]

theorem mem_names_index (hcoherent : registry.Coherent) :
    name ∈ (registry.index role).names ↔ name ∈ registry.names role :=
  Index.contains_iff_mem_names.symm.trans hcoherent.contains_iff

/-- No two definitions of a role declare one name. -/
theorem eq_of_declares (hcoherent : registry.Coherent) {other : Nat}
    (hdeclares : registry.Declares role name position)
    (hother : registry.Declares role name other) : position = other :=
  Option.some.inj ((hcoherent.position?_eq_some_iff.mpr hdeclares).symm.trans
    (hcoherent.position?_eq_some_iff.mpr hother))

/-- **Look-up finds the definition that declares the name**, and no other. -/
theorem find?_eq_some_iff (hcoherent : registry.Coherent) :
    registry.find? role name = some definition ↔
      definition ∈ registry.definitions role ∧ definition.role = role ∧
        lower name ∈ definition.names := by
  rw [find?_eq_bind, Option.bind_eq_some_iff]
  constructor
  · rintro ⟨position, hposition, hget⟩
    obtain ⟨declared, hdeclared, hrole, hname⟩ := hcoherent.position?_eq_some_iff.mp hposition
    obtain rfl := Option.some.inj (hdeclared.symm.trans hget)
    exact ⟨List.mem_of_getElem? hget, hrole, hname⟩
  · rintro ⟨hmem, hrole, hname⟩
    obtain ⟨position, hget⟩ := List.mem_iff_getElem?.mp hmem
    exact ⟨position, hcoherent.position?_eq_some_iff.mpr ⟨_, hget, hrole, hname⟩, hget⟩

/-- **A definition whose names are new keeps a registry coherent.** -/
theorem insert (hcoherent : registry.Coherent) (hadmits : registry.Admits definition) :
    (registry.insert definition).Coherent where
  position?_eq_some_iff := by
    intro role name position
    rw [index_insert, declares_insert]
    by_cases hrole : definition.role = role
    · subst hrole
      rw [if_pos rfl, Index.position?_insertAll]
      by_cases hname : name ∈ definition.names
      · have hfresh : ¬ registry.Declares definition.role name position := by
          intro hdeclares
          exact (hadmits.2 name hname).2
            (hcoherent.mem_names_index.mpr (mem_names_iff_declares.mpr ⟨_, hdeclares⟩))
        simp [hname, hfresh, eq_comm]
      · simp [hname, hcoherent.position?_eq_some_iff]
    · simp [hrole, hcoherent.position?_eq_some_iff]
  nodup_names := by
    intro role
    rw [index_insert]
    split
    · exact Index.nodup_names_insertAll (hcoherent.nodup_names role)
    · exact hcoherent.nodup_names role
  rebuilt := rebuildIdentifiers_insert hcoherent.rebuilt

end Coherent

theorem coherent_empty : empty.Coherent where
  position?_eq_some_iff := by
    intro role name position
    rcases role with _ | ⟨_ | _⟩ | _ <;> simp [empty, index, Declares, definitions]
  nodup_names := by
    intro role
    rcases role with _ | ⟨_ | _⟩ | _ <;> exact List.nodup_nil
  rebuilt := rfl

/-- **Reachable registries are coherent.** -/
theorem Reachable.coherent (hreach : registry.Reachable) : registry.Coherent := by
  induction hreach with
  | empty => exact coherent_empty
  | register _ hregister ih =>
      obtain ⟨hadmits, rfl⟩ := register_eq_none_iff.mp hregister
      exact ih.insert hadmits

end Registry

end Reckoner
