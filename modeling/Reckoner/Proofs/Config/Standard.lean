import Reckoner.Calculator
import Reckoner.Config.Standard
import Reckoner.Proofs.Config.Building
import Reckoner.Proofs.Config.RoundTrip

/-!
# The standard table in its two forms

The standard table is written down twice, as definitions with their rules and as a configuration
that asks for the rules by name.  Entry by entry the configuration describes the definitions
(`describes_standard`), in the same order, so both forms build one registry, and the
configuration does so too after it has been written and read back.
-/

namespace Reckoner

namespace Config

/-- The entries of the standard configuration stand for the standard definitions, each in its
place. -/
theorem describes_standard : List.Forall₂ Entry.Describes standard.entries standardDefinitions := by
  have hresolve : standard.entries.map Entry.resolve = standardDefinitions.map .ok := rfl
  have hforall : List.Forall₂ (· = ·) (standard.entries.map Entry.resolve)
      (standardDefinitions.map .ok) := by
    rw [hresolve]
    exact List.forall₂_refl _
  have hentries := List.forall₂_map_left_iff.mp (List.forall₂_map_right_iff.mp hforall)
  exact hentries.imp fun _ _ => Entry.resolve_eq_ok_iff.mp

theorem build_standard : standard.build = .ok .standard := by
  rw [build, definitions_eq_map_resolve, registerAll_of_forall₂ describes_standard,
    ← ofDefinitions_eq_registeredAll, standardDefinitions, ← Registry.build,
    Registry.build_standard, Except.mapError]

/-- The standard configuration is read back from its text. -/
theorem read?_standard : read? standard.write = some standard := by
  rw [read?, write, Json.parse?_indented standard.wellFormed_toJson, Option.bind_eq_bind,
    Option.bind_some, ofJson?_toJson]

end Config

namespace Calculator

/-- A calculator with another limit of nesting and height. -/
def withMaxDepth (calculator : Calculator) (limit : Nat) : Calculator :=
  { calculator with maxDepth := limit }

/-- Two calculators have under every limit the same results: for texts that are read, for texts
that are calculated and for trees that are evaluated, errors among them. -/
structure Agrees (calculator other : Calculator) : Prop where
  parse (limit : Nat) (source : Text) :
    (calculator.withMaxDepth limit).parse source = (other.withMaxDepth limit).parse source
  calculate (limit : Nat) (source : Text) :
    (calculator.withMaxDepth limit).calculate source = (other.withMaxDepth limit).calculate source
  evaluate (limit : Nat) (expr : Expr) :
    (calculator.withMaxDepth limit).evaluate expr = (other.withMaxDepth limit).evaluate expr

theorem agrees_refl (calculator : Calculator) : calculator.Agrees calculator :=
  ⟨fun _ _ => rfl, fun _ _ => rfl, fun _ _ => rfl⟩

theorem ofRegistry_standard :
    (Registry.build standardBinary standardUnary standardFunctions).map ofRegistry =
      .ok standard := by
  rw [Registry.build_standard, Except.map, standard]

theorem ofConfig_eq_standard : ofConfig .standard = .ok standard := by
  rw [ofConfig, Config.build_standard, Except.map, standard]

/-- **Both forms of the standard table are one calculator.**  The definitions can be registered,
and the configuration builds, also after it has been written and read back; the calculators of
all three agree. -/
theorem ofConfig_standard_agrees :
    ∃ defined configured readBack again,
      (Registry.build standardBinary standardUnary standardFunctions).map ofRegistry =
          .ok defined ∧
        ofConfig .standard = .ok configured ∧ configured.Agrees defined ∧
        Config.read? Config.standard.write = some readBack ∧
        ofConfig readBack = .ok again ∧ again.Agrees defined :=
  ⟨standard, standard, .standard, standard, ofRegistry_standard, ofConfig_eq_standard,
    agrees_refl standard, Config.read?_standard, ofConfig_eq_standard, agrees_refl standard⟩

end Calculator

end Reckoner
