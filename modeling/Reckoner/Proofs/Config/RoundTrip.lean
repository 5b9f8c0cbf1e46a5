import Reckoner.Config.Json
import Reckoner.Proofs.Json.Records

/-!
# Configurations survive JSON

Whatever a configuration holds, its text is read as that configuration: names of any characters,
precedences up to both ends of their range, lists of any length, functions with a rule of their
own and without.

Each kind of entry is a record (`toJson_eq_record`), so decoding gives its fields back, and each
field has an inverse of its own.  What is written is well-formed at every level, so nothing is
lost in the text either.
-/

namespace Reckoner

open Json

theorem Precedence.ofJson?_ofInt (precedence : Precedence) :
    Precedence.ofJson? (.ofInt precedence.level) = some precedence := by
  have hrange := precedence.inRange
  simp [Precedence.ofJson?, asInt?_ofInt hrange.1 hrange.2, Precedence.ofInt?, hrange]

theorem Associativity.asChoice?_name (associativity : Associativity) :
    (ofText associativity.name).asChoice? associativityNames = some associativity := by
  cases associativity <;> rfl

theorem Fixity.asChoice?_name (fixity : Fixity) :
    (ofText fixity.name).asChoice? fixityNames = some fixity := by
  cases fixity <;> rfl

namespace BinaryEntry

theorem toJson_eq_record (entry : BinaryEntry) : entry.toJson = record fieldNames
    [some (.ofTexts entry.aliases), some (.ofInt entry.precedence.level),
      some (.ofText entry.associativity.name), some (.ofText entry.rule)] :=
  rfl

theorem ofJson?_toJson (entry : BinaryEntry) : ofJson? entry.toJson = some entry := by
  have hnames : fieldNames.Nodup := by decide
  rw [ofJson?, toJson_eq_record, asFields?_record hnames rfl]
  simp [asTexts?_ofTexts, Precedence.ofJson?_ofInt, Associativity.asChoice?_name, asText?_ofText]

theorem wellFormed_toJson (entry : BinaryEntry) : entry.toJson.WellFormed := by
  rw [toJson_eq_record]
  exact wellFormed_record (by simp [wellFormed_ofTexts, wellFormed_ofInt, wellFormed_ofText])

end BinaryEntry

namespace UnaryEntry

theorem toJson_eq_record (entry : UnaryEntry) : entry.toJson = record fieldNames
    [some (.ofTexts entry.aliases), some (.ofText entry.fixity.name),
      some (.ofInt entry.precedence.level), some (.ofText entry.rule)] :=
  rfl

theorem ofJson?_toJson (entry : UnaryEntry) : ofJson? entry.toJson = some entry := by
  have hnames : fieldNames.Nodup := by decide
  rw [ofJson?, toJson_eq_record, asFields?_record hnames rfl]
  simp [asTexts?_ofTexts, Precedence.ofJson?_ofInt, Fixity.asChoice?_name, asText?_ofText]

theorem wellFormed_toJson (entry : UnaryEntry) : entry.toJson.WellFormed := by
  rw [toJson_eq_record]
  exact wellFormed_record (by simp [wellFormed_ofTexts, wellFormed_ofInt, wellFormed_ofText])

end UnaryEntry

namespace FunctionEntry

/-- A function without a rule of its own has no member for it. -/
theorem toJson_eq_record (entry : FunctionEntry) : entry.toJson = record fieldNames
    [some (.ofText entry.name), entry.rule.map .ofText] := by
  obtain ⟨name, rule⟩ := entry
  cases rule <;> rfl

theorem ruleOfJson?_ofText (rule : Option Text) : ruleOfJson? (rule.map .ofText) = some rule := by
  cases rule <;> rfl

theorem ofJson?_toJson (entry : FunctionEntry) : ofJson? entry.toJson = some entry := by
  have hnames : fieldNames.Nodup := by decide
  rw [ofJson?, toJson_eq_record, asFields?_record hnames rfl]
  simp [asText?_ofText, ruleOfJson?_ofText]

theorem wellFormed_toJson (entry : FunctionEntry) : entry.toJson.WellFormed := by
  obtain ⟨name, rule⟩ := entry
  rw [toJson_eq_record]
  cases rule <;> exact wellFormed_record (by simp [wellFormed_ofText])

end FunctionEntry

namespace Config

theorem toJson_eq_record (config : Config) : config.toJson = record fieldNames
    [some (.array (config.binary.map BinaryEntry.toJson)),
      some (.array (config.unary.map UnaryEntry.toJson)),
      some (.array (config.functions.map FunctionEntry.toJson))] :=
  rfl

theorem entriesOfJson?_map {α : Type} {encode : α → Json} {decode : Json → Option α}
    (hdecode : ∀ entry, decode (encode entry) = some entry) (entries : List α) :
    entriesOfJson? decode (some (.array (entries.map encode))) = some entries :=
  mapM_map_eq hdecode entries

theorem ofJson?_toJson (config : Config) : ofJson? config.toJson = some config := by
  have hnames : fieldNames.Nodup := by decide
  rw [ofJson?, toJson_eq_record, asFields?_record hnames rfl]
  simp [entriesOfJson?_map BinaryEntry.ofJson?_toJson, entriesOfJson?_map UnaryEntry.ofJson?_toJson,
    entriesOfJson?_map FunctionEntry.ofJson?_toJson]

theorem wellFormed_entries {α : Type} {encode : α → Json}
    (hencode : ∀ entry, (encode entry).WellFormed) (entries : List α) :
    (Json.array (entries.map encode)).WellFormed :=
  .array (List.forall_mem_map.mpr fun entry _ => hencode entry)

theorem wellFormed_toJson (config : Config) : config.toJson.WellFormed := by
  rw [toJson_eq_record]
  exact wellFormed_record (by simp [wellFormed_entries BinaryEntry.wellFormed_toJson,
    wellFormed_entries UnaryEntry.wellFormed_toJson,
    wellFormed_entries FunctionEntry.wellFormed_toJson])

/-- A configuration is read back from the text that is written for it. -/
theorem read?_write (config : Config) : read? config.write = some config := by
  rw [read?, write, parse?_indented config.wellFormed_toJson]
  exact ofJson?_toJson config

end Config

end Reckoner
