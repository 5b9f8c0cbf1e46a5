import Reckoner.Proofs.Json.Spelling

/-!
# Records and lists decoded again

A record is written as an object with a member for each field that is present.  Decoding finds
each field by its name (`memberValue?_present`): no other member has that name, and a field
that was left out is found absent.  So all fields come back in order (`asFields?_present`).

Lists come back item by item (`mapM_map_eq`).
-/

namespace Reckoner.Json

/-! ## Lists -/

theorem mapM_map_eq {α β : Type} {encode : α → β} {decode : β → Option α}
    (hdecode : ∀ a, decode (encode a) = some a) (items : List α) :
    (items.map encode).mapM decode = some items := by
  have hcomp : decode ∘ encode = fun a => pure (id a) := funext hdecode
  rw [List.mapM_map, hcomp, List.mapM_pure, List.map_id]
  rfl

theorem asText?_ofText (text : Text) : (ofText text).asText? = some text :=
  rfl

theorem asTexts?_ofTexts (texts : List Text) : (ofTexts texts).asTexts? = some texts :=
  mapM_map_eq asText?_ofText texts

theorem wellFormed_ofText (text : Text) : (ofText text).WellFormed :=
  .string text

theorem wellFormed_ofTexts (texts : List Text) : (ofTexts texts).WellFormed :=
  .array (List.forall_mem_map.mpr fun text _ => wellFormed_ofText text)

theorem wellFormed_ofInt (i : Int) : (ofInt i).WellFormed :=
  .number (isLiteral_ofInt i)

/-! ## Records -/

/-- The members of the fields that are present. -/
def present (fields : List (Text × Option Json)) : List (Text × Json) :=
  fields.filterMap fun (name, value) => value.map fun value => (name, value)

/-- The object of the fields that are present, of fields with these names and values. -/
def record (names : List Text) (values : List (Option Json)) : Json :=
  object ((present (names.zip values)).map fun (name, value) => (some name, value))

theorem present_cons (name : Text) (value : Option Json) (fields : List (Text × Option Json)) :
    present ((name, value) :: fields) =
      (value.map fun value => (name, value)).toList ++ present fields := by
  cases value <;> rfl

theorem mem_of_mem_present {fields : List (Text × Option Json)} {name : Text} {value : Json}
    (hmem : (name, value) ∈ present fields) : (name, some value) ∈ fields := by
  obtain ⟨⟨name', value'⟩, hfield, heq⟩ := List.mem_filterMap.mp hmem
  obtain ⟨_, rfl, heq⟩ := Option.map_eq_some_iff.mp heq
  cases heq
  exact hfield

/-- No member has a name that no field has. -/
theorem filter_present_eq_nil {fields : List (Text × Option Json)} {name : Text}
    (hname : name ∉ fields.map Prod.fst) :
    (present fields).filter (fun entry => entry.1 = name) = [] := by
  rw [List.filter_eq_nil_iff]
  rintro ⟨name', value⟩ hmem heq
  obtain rfl := of_decide_eq_true heq
  exact hname (List.mem_map_of_mem (mem_of_mem_present hmem))

/-- The members with the name of a field are the field itself, if it is present. -/
theorem filter_present {fields : List (Text × Option Json)} {name : Text} {value : Option Json}
    (hnames : (fields.map Prod.fst).Nodup) (hmem : (name, value) ∈ fields) :
    (present fields).filter (fun entry => entry.1 = name) =
      (value.map fun value => (name, value)).toList := by
  induction fields with
  | nil => cases hmem
  | cons field fields ih =>
    obtain ⟨first, content⟩ := field
    obtain ⟨hfirst, hlater⟩ := List.nodup_cons.mp hnames
    rw [present_cons, List.filter_append]
    rcases List.mem_cons.mp hmem with heq | hmem
    · cases heq
      rw [filter_present_eq_nil hfirst]
      cases value <;> simp
    · have hne : first ≠ name := fun heq => hfirst (List.mem_map.mpr ⟨_, hmem, heq.symm⟩)
      rw [ih hlater hmem]
      cases content <;> simp [hne]

theorem memberValue?_present {fields : List (Text × Option Json)} {name : Text}
    {value : Option Json} (hnames : (fields.map Prod.fst).Nodup) (hmem : (name, value) ∈ fields) :
    memberValue? (present fields) name = some value := by
  rw [memberValue?, filter_present hnames hmem]
  cases value <;> rfl

theorem textKeys?_texts (members : List (Text × Json)) :
    textKeys? (members.map fun (name, value) => (some name, value)) = some members := by
  refine mapM_map_eq ?_ members
  exact fun _ => rfl

theorem mapM_memberValue?_present {fields : List (Text × Option Json)}
    (hnames : (fields.map Prod.fst).Nodup) :
    (fields.map Prod.fst).mapM (memberValue? (present fields)) = some (fields.map Prod.snd) := by
  suffices hvalues : ∀ later ⊆ fields,
      (later.map Prod.fst).mapM (memberValue? (present fields)) = some (later.map Prod.snd) from
    hvalues fields (List.Subset.refl _)
  intro later hlater
  induction later with
  | nil => rfl
  | cons field later ih =>
    obtain ⟨hfield, hlater⟩ := List.cons_subset.mp hlater
    simp only [List.map_cons, List.mapM_cons, memberValue?_present hnames hfield, ih hlater]
    rfl

/-- A record is decoded into its fields, those that were left out among them. -/
theorem asFields?_record {names : List Text} {values : List (Option Json)} (hnames : names.Nodup)
    (hlength : names.length = values.length) :
    (record names values).asFields? names = some values := by
  have hfst : (names.zip values).map Prod.fst = names :=
    List.map_fst_zip (Nat.le_of_eq hlength)
  have hsnd : (names.zip values).map Prod.snd = values :=
    List.map_snd_zip (Nat.le_of_eq hlength.symm)
  have hvalues := mapM_memberValue?_present (hfst.symm ▸ hnames)
  rw [hfst, hsnd] at hvalues
  simpa only [record, asFields?, textKeys?_texts, Option.bind_eq_bind, Option.bind_some]

theorem wellFormed_record {names : List Text} {values : List (Option Json)}
    (hvalues : ∀ value, some value ∈ values → value.WellFormed) :
    (record names values).WellFormed := by
  refine .object (List.forall_mem_map.mpr fun _ _ => rfl) (List.forall_mem_map.mpr ?_)
  rintro ⟨name, value⟩ hmem
  exact hvalues value (List.of_mem_zip (mem_of_mem_present hmem)).2

end Reckoner.Json
