import Reckoner.Json.Reader
import Reckoner.Proofs.Json.Literals

/-!
# Texts that stand for JSON values

`Spells json text` is the grammar of JSON: the text stands for the value, with blanks wherever
the grammar has them.  It says nothing of lines and levels, so each layout of the writer has to
be shown to follow it and the reader has to be followed along it once.

* The reader accepts what the grammar derives (`Spells.takeValue_eq`).  For each rule there is
  an equation of the reader that gives the whole from its parts; a text has at least as many
  characters as values, items and members, so its length is enough steps.
* Both layouts of a value follow the grammar (`spells_indented`, `spells_compact`) if its numbers
  are literals and its strings denote texts (`WellFormed`), and so do not lose anything.
-/

namespace Reckoner.Json

/-- Only blanks. -/
def IsBlank (text : Text) : Prop :=
  ∀ c ∈ text, isSpace c = true

/-! ## The grammar -/

mutual

/-- A text that stands for a value, behind any blanks. -/
inductive Spells : Json → Text → Prop
  | null : Spells null "null".toList
  | bool (value : Bool) : Spells (bool value) (if value then "true" else "false").toList
  | number {literal : Text} (hliteral : IsLiteral literal) : Spells (number literal) literal
  | string (content : Text) : Spells (string (some content)) (quote content)
  | emptyArray {blank : Text} (hblank : IsBlank blank) :
      Spells (array []) ('[' :: (blank ++ [']']))
  | array {items : List Json} {text : Text} (hitems : SpellsItems items text) :
      Spells (array items) ('[' :: text)
  | emptyObject {blank : Text} (hblank : IsBlank blank) :
      Spells (object []) ('{' :: (blank ++ ['}']))
  | object {members : List (Option Text × Json)} {text : Text}
      (hmembers : SpellsMembers members text) : Spells (object members) ('{' :: text)
  | blank {json : Json} {text blank : Text} (hblank : IsBlank blank) (hspells : Spells json text) :
      Spells json (blank ++ text)

/-- A text that stands for the items of an array, with its closing bracket. -/
inductive SpellsItems : List Json → Text → Prop
  | last {item : Json} {text blank : Text} (hitem : Spells item text) (hblank : IsBlank blank) :
      SpellsItems [item] (text ++ (blank ++ [']']))
  | more {item : Json} {items : List Json} {text blank later : Text} (hitem : Spells item text)
      (hblank : IsBlank blank) (hitems : SpellsItems items later) :
      SpellsItems (item :: items) (text ++ (blank ++ ',' :: later))

/-- A text that stands for the members of an object, with its closing brace. -/
inductive SpellsMembers : List (Option Text × Json) → Text → Prop
  | last {key : Text} {value : Json} {before colon text blank : Text} (hbefore : IsBlank before)
      (hcolon : IsBlank colon) (hvalue : Spells value text) (hblank : IsBlank blank) :
      SpellsMembers [(some key, value)]
        (before ++ (quote key ++ (colon ++ ':' :: (text ++ (blank ++ ['}'])))))
  | more {key : Text} {value : Json} {members : List (Option Text × Json)}
      {before colon text blank later : Text} (hbefore : IsBlank before) (hcolon : IsBlank colon)
      (hvalue : Spells value text) (hblank : IsBlank blank)
      (hmembers : SpellsMembers members later) :
      SpellsMembers ((some key, value) :: members)
        (before ++ (quote key ++ (colon ++ ':' :: (text ++ (blank ++ ',' :: later)))))

end

/-! ## Blanks -/

variable {blank text rest : Text}

theorem skipSpaces_append (hblank : IsBlank blank) (text : Text) :
    skipSpaces (blank ++ text) = skipSpaces text :=
  List.dropWhile_append_of_pos hblank

theorem skipSpaces_cons {c : Char} (hc : isSpace c = false) (text : Text) :
    skipSpaces (c :: text) = c :: text := by
  simp [skipSpaces, hc]

/-- The reader looks for a delimiter behind blanks. -/
theorem skipSpaces_delimiter (hblank : IsBlank blank) {c : Char} (hc : isSpace c = false)
    (text : Text) : skipSpaces (blank ++ c :: text) = c :: text := by
  rw [skipSpaces_append hblank, skipSpaces_cons hc]

theorem skipSpaces_skipSpaces (text : Text) : skipSpaces (skipSpaces text) = skipSpaces text := by
  induction text with
  | nil => rfl
  | cons c text ih => cases hc : isSpace c <;> simp_all [skipSpaces]

theorem endsLiteral_of_isSpace {c : Char} (hc : isSpace c = true) (text : Text) :
    EndsLiteral (c :: text) := by
  simp only [isSpace, Bool.or_eq_true, beq_iff_eq] at hc
  rintro _ ⟨⟩
  obtain ((rfl | rfl) | rfl) | rfl := hc <;> decide

theorem endsLiteral_blank (hblank : IsBlank blank) : EndsLiteral blank := by
  cases blank with
  | nil => rintro _ ⟨⟩
  | cons c blank => exact endsLiteral_of_isSpace (hblank c List.mem_cons_self) _

/-- A literal ends in front of a delimiter, also if blanks stand between them. -/
theorem endsLiteral_delimiter (hblank : IsBlank blank) {c : Char} (hc : c ∈ [',', ']', '}'])
    (text : Text) : EndsLiteral (blank ++ c :: text) := by
  cases blank with
  | nil =>
    simp only [List.mem_cons, List.not_mem_nil, or_false] at hc
    rintro _ ⟨⟩
    obtain rfl | rfl | rfl := hc <;> decide
  | cons d blank => exact endsLiteral_of_isSpace (hblank d List.mem_cons_self) _

/-! ## Equations of the reader -/

section Reader

variable {steps : Nat} {after later other : Text}

theorem takeNumber_eq_none {c : Char} (hminus : c ≠ '-') (hdigit : c.isDigit = false)
    (text : Text) : takeNumber (c :: text) = none := by
  have htakeMinus : takeMinus (c :: text) = ([], c :: text) :=
    takeMinus.eq_2 _ fun rest heq => hminus (List.cons.inj heq).1
  simp [takeNumber, htakeMinus, takeWhole, takeDigits, hdigit]

theorem takeValue_number {literal : Text} (hnumber : takeNumber text = some (literal, rest)) :
    takeValue (steps + 1) text = some (number literal, rest) := by
  cases text with
  | nil => cases hnumber
  | cons c tail =>
    have hspace : isSpace c = false := by
      refine eq_false_of_ne_true fun hspace => ?_
      obtain ⟨hdigit, -⟩ := endsLiteral_of_isSpace hspace tail c rfl
      have hminus : c ≠ '-' := by rintro rfl; cases hspace
      rw [takeNumber_eq_none hminus hdigit] at hnumber
      cases hnumber
    rw [takeValue, skipSpaces_cons hspace]
    -- no other kind of value begins with a minus sign or a digit
    split
    case h_7 => simp [hnumber]
    all_goals
      next heq =>
        rw [heq, takeNumber_eq_none (by decide) (by decide)] at hnumber
        cases hnumber

theorem takeValue_string {content : Option Text}
    (hstring : takeString text = some (content, rest)) :
    takeValue (steps + 1) ('"' :: text) = some (string content, rest) := by
  rw [takeValue, skipSpaces_cons (by decide)]
  simp [hstring]

theorem takeValue_emptyArray (hclose : skipSpaces text = ']' :: rest) :
    takeValue (steps + 1) ('[' :: text) = some (array [], rest) := by
  rw [takeValue, skipSpaces_cons (by decide)]
  simp [hclose]

/-- Items do not begin with the closing bracket of an array. -/
theorem takeItems_eq_none (hclose : skipSpaces text = ']' :: rest) :
    takeItems steps text = none := by
  cases steps with
  | zero => rfl
  | succ steps =>
    have hvalue : takeValue steps text = none := by
      cases steps with
      | zero => rfl
      | succ steps =>
        rw [takeValue, hclose]
        simp [takeNumber_eq_none]
    simp [takeItems, hvalue]

theorem takeValue_array {items : List Json} (hitems : takeItems steps text = some (items, rest)) :
    takeValue (steps + 1) ('[' :: text) = some (array items, rest) := by
  rw [takeValue, skipSpaces_cons (by decide)]
  simp only
  split
  · next hclose =>
    rw [takeItems_eq_none hclose] at hitems
    cases hitems
  · rw [takeItems_congr (skipSpaces_skipSpaces text), hitems]
    rfl

theorem takeValue_emptyObject (hclose : skipSpaces text = '}' :: rest) :
    takeValue (steps + 1) ('{' :: text) = some (object [], rest) := by
  rw [takeValue, skipSpaces_cons (by decide)]
  simp [hclose]

/-- Members do not begin with the closing brace of an object. -/
theorem takeMembers_eq_none (hclose : skipSpaces text = '}' :: rest) :
    takeMembers steps text = none := by
  cases steps with
  | zero => rfl
  | succ steps => simp [takeMembers, hclose]

theorem takeValue_object {members : List (Option Text × Json)}
    (hmembers : takeMembers steps text = some (members, rest)) :
    takeValue (steps + 1) ('{' :: text) = some (object members, rest) := by
  rw [takeValue, skipSpaces_cons (by decide)]
  simp only
  split
  · next hclose =>
    rw [takeMembers_eq_none hclose] at hmembers
    cases hmembers
  · rw [takeMembers_congr (skipSpaces_skipSpaces text), hmembers]
    rfl

theorem takeItems_last {item : Json} (hitem : takeValue steps text = some (item, after))
    (hafter : skipSpaces after = ']' :: rest) :
    takeItems (steps + 1) text = some ([item], rest) := by
  simp [takeItems, hitem, hafter]

theorem takeItems_more {item : Json} {items : List Json}
    (hitem : takeValue steps text = some (item, after)) (hafter : skipSpaces after = ',' :: later)
    (hitems : takeItems steps later = some (items, rest)) :
    takeItems (steps + 1) text = some (item :: items, rest) := by
  simp [takeItems, hitem, hafter, hitems]

variable {key : Option Text} {keyText colon : Text} {value : Json}

theorem takeMembers_last (hquote : skipSpaces text = '"' :: keyText)
    (hkey : takeString keyText = some (key, colon)) (hcolon : skipSpaces colon = ':' :: other)
    (hvalue : takeValue steps other = some (value, after))
    (hafter : skipSpaces after = '}' :: rest) :
    takeMembers (steps + 1) text = some ([(key, value)], rest) := by
  simp [takeMembers, hquote, hkey, hcolon, hvalue, hafter]

theorem takeMembers_more {members : List (Option Text × Json)}
    (hquote : skipSpaces text = '"' :: keyText)
    (hkey : takeString keyText = some (key, colon)) (hcolon : skipSpaces colon = ':' :: other)
    (hvalue : takeValue steps other = some (value, after))
    (hafter : skipSpaces after = ',' :: later)
    (hmembers : takeMembers steps later = some (members, rest)) :
    takeMembers (steps + 1) text = some ((key, value) :: members, rest) := by
  simp [takeMembers, hquote, hkey, hcolon, hvalue, hafter, hmembers]

end Reader

/-! ## The reader accepts what the grammar derives -/

theorem exists_steps {length steps : Nat} (hsteps : length < steps) :
    ∃ fewer, steps = fewer + 1 ∧ length ≤ fewer :=
  ⟨steps - 1, by omega, by omega⟩

mutual

theorem Spells.takeValue_eq {json : Json} {text : Text} : Spells json text →
    ∀ (steps : Nat) (rest : Text), text.length ≤ steps → EndsLiteral rest →
      takeValue steps (text ++ rest) = some (json, rest)
  | .null, steps, rest, hsteps, _ => by
    obtain ⟨steps, rfl, -⟩ := exists_steps hsteps
    rfl
  | .bool value, steps, rest, hsteps, _ => by
    cases value <;> obtain ⟨steps, rfl, -⟩ := exists_steps hsteps <;> rfl
  | .number hliteral, steps, rest, hsteps, hrest => by
    cases text with
    | nil => cases hliteral
    | cons c text =>
      obtain ⟨steps, rfl, -⟩ := exists_steps hsteps
      exact takeValue_number (hliteral.takeNumber_eq hrest)
  | .string content, steps, rest, hsteps, _ => by
    obtain ⟨steps, rfl, -⟩ := exists_steps hsteps
    simp only [quote, List.cons_append, List.append_assoc, List.nil_append]
    exact takeValue_string (takeString_quoted content rest)
  | .emptyArray hblank, steps, rest, hsteps, _ => by
    obtain ⟨steps, rfl, -⟩ := exists_steps hsteps
    simp only [List.cons_append, List.append_assoc, List.nil_append]
    exact takeValue_emptyArray (skipSpaces_delimiter hblank rfl rest)
  | .array hitems, steps, rest, hsteps, _ => by
    obtain ⟨steps, rfl, hfewer⟩ := exists_steps hsteps
    exact takeValue_array (hitems.takeItems_eq steps rest hfewer)
  | .emptyObject hblank, steps, rest, hsteps, _ => by
    obtain ⟨steps, rfl, -⟩ := exists_steps hsteps
    simp only [List.cons_append, List.append_assoc, List.nil_append]
    exact takeValue_emptyObject (skipSpaces_delimiter hblank rfl rest)
  | .object hmembers, steps, rest, hsteps, _ => by
    obtain ⟨steps, rfl, hfewer⟩ := exists_steps hsteps
    exact takeValue_object (hmembers.takeMembers_eq steps rest hfewer)
  | .blank hblank hspells, steps, rest, hsteps, hrest => by
    rw [List.append_assoc, takeValue_congr (skipSpaces_append hblank _)]
    exact hspells.takeValue_eq steps rest (by simp at hsteps; omega) hrest

theorem SpellsItems.takeItems_eq {items : List Json} {text : Text} : SpellsItems items text →
    ∀ (steps : Nat) (rest : Text), text.length ≤ steps →
      takeItems steps (text ++ rest) = some (items, rest)
  | @SpellsItems.last _ text blank hitem hblank, steps, rest, hsteps => by
    simp only [List.length_append, List.length_singleton] at hsteps
    obtain ⟨steps, rfl, hfewer⟩ := exists_steps (show text.length < steps by omega)
    have hends := endsLiteral_delimiter hblank (show ']' ∈ _ by simp) rest
    simp only [List.append_assoc, List.cons_append, List.nil_append]
    exact takeItems_last (hitem.takeValue_eq steps _ hfewer hends)
      (skipSpaces_delimiter hblank rfl rest)
  | @SpellsItems.more _ _ text blank later hitem hblank hitems, steps, rest, hsteps => by
    simp only [List.length_append, List.length_cons] at hsteps
    obtain ⟨steps, rfl, hfewer⟩ := exists_steps (show text.length < steps by omega)
    have hends := endsLiteral_delimiter hblank (show ',' ∈ _ by simp) (later ++ rest)
    simp only [List.append_assoc, List.cons_append]
    exact takeItems_more (hitem.takeValue_eq steps _ hfewer hends)
      (skipSpaces_delimiter hblank rfl _) (hitems.takeItems_eq steps rest (by omega))

theorem SpellsMembers.takeMembers_eq {members : List (Option Text × Json)} {text : Text} :
    SpellsMembers members text →
    ∀ (steps : Nat) (rest : Text), text.length ≤ steps →
      takeMembers steps (text ++ rest) = some (members, rest)
  | @SpellsMembers.last key _ _ _ text _ hbefore hcolon hvalue hblank, steps, rest, hsteps => by
    simp only [List.length_append, List.length_cons] at hsteps
    obtain ⟨steps, rfl, hfewer⟩ := exists_steps (show text.length < steps by omega)
    have hends := endsLiteral_delimiter hblank (show '}' ∈ _ by simp) rest
    simp only [quote, List.append_assoc, List.cons_append, List.nil_append]
    exact takeMembers_last (skipSpaces_delimiter hbefore rfl _) (takeString_quoted key _)
      (skipSpaces_delimiter hcolon rfl _) (hvalue.takeValue_eq steps _ hfewer hends)
      (skipSpaces_delimiter hblank rfl rest)
  | @SpellsMembers.more key _ _ _ _ text _ later hbefore hcolon hvalue hblank hmembers, steps,
      rest, hsteps => by
    simp only [List.length_append, List.length_cons] at hsteps
    obtain ⟨steps, rfl, hfewer⟩ := exists_steps (show text.length < steps by omega)
    have hends := endsLiteral_delimiter hblank (show ',' ∈ _ by simp) (later ++ rest)
    simp only [quote, List.append_assoc, List.cons_append, List.nil_append]
    exact takeMembers_more (skipSpaces_delimiter hbefore rfl _) (takeString_quoted key _)
      (skipSpaces_delimiter hcolon rfl _) (hvalue.takeValue_eq steps _ hfewer hends)
      (skipSpaces_delimiter hblank rfl _) (hmembers.takeMembers_eq steps rest (by omega))

end

/-- A text that stands for a value is read as that value. -/
theorem parse?_eq_of_spells {json : Json} (hspells : Spells json text) (hblank : IsBlank blank) :
    parse? (text ++ blank) = some json := by
  have hlength : text.length ≤ 2 * (text ++ blank).length + 2 := by
    rw [List.length_append]
    omega
  have hend : skipSpaces blank = [] := List.dropWhile_eq_nil_iff.mpr hblank
  rw [parse?, hspells.takeValue_eq _ blank hlength (endsLiteral_blank hblank)]
  simp [hend]

/-! ## Values that can be written -/

/-- A value that loses nothing when it is written: its numbers are literals, and its strings
denote texts. -/
inductive WellFormed : Json → Prop
  | null : WellFormed null
  | bool (value : Bool) : WellFormed (bool value)
  | number {literal : Text} (hliteral : IsLiteral literal) : WellFormed (number literal)
  | string (content : Text) : WellFormed (string (some content))
  | array {items : List Json} (hitems : ∀ item ∈ items, WellFormed item) :
      WellFormed (array items)
  | object {members : List (Option Text × Json)}
      (hkeys : ∀ entry ∈ members, entry.1.isSome = true)
      (hvalues : ∀ entry ∈ members, WellFormed entry.2) : WellFormed (object members)

/-! ## The indented layout follows the grammar -/

theorem isBlank_nil : IsBlank [] :=
  fun _ hc => absurd hc List.not_mem_nil

theorem isBlank_space : IsBlank [' '] :=
  List.forall_mem_singleton.mpr rfl

theorem isBlank_newLine (level : Nat) : IsBlank (newLine level) := by
  intro c hc
  rcases List.mem_cons.mp hc with rfl | hc
  · rfl
  · rw [List.eq_of_mem_replicate hc]
    rfl

mutual

theorem spells_indented (level : Nat) : (json : Json) → json.WellFormed →
    Spells json (indented level json)
  | .null, _ => .null
  | .bool value, _ => .bool value
  | .number _, .number hliteral => .number hliteral
  | .string _, .string content => .string content
  | .array [], _ => .emptyArray isBlank_nil
  | .array (item :: items), .array hitems =>
    .array (spellsItems_indented level (level + 1) (item :: items) (List.cons_ne_nil _ _) hitems)
  | .object [], _ => .emptyObject isBlank_nil
  | .object (member :: members), .object hkeys hvalues =>
    .object (spellsMembers_indented level (level + 1) (member :: members) (List.cons_ne_nil _ _)
      hkeys hvalues)

theorem spellsItems_indented (outer level : Nat) : (items : List Json) → items ≠ [] →
    (∀ item ∈ items, item.WellFormed) →
      SpellsItems items (indentedItems level items ++ newLine outer ++ [']'])
  | [item], _, hitems => by
    have hitem := spells_indented level item (hitems item List.mem_cons_self)
    simpa [indentedItems] using
      SpellsItems.last (.blank (isBlank_newLine level) hitem) (isBlank_newLine outer)
  | item :: next :: items, _, hitems => by
    have hitem := spells_indented level item (hitems item List.mem_cons_self)
    have hlater := spellsItems_indented outer level (next :: items) (List.cons_ne_nil _ _)
      (List.forall_mem_cons.mp hitems).2
    simpa [indentedItems] using
      SpellsItems.more (.blank (isBlank_newLine level) hitem) isBlank_nil hlater

theorem spellsMembers_indented (outer level : Nat) : (members : List (Option Text × Json)) →
    members ≠ [] → (∀ entry ∈ members, entry.1.isSome = true) →
      (∀ entry ∈ members, entry.2.WellFormed) →
      SpellsMembers members (indentedMembers level members ++ newLine outer ++ ['}'])
  | [(some key, value)], _, _, hvalues => by
    have hvalue := spells_indented level value (hvalues _ List.mem_cons_self)
    simpa [indentedMembers, quoteContent] using
      SpellsMembers.last (isBlank_newLine level) isBlank_nil (.blank isBlank_space hvalue)
        (isBlank_newLine outer)
  | (some key, value) :: next :: members, _, hkeys, hvalues => by
    have hvalue := spells_indented level value (hvalues _ List.mem_cons_self)
    have hlater := spellsMembers_indented outer level (next :: members) (List.cons_ne_nil _ _)
      (List.forall_mem_cons.mp hkeys).2 (List.forall_mem_cons.mp hvalues).2
    simpa [indentedMembers, quoteContent] using
      SpellsMembers.more (isBlank_newLine level) isBlank_nil (.blank isBlank_space hvalue)
        isBlank_nil hlater
  | (none, _) :: _, _, hkeys, _ => absurd (hkeys _ List.mem_cons_self) Bool.false_ne_true

end

/-- A well-formed value is read back from its indented layout. -/
theorem parse?_indented {json : Json} (hjson : json.WellFormed) :
    parse? (indented 0 json) = some json := by
  have hread := parse?_eq_of_spells (spells_indented 0 json hjson) isBlank_nil
  rwa [List.append_nil] at hread

/-! ## The compact layout follows the grammar -/

mutual

theorem spells_compact : (json : Json) → json.WellFormed → Spells json (compact json)
  | .null, _ => .null
  | .bool value, _ => .bool value
  | .number _, .number hliteral => .number hliteral
  | .string _, .string content => .string content
  | .array [], _ => .emptyArray isBlank_nil
  | .array (item :: items), .array hitems =>
    .array (spellsItems_compact (item :: items) (List.cons_ne_nil _ _) hitems)
  | .object [], _ => .emptyObject isBlank_nil
  | .object (member :: members), .object hkeys hvalues =>
    .object (spellsMembers_compact (member :: members) (List.cons_ne_nil _ _) hkeys hvalues)

theorem spellsItems_compact : (items : List Json) → items ≠ [] →
    (∀ item ∈ items, item.WellFormed) → SpellsItems items (compactItems items ++ [']'])
  | [item], _, hitems => by
    have hitem := spells_compact item (hitems item List.mem_cons_self)
    simpa [compactItems] using SpellsItems.last hitem isBlank_nil
  | item :: next :: items, _, hitems => by
    have hitem := spells_compact item (hitems item List.mem_cons_self)
    have hlater := spellsItems_compact (next :: items) (List.cons_ne_nil _ _)
      (List.forall_mem_cons.mp hitems).2
    simpa [compactItems] using SpellsItems.more hitem isBlank_nil hlater

theorem spellsMembers_compact : (members : List (Option Text × Json)) → members ≠ [] →
    (∀ entry ∈ members, entry.1.isSome = true) → (∀ entry ∈ members, entry.2.WellFormed) →
      SpellsMembers members (compactMembers members ++ ['}'])
  | [(some key, value)], _, _, hvalues => by
    have hvalue := spells_compact value (hvalues _ List.mem_cons_self)
    simpa [compactMembers, quoteContent] using
      SpellsMembers.last isBlank_nil isBlank_nil hvalue isBlank_nil
  | (some key, value) :: next :: members, _, hkeys, hvalues => by
    have hvalue := spells_compact value (hvalues _ List.mem_cons_self)
    have hlater := spellsMembers_compact (next :: members) (List.cons_ne_nil _ _)
      (List.forall_mem_cons.mp hkeys).2 (List.forall_mem_cons.mp hvalues).2
    simpa [compactMembers, quoteContent] using
      SpellsMembers.more isBlank_nil isBlank_nil hvalue isBlank_nil hlater
  | (none, _) :: _, _, hkeys, _ => absurd (hkeys _ List.mem_cons_self) Bool.false_ne_true

end

/-- A well-formed value is read back from its compact layout. -/
theorem parse?_compact {json : Json} (hjson : json.WellFormed) :
    parse? (compact json) = some json := by
  have hread := parse?_eq_of_spells (spells_compact json hjson) isBlank_nil
  rwa [List.append_nil] at hread

end Reckoner.Json
