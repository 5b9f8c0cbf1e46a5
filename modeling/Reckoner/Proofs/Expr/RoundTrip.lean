import Reckoner.Expr.Json
import Reckoner.Number.Bits
import Reckoner.Proofs.Json.Numbers
import Reckoner.Proofs.Json.Records
import Reckoner.Proofs.Parser.Leaves
import Reckoner.Proofs.Parser.RoundTrip

/-!
# Trees survive JSON

What is written for a tree is read as the tree, with two exceptions, both of them the reader's.

It counts how many arrays and objects stand inside each other, and gives up beyond `maxNesting` of
them; `Expr.nesting` says how many a tree has.  And it may read the literal of a number as another
number close to it (`Number.ReadsNearest`), or as none.

Nothing else is in the way: within the limit the tree comes back with its shape, its names and what
its numbers are read as (`read?_write_eq`).
-/

namespace Reckoner

open Json

/-! ## Numbers -/

namespace Number

variable {x : Number}

/-- What the JSON form of a number is read as. -/
def reread? (x : Number) : Option Number :=
  (Expr.numberToJson x).asNumber?

/-- The literal of a number is read as the number nearest to it. -/
def ReadsNearest (x : Number) : Prop :=
  ∀ literal ∈ x.scientific?, numberValue literal = nearestNumber literal

instance (x : Number) : Decidable x.ReadsNearest :=
  inferInstanceAs (Decidable (∀ literal ∈ x.scientific?, _))

/-- The literal of a number is short. -/
def IsShort (x : Number) : Prop :=
  ∀ literal ∈ x.scientific?, Json.IsShort literal

instance (x : Number) : Decidable x.IsShort :=
  inferInstanceAs (Decidable (∀ literal ∈ x.scientific?, _))

theorem exists_scientific? (hfinite : x.isFinite = true) :
    ∃ literal, x.scientific? = some literal := by
  cases x with
  | finite => exact ⟨_, rfl⟩
  | _ => cases hfinite

/-- A finite number comes back exactly if its literal is read as the nearest number. -/
theorem reread?_eq_self_iff (hfinite : x.isFinite = true) :
    x.reread? = some x ↔ x.ReadsNearest := by
  obtain ⟨literal, hliteral⟩ := exists_scientific? hfinite
  have hreread : x.reread? =
      if (numberValue literal).isFinite then some (numberValue literal) else none := by
    simp only [reread?, Expr.numberToJson, hliteral, asNumber?]
  rw [hreread]
  constructor
  · intro hsome literal' hliteral'
    obtain rfl := Option.some.inj (hliteral.symm.trans hliteral')
    rw [nearestNumber_scientific? hliteral]
    split at hsome
    · exact Option.some.inj hsome
    · cases hsome
  · intro hnearest
    rw [hnearest literal hliteral, nearestNumber_scientific? hliteral, if_pos hfinite]

theorem IsShort.readsNearest (hshort : x.IsShort) : x.ReadsNearest := by
  intro literal hliteral
  rw [nearestNumber_scientific? hliteral]
  exact numberValue_scientific? hliteral (hshort literal hliteral)

end Number

/-! ## Nesting -/

namespace Json

mutual

/-- How many arrays and objects of a value stand inside each other. -/
def nesting : Json → Nat
  | array items => 1 + nestingItems items
  | object members => 1 + nestingMembers members
  | _ => 0

def nestingItems : List Json → Nat
  | [] => 0
  | item :: items => max item.nesting (nestingItems items)

def nestingMembers : List (Option Text × Json) → Nat
  | [] => 0
  | (_, value) :: members => max value.nesting (nestingMembers members)

end

end Json

namespace Expr

/-- How many arrays and objects stand inside each other in the JSON form of a tree. -/
def nesting (e : Expr) : Nat :=
  e.toJson.nesting

section Nesting

variable (left right operand : Expr) (op name : Text) (args : List Expr)

theorem nesting_numberToJson (x : Number) : (numberToJson x).nesting = 0 := by
  unfold numberToJson
  split <;> rfl

theorem nesting_number (x : Number) : (number x).nesting = 1 := by
  simp [nesting, toJson, member, Json.nesting, nestingMembers, nesting_numberToJson]

theorem nesting_binary :
    (binary left op right).nesting = 2 + max left.nesting right.nesting := by
  simp only [nesting, toJson, member, ofText, Json.nesting, nestingMembers]
  omega

theorem nesting_prefixed : (prefixed op operand).nesting = 2 + operand.nesting := by
  simp only [nesting, toJson, member, ofText, Json.nesting, nestingMembers]
  omega

theorem nesting_postfixed : (postfixed operand op).nesting = 2 + operand.nesting := by
  simp only [nesting, toJson, member, ofText, Json.nesting, nestingMembers]
  omega

theorem nesting_call : (call name args).nesting = 3 + nestingItems (toJsonAll args) := by
  simp only [nesting, toJson, member, ofText, Json.nesting, nestingMembers]
  omega

end Nesting

/-! ## Trees with other numbers -/

mutual

/-- A tree with what becomes of its numbers, if something becomes of each. -/
def mapNumbers? (f : Number → Option Number) : Expr → Option Expr
  | number value => do return number (← f value)
  | binary left op right => do return binary (← left.mapNumbers? f) op (← right.mapNumbers? f)
  | prefixed op operand => do return prefixed op (← operand.mapNumbers? f)
  | postfixed operand op => do return postfixed (← operand.mapNumbers? f) op
  | call name args => do return call name (← mapNumbersAll? f args)

def mapNumbersAll? (f : Number → Option Number) : List Expr → Option (List Expr)
  | [] => some []
  | e :: es => do return (← e.mapNumbers? f) :: (← mapNumbersAll? f es)

end

mutual

theorem mapNumbers?_eq_self_iff {f : Number → Option Number} : (e : Expr) →
    (e.mapNumbers? f = some e ↔ ∀ x ∈ e.numbers, f x = some x)
  | number value => by simp [mapNumbers?, Option.bind_eq_some_iff]
  | binary left op right => by
    simp [mapNumbers?, Option.bind_eq_some_iff, or_imp, forall_and,
      mapNumbers?_eq_self_iff left, mapNumbers?_eq_self_iff right]
  | prefixed op operand => by
    simp [mapNumbers?, Option.bind_eq_some_iff, mapNumbers?_eq_self_iff operand]
  | postfixed operand op => by
    simp [mapNumbers?, Option.bind_eq_some_iff, mapNumbers?_eq_self_iff operand]
  | call name args => by
    simp [mapNumbers?, Option.bind_eq_some_iff, mapNumbersAll?_eq_self_iff args]

theorem mapNumbersAll?_eq_self_iff {f : Number → Option Number} : (es : List Expr) →
    (mapNumbersAll? f es = some es ↔ ∀ x ∈ Token.numbers (tokensAll es), f x = some x)
  | [] => by simp [mapNumbersAll?]
  | e :: es => by
    simp [mapNumbersAll?, Option.bind_eq_some_iff, or_imp, forall_and,
      mapNumbers?_eq_self_iff e, mapNumbersAll?_eq_self_iff es, numbers]

end

/-! ## The text of a tree -/

section Records

variable (left right operand : Expr) (op name : Text) (args : List Expr)

theorem toJson_binary : (binary left op right).toJson = object [member "Binary"
    (record ["left".toList, "op".toList, "right".toList]
      [some left.toJson, some (.ofText op), some right.toJson])] :=
  rfl

theorem toJson_prefixed : (prefixed op operand).toJson = object [member "Prefix"
    (record ["op".toList, "operand".toList] [some (.ofText op), some operand.toJson])] :=
  rfl

theorem toJson_postfixed : (postfixed operand op).toJson = object [member "Postfix"
    (record ["operand".toList, "op".toList] [some operand.toJson, some (.ofText op)])] :=
  rfl

theorem toJson_call : (call name args).toJson = object [member "Call"
    (record ["name".toList, "args".toList]
      [some (.ofText name), some (.array (toJsonAll args))])] :=
  rfl

end Records

theorem wellFormed_numberToJson (x : Number) : (numberToJson x).WellFormed := by
  unfold numberToJson
  split
  · next literal hliteral => exact .number (isLiteral_scientific? hliteral)
  · exact .null

theorem wellFormed_tagged {tag : String} {content : Json} (hcontent : content.WellFormed) :
    (object [member tag content]).WellFormed :=
  .object (by simp [member]) (by simp [member, hcontent])

mutual

/-- A tree loses nothing in its text, whatever its names and numbers are. -/
theorem wellFormed_toJson : (e : Expr) → e.toJson.WellFormed
  | number value => wellFormed_tagged (wellFormed_numberToJson value)
  | binary left op right => by
    rw [toJson_binary]
    exact wellFormed_tagged (wellFormed_record
      (by simp [wellFormed_toJson left, wellFormed_toJson right, wellFormed_ofText]))
  | prefixed op operand => by
    rw [toJson_prefixed]
    exact wellFormed_tagged (wellFormed_record
      (by simp [wellFormed_toJson operand, wellFormed_ofText]))
  | postfixed operand op => by
    rw [toJson_postfixed]
    exact wellFormed_tagged (wellFormed_record
      (by simp [wellFormed_toJson operand, wellFormed_ofText]))
  | call name args => by
    have hargs : (array (toJsonAll args)).WellFormed := .array (wellFormed_toJsonAll args)
    rw [toJson_call]
    exact wellFormed_tagged (wellFormed_record (by simp [hargs, wellFormed_ofText]))

theorem wellFormed_toJsonAll : (es : List Expr) → ∀ json ∈ toJsonAll es, json.WellFormed
  | [] => fun _ hjson => absurd hjson List.not_mem_nil
  | e :: es => List.forall_mem_cons.mpr ⟨wellFormed_toJson e, wellFormed_toJsonAll es⟩

end

/-! ## The reader -/

/-- The trees of an array, whose brackets count as well. -/
def ofJsonAll? : (limit : Nat) → Json → Option (List Expr)
  | 0, _ => none
  | limit + 1, args => do (← args.asItems?).mapM (ofJson? limit)

theorem ofJsonAll?_array (limit : Nat) (items : List Json) :
    ofJsonAll? (limit + 1) (array items) = items.mapM (ofJson? limit) :=
  rfl

section Reader

variable {tag : Text} {content : Json}

theorem ofJson?_number (limit : Nat) (x : Number) :
    ofJson? (limit + 1) (number x).toJson = (number x).mapNumbers? Number.reread? := by
  rw [toJson, ofJson?, member, asTagged?]
  rfl

/-- A node takes two levels of nesting, and leaves the rest to its parts. -/
theorem ofJson?_node (htag : tag ≠ "Number".toList) (limit : Nat) :
    ofJson? (limit + 2) (object [(some tag, content)]) =
      nodeOfJson? (ofJson? limit) (ofJsonAll? limit) tag content := by
  rw [ofJson?, asTagged?]
  simp only [Option.bind_eq_bind, Option.bind_some, if_neg htag]
  cases limit with
  | zero => rfl
  | succ limit => rfl

/-- A node is not read if too little is left for its parts, or nothing for the node itself. -/
theorem ofJson?_node_eq_none (htag : tag ≠ "Number".toList) {limit : Nat}
    (hparts : ∀ fewer, limit = fewer + 2 →
      nodeOfJson? (ofJson? fewer) (ofJsonAll? fewer) tag content = none) :
    ofJson? limit (object [(some tag, content)]) = none := by
  match limit, hparts with
  | 0, _ => rfl
  | 1, _ =>
    rw [ofJson?, asTagged?]
    simp only [Option.bind_eq_bind, Option.bind_some, if_neg htag]
  | fewer + 2, hparts => rw [ofJson?_node htag, hparts fewer rfl]

variable (tree : Json → Option Expr) (trees : Json → Option (List Expr))
  (left right operand args : Json) (op name : Text)

theorem nodeOfJson?_binary :
    nodeOfJson? tree trees "Binary".toList
      (record ["left".toList, "op".toList, "right".toList]
        [some left, some (.ofText op), some right]) =
      do return binary (← tree left) op (← tree right) := by
  have hnames : ["left".toList, "op".toList, "right".toList].Nodup := by decide
  rw [nodeOfJson?, if_pos rfl, asFields?_record hnames rfl]
  rfl

theorem nodeOfJson?_prefixed :
    nodeOfJson? tree trees "Prefix".toList
      (record ["op".toList, "operand".toList] [some (.ofText op), some operand]) =
      do return prefixed op (← tree operand) := by
  have hnames : ["op".toList, "operand".toList].Nodup := by decide
  rw [nodeOfJson?, if_neg (by decide), if_pos rfl, asFields?_record hnames rfl]
  rfl

theorem nodeOfJson?_postfixed :
    nodeOfJson? tree trees "Postfix".toList
      (record ["operand".toList, "op".toList] [some operand, some (.ofText op)]) =
      do return postfixed (← tree operand) op := by
  have hnames : ["operand".toList, "op".toList].Nodup := by decide
  rw [nodeOfJson?, if_neg (by decide), if_neg (by decide), if_pos rfl, asFields?_record hnames rfl]
  rfl

theorem nodeOfJson?_call :
    nodeOfJson? tree trees "Call".toList
      (record ["name".toList, "args".toList] [some (.ofText name), some args]) =
      do return call name (← trees args) := by
  have hnames : ["name".toList, "args".toList].Nodup := by decide
  rw [nodeOfJson?, if_neg (by decide), if_neg (by decide), if_neg (by decide), if_pos rfl,
    asFields?_record hnames rfl]
  rfl

end Reader

/-! ## Reading what is written -/

mutual

/-- Within the limit a tree is read with what its numbers are read as. -/
theorem ofJson?_toJson : (e : Expr) → {limit : Nat} → e.nesting ≤ limit →
    ofJson? limit e.toJson = e.mapNumbers? Number.reread?
  | number x, limit, hlimit => by
    rw [nesting_number] at hlimit
    obtain ⟨limit, rfl⟩ := Nat.exists_eq_add_of_le' hlimit
    exact ofJson?_number limit x
  | binary left op right, limit, hlimit => by
    rw [nesting_binary] at hlimit
    obtain ⟨limit, rfl⟩ : ∃ fewer, limit = fewer + 2 := ⟨limit - 2, by omega⟩
    rw [toJson_binary, member, ofJson?_node (by decide), nodeOfJson?_binary,
      ofJson?_toJson left (by omega), ofJson?_toJson right (by omega), mapNumbers?]
  | prefixed op operand, limit, hlimit => by
    rw [nesting_prefixed] at hlimit
    obtain ⟨limit, rfl⟩ : ∃ fewer, limit = fewer + 2 := ⟨limit - 2, by omega⟩
    rw [toJson_prefixed, member, ofJson?_node (by decide), nodeOfJson?_prefixed,
      ofJson?_toJson operand (by omega), mapNumbers?]
  | postfixed operand op, limit, hlimit => by
    rw [nesting_postfixed] at hlimit
    obtain ⟨limit, rfl⟩ : ∃ fewer, limit = fewer + 2 := ⟨limit - 2, by omega⟩
    rw [toJson_postfixed, member, ofJson?_node (by decide), nodeOfJson?_postfixed,
      ofJson?_toJson operand (by omega), mapNumbers?]
  | call name args, limit, hlimit => by
    rw [nesting_call] at hlimit
    obtain ⟨limit, rfl⟩ : ∃ fewer, limit = fewer + 3 := ⟨limit - 3, by omega⟩
    have hargs := mapM_toJsonAll args (show nestingItems (toJsonAll args) ≤ limit by omega)
    rw [toJson_call, member, ofJson?_node (by decide), nodeOfJson?_call, ofJsonAll?_array,
      hargs, mapNumbers?]

theorem mapM_toJsonAll : (es : List Expr) → {limit : Nat} → nestingItems (toJsonAll es) ≤ limit →
    (toJsonAll es).mapM (ofJson? limit) = mapNumbersAll? Number.reread? es
  | [], _, _ => rfl
  | e :: es, limit, hlimit => by
    obtain ⟨hfirst, hothers⟩ := Nat.max_le.mp hlimit
    rw [toJsonAll, List.mapM_cons, ofJson?_toJson e hfirst, mapM_toJsonAll es hothers,
      mapNumbersAll?]

end

mutual

/-- Beyond the limit no tree is read. -/
theorem ofJson?_toJson_eq_none : (e : Expr) → {limit : Nat} → limit < e.nesting →
    ofJson? limit e.toJson = none
  | number x, limit, hlimit => by
    rw [nesting_number] at hlimit
    obtain rfl := Nat.lt_one_iff.mp hlimit
    rfl
  | binary left op right, limit, hlimit => by
    rw [nesting_binary] at hlimit
    rw [toJson_binary]
    refine ofJson?_node_eq_none (by decide) fun fewer heq => ?_
    rw [nodeOfJson?_binary]
    have hparts : fewer < left.nesting ∨ fewer < right.nesting := by omega
    rcases hparts with hleft | hright
    · rw [ofJson?_toJson_eq_none left hleft]
      rfl
    · rw [ofJson?_toJson_eq_none right hright]
      cases ofJson? fewer left.toJson <;> rfl
  | prefixed op operand, limit, hlimit => by
    rw [nesting_prefixed] at hlimit
    rw [toJson_prefixed]
    refine ofJson?_node_eq_none (by decide) fun fewer heq => ?_
    rw [nodeOfJson?_prefixed, ofJson?_toJson_eq_none operand (by omega)]
    rfl
  | postfixed operand op, limit, hlimit => by
    rw [nesting_postfixed] at hlimit
    rw [toJson_postfixed]
    refine ofJson?_node_eq_none (by decide) fun fewer heq => ?_
    rw [nodeOfJson?_postfixed, ofJson?_toJson_eq_none operand (by omega)]
    rfl
  | call name args, limit, hlimit => by
    rw [nesting_call] at hlimit
    rw [toJson_call]
    refine ofJson?_node_eq_none (by decide) fun fewer heq => ?_
    rw [nodeOfJson?_call]
    cases fewer with
    | zero => rfl
    | succ fewer =>
      rw [ofJsonAll?_array, mapM_toJsonAll_eq_none args (by omega)]
      rfl

theorem mapM_toJsonAll_eq_none : (es : List Expr) → {limit : Nat} → limit < nestingItems (toJsonAll es) →
    (toJsonAll es).mapM (ofJson? limit) = none
  | e :: es, limit, hlimit => by
    rw [toJsonAll, nestingItems] at hlimit
    have hparts : limit < e.toJson.nesting ∨ limit < nestingItems (toJsonAll es) := by omega
    rw [toJsonAll, List.mapM_cons]
    rcases hparts with hfirst | hothers
    · rw [ofJson?_toJson_eq_none e hfirst]
      rfl
    · rw [mapM_toJsonAll_eq_none es hothers]
      cases ofJson? limit e.toJson <;> rfl

end

/-- Within the limit the text of a tree is read as the tree with its numbers read again, and beyond
the limit it is not read at all. -/
theorem read?_write_eq (e : Expr) : read? e.write =
    if e.nesting ≤ maxNesting then e.mapNumbers? Number.reread? else none := by
  have hread : read? e.write = ofJson? maxNesting e.toJson := by
    rw [read?, write, parse?_compact e.wellFormed_toJson]
    rfl
  rw [hread]
  split
  · next hle => exact ofJson?_toJson e hle
  · next hlt => exact ofJson?_toJson_eq_none e (Nat.lt_of_not_le hlt)

/-- A tree of finite numbers comes back exactly if it does not nest too deeply and its literals are
read as the nearest numbers. -/
theorem read?_write_eq_self_iff {e : Expr} (hfinite : ∀ x ∈ e.numbers, x.isFinite = true) :
    read? e.write = some e ↔ e.nesting ≤ maxNesting ∧ ∀ x ∈ e.numbers, x.ReadsNearest := by
  have hnumbers : (∀ x ∈ e.numbers, x.reread? = some x) ↔ ∀ x ∈ e.numbers, x.ReadsNearest :=
    forall₂_congr fun x hx => Number.reread?_eq_self_iff (hfinite x hx)
  rw [read?_write_eq, ← hnumbers, ← mapNumbers?_eq_self_iff]
  split
  · next hle => simp [hle]
  · next hlt => simp [hlt]

/-- The parser returns trees of finite numbers without a sign. -/
theorem exists_finite_of_parse {registry : Registry} (hreach : registry.Reachable) {limit : Nat}
    {source : Text} {e : Expr} (hparse : registry.parse limit source = .ok e) :
    ∀ x ∈ e.numbers, ∃ units hunits, x = .finite false units hunits := by
  obtain ⟨lexemes, hlexes, hreads, _⟩ := (Registry.parse_eq_ok_iff hreach).mp hparse
  intro x hx
  obtain ⟨token, htoken, hvalue⟩ := List.mem_filterMap.mp hx
  have hlexical := Registry.lexical_of_derives hreach hlexes hreads.derives_append token htoken
  cases hlexical with
  | number => exact ⟨_, _, (Option.some.inj hvalue).symm⟩
  | _ => cases hvalue

/-- **Trees survive JSON**, as far as the reader goes.  A tree of finite numbers comes back exactly
if it does not nest too deeply and each of its literals is read as the nearest number, as every
short one is.  Of a tree that nests too deeply nothing comes back, and of any other one no name and
no node is lost.  The numbers of a parsed tree are all finite, and none has a sign. -/
theorem survives_json :
    (∀ e : Expr, (∀ x ∈ e.numbers, x.isFinite = true) →
      (read? e.write = some e ↔ e.nesting ≤ maxNesting ∧ ∀ x ∈ e.numbers, x.ReadsNearest) ∧
      ((∀ x ∈ e.numbers, x.IsShort) → (read? e.write = some e ↔ e.nesting ≤ maxNesting)) ∧
      read? e.write = if e.nesting ≤ maxNesting then e.mapNumbers? Number.reread? else none) ∧
    ∀ registry : Registry, registry.Reachable → ∀ limit source e,
      registry.parse limit source = .ok e →
        ∀ x ∈ e.numbers, ∃ units hunits, x = .finite false units hunits := by
  constructor
  · intro e hfinite
    have hiff := read?_write_eq_self_iff hfinite
    refine ⟨hiff, fun hshort => ?_, read?_write_eq e⟩
    have hnearest : ∀ x ∈ e.numbers, x.ReadsNearest := fun x hx => (hshort x hx).readsNearest
    rw [hiff, and_iff_left hnearest]
  · intro registry hreach limit source e hparse
    exact exists_finite_of_parse hreach hparse

/-- A negative zero, a fraction and a power of ten, beside an operator that has to be escaped. -/
theorem survives_json_negative_zero :
    let tenth := number (.ofRatio false unitsPerOne 10)
    let large := number (.ofInt 10000000000000000000000)
    let e := call "max".toList [number Number.zero.negate, binary tenth ['"'] large]
    read? e.write = some e := by
  intro tenth large e
  have hfinite : ∀ x ∈ e.numbers, x.isFinite = true := by decide +kernel
  have hshort : ∀ x ∈ e.numbers, x.IsShort := by decide +kernel
  obtain ⟨-, hiff, -⟩ := survives_json.1 e hfinite
  exact (hiff hshort).mpr (by decide +kernel)

/-- The parser returns a tree that nests too deeply, of a number that is read as itself.  And the
lone number 3.1651838184851346 is read as the one below it. -/
theorem not_survives_json :
    let deep := Nat.repeat (prefixed "+".toList) 64 (number .one)
    let lone := number (.ofBits 0x4009524be4d1c6c4)
    (Registry.standard.parse 256 (Nat.repeat ('+' :: ·) 64 ['1']) = .ok deep ∧
        (∀ x ∈ deep.numbers, x.isFinite = true ∧ x.ReadsNearest) ∧ read? deep.write = none) ∧
      (∀ x ∈ lone.numbers, x.isFinite = true) ∧
        read? lone.write = some (number (.ofBits 0x4009524be4d1c6c3)) := by
  intro deep lone
  have hdeep : ¬deep.nesting ≤ maxNesting := by decide +kernel
  refine ⟨⟨by decide +kernel, by decide +kernel, ?_⟩, by decide +kernel, by decide +kernel⟩
  rw [read?_write_eq, if_neg hdeep]

end Expr

end Reckoner
