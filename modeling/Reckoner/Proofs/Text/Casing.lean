import Mathlib.Data.List.Chain
import Reckoner.Proofs.Text.Lowering
import Reckoner.Text.Alphabetic

/-!
# What lowering changes

Names are compared in lower case, but the lexer reads them as they are written: a word as a
run of letters, and a symbol character by character.  Between the two stand two facts about
characters, which are read off the tables.

* A character that lowering changes is a letter.  So what becomes a word in lower case is a
  word (`isLetter_of_lower`).
* What lowering changes a character to holds a lower case letter.  So what becomes a symbol
  without cased letters in lower case is that symbol already (`lower_eq_self`).

Both are facts about the runs of `loweringTable`: a run begins and ends in one range of
cased characters, and so does its image.  Where the codes of a run are spread over several
ranges, they are looked at one by one.  That cased characters are letters is found by going
through both tables once (`CodeTable.includes`).
-/

namespace Reckoner

/-! ## Tables that ascend -/

namespace CodeTable

variable {table part : CodeTable} {low high code : Nat}

/-- The ranges of a table stand in the order of their first codes. -/
def Ascends (table : CodeTable) : Prop :=
  table.Pairwise fun range range' => range.1 ≤ range'.1

theorem ascends_of_isChain
    (hchain : List.IsChain (fun range range' : Nat × Nat => range.1 ≤ range'.1) table) :
    table.Ascends := by
  have htrans : IsTrans (Nat × Nat) fun range range' => range.1 ≤ range'.1 :=
    ⟨fun _ _ _ => Nat.le_trans⟩
  exact List.isChain_iff_pairwise.mp hchain

/-- The search does not end before the range of a code. -/
theorem contains_of_mem (hascends : table.Ascends) {range : Nat × Nat} (hmem : range ∈ table)
    (hlow : range.1 ≤ code) (hhigh : code ≤ range.2) : table.contains code = true := by
  induction table with
  | nil => simp at hmem
  | cons first later ih =>
      obtain ⟨hfirst, hlater⟩ := List.pairwise_cons.mp hascends
      obtain ⟨low, high⟩ := first
      rw [contains]
      rcases List.mem_cons.mp hmem with rfl | hmem
      · rw [if_neg (by omega), if_pos hhigh]
      · have hbegins := hfirst range hmem
        rw [if_neg (by simp only at hbegins; omega)]
        split
        · rfl
        · exact ih hlater hmem

/-- Whether the codes from `low` to `high` lie in one range. -/
def covers (table : CodeTable) (low high : Nat) : Bool :=
  table.any fun range => Nat.ble range.1 low && Nat.ble high range.2

/-- Whether no range has a code from `low` to `high`. -/
def avoids (table : CodeTable) (low high : Nat) : Bool :=
  table.all fun range => Nat.blt high range.1 || Nat.blt range.2 low

/-- Whether each range of a table lies in one of another, where both ascend. -/
def includes : (table part : CodeTable) → Bool
  | [], part => part.isEmpty
  | (first, last) :: later, part =>
    includes later (part.dropWhile fun range => Nat.ble first range.1 && Nat.ble range.2 last)

theorem contains_of_covers (hascends : table.Ascends) (hcovers : table.covers low high = true)
    (hlow : low ≤ code) (hhigh : code ≤ high) : table.contains code = true := by
  obtain ⟨range, hmem, hrange⟩ := List.any_eq_true.mp hcovers
  simp only [Bool.and_eq_true, Nat.ble_eq] at hrange
  exact contains_of_mem hascends hmem (by omega) (by omega)

theorem contains_of_avoids (havoids : table.avoids low high = true) (hlow : low ≤ code)
    (hhigh : code ≤ high) : table.contains code = false := by
  rw [Bool.eq_false_iff]
  intro hcontains
  obtain ⟨range, hmem, hfirst, hlast⟩ := exists_of_contains hcontains
  have hapart := List.all_eq_true.mp havoids range hmem
  simp only [Bool.or_eq_true, Nat.blt_eq] at hapart
  omega

theorem exists_of_includes (hincludes : table.includes part = true) {range : Nat × Nat}
    (hmem : range ∈ part) : ∃ wider ∈ table, wider.1 ≤ range.1 ∧ range.2 ≤ wider.2 := by
  induction table generalizing part with
  | nil =>
      rw [includes, List.isEmpty_iff] at hincludes
      simp [hincludes] at hmem
  | cons first later ih =>
      let inside (range : Nat × Nat) : Bool := Nat.ble first.1 range.1 && Nat.ble range.2 first.2
      have hlater : CodeTable.includes later (part.dropWhile inside) = true := hincludes
      rw [← List.takeWhile_append_dropWhile (p := inside) (l := part)] at hmem
      rcases List.mem_append.mp hmem with hinside | hbehind
      · have hrange := List.all_eq_true.mp List.all_takeWhile range hinside
        simp only [inside, Bool.and_eq_true, Nat.ble_eq] at hrange
        exact ⟨first, List.mem_cons_self, hrange⟩
      · obtain ⟨wider, hwider, hrange⟩ := ih hlater hbehind
        exact ⟨wider, List.mem_cons_of_mem _ hwider, hrange⟩

end CodeTable

/-- What is read off the tables of letters and of cased characters: the ranges of both ascend, and
cased characters are letters. -/
theorem alphabeticTable_casedTable :
    List.IsChain (fun range range' : Nat × Nat => range.1 ≤ range'.1) alphabeticTable ∧
      List.IsChain (fun range range' : Nat × Nat => range.1 ≤ range'.1) casedTable ∧
        alphabeticTable.includes casedTable = true := by
  decide +kernel

theorem ascends_casedTable : casedTable.Ascends :=
  CodeTable.ascends_of_isChain alphabeticTable_casedTable.2.1

theorem contains_alphabeticTable {code : Nat} (hcased : casedTable.contains code = true) :
    alphabeticTable.contains code = true := by
  obtain ⟨range, hmem, hlow, hhigh⟩ := CodeTable.exists_of_contains hcased
  obtain ⟨hchain, -, hincludes⟩ := alphabeticTable_casedTable
  obtain ⟨wider, hwider, hfirst, hlast⟩ := CodeTable.exists_of_includes hincludes hmem
  have hascends := CodeTable.ascends_of_isChain hchain
  exact CodeTable.contains_of_mem hascends hwider (by omega) (by omega)

/-! ## Runs -/

variable {before t : Text} {c : Char} {code : Nat}

/-- Whether the codes of a run are cased, all in one range or one by one. -/
def hasCasedDomain (run : Run) : Bool :=
  let (first, last, step, _) := run
  casedTable.covers first last ||
    (List.range ((last - first) / step + 1)).all fun steps =>
      casedTable.covers (first + steps * step) (first + steps * step)

/-- Whether the codes of the image of a run are lower or upper case. -/
def hasCasedImage (run : Run) : Bool :=
  let (first, last, _, image) := run
  casedTable.covers image (image + (last - first)) &&
    titlecaseTable.avoids image (image + (last - first))

theorem all_hasCased_loweringTable :
    (loweringTable.all fun run => hasCasedDomain run && hasCasedImage run) = true := by
  decide +kernel

/-- A code in a run is cased. -/
theorem contains_of_hasCasedDomain {first last step image : Nat}
    (hdomain : hasCasedDomain (first, last, step, image) = true) (hfirst : first ≤ code)
    (hlast : code ≤ last) (hstep : (code - first) % step = 0) :
    casedTable.contains code = true := by
  rw [hasCasedDomain, Bool.or_eq_true] at hdomain
  rcases hdomain with hcovers | hall
  · exact CodeTable.contains_of_covers ascends_casedTable hcovers hfirst hlast
  · -- the code is a number of steps behind the first one
    have hcode : first + (code - first) / step * step = code := by
      have hdivision := Nat.div_mul_cancel (Nat.dvd_of_mod_eq_zero hstep)
      omega
    have hcount : (code - first) / step < (last - first) / step + 1 :=
      Nat.lt_succ_of_le (Nat.div_le_div_right (by omega))
    have hcovers := List.all_eq_true.mp hall _ (List.mem_range.mpr hcount)
    rw [hcode] at hcovers
    exact CodeTable.contains_of_covers ascends_casedTable hcovers (Nat.le_refl _) (Nat.le_refl _)

/-! ## Characters -/

/-- **What lowering changes.**  A letter, and it becomes one in lower case. -/
theorem lowerChar_eq_or (c : Char) :
    lowerChar c = [c] ∨ isLetter c = true ∧ ∃ d ∈ lowerChar c, isLowerOrUpper d = true := by
  by_cases hdotted : c = 'İ'
  · subst hdotted
    exact .inr ⟨by decide, 'i', by decide, by decide⟩
  have hcode : c.toNat ≠ 0x130 := fun h => hdotted (by rw [← Char.ofNat_toNat c, h])
  obtain ⟨hvalid, _, _⟩ := @loweredCode_final c.toNat c.valid hcode
  rw [lowerChar, if_neg hdotted]
  rcases @loweredCode_cases loweringTable c.toNat with
    hkept | ⟨first, last, step, image, hmem, hfirst, hlast, hstep, himage⟩
  · rw [hkept, Char.ofNat_toNat]
    exact .inl rfl
  · have hcased := List.all_eq_true.mp all_hasCased_loweringTable _ hmem
    obtain ⟨hdomain, himageCased⟩ := (Bool.and_eq_true _ _).mp hcased
    have hletter := contains_alphabeticTable (contains_of_hasCasedDomain hdomain hfirst hlast hstep)
    simp only [hasCasedImage, Bool.and_eq_true] at himageCased
    rw [himage] at hvalid ⊢
    refine .inr ⟨hletter, _, List.mem_singleton_self _, ?_⟩
    rw [isLowerOrUpper, isCased, toNat_ofNat_of_isValidChar hvalid,
      CodeTable.contains_of_covers ascends_casedTable himageCased.1 (by omega) (by omega),
      CodeTable.contains_of_avoids himageCased.2 (by omega) (by omega)]
    rfl

theorem isLowerOrUpper_lowerSigma {after : Text} :
    isLowerOrUpper (lowerSigma before after) = true := by
  unfold lowerSigma
  split <;> decide

/-! ## Texts -/

theorem isLetter_of_lowerAfter (hletters : ∀ d ∈ lowerAfter before t, isLetter d = true) :
    ∀ c ∈ t, isLetter c = true := by
  induction t generalizing before with
  | nil => simp
  | cons first rest ih =>
      rw [lowerAfter, List.forall_mem_append] at hletters
      obtain ⟨hfirst, hrest⟩ := hletters
      refine List.forall_mem_cons.mpr ⟨?_, ih hrest⟩
      split at hfirst
      · next hsigma =>
          subst hsigma
          decide
      · rcases lowerChar_eq_or first with hkept | ⟨hletter, _⟩
        · exact hfirst first (by rw [hkept]; exact List.mem_singleton_self _)
        · exact hletter

/-- **What is a word in lower case is a word.** -/
theorem isLetter_of_lower (hletters : ∀ d ∈ lower t, isLetter d = true) :
    ∀ c ∈ t, isLetter c = true :=
  isLetter_of_lowerAfter hletters

theorem lowerAfter_eq_self (hcaseless : ∀ d ∈ lowerAfter before t, isLowerOrUpper d = false) :
    lowerAfter before t = t := by
  induction t generalizing before with
  | nil => rfl
  | cons first rest ih =>
      rw [lowerAfter, List.forall_mem_append] at hcaseless
      obtain ⟨hfirst, hrest⟩ := hcaseless
      rw [lowerAfter, ih hrest]
      split at hfirst
      · have hcased := hfirst _ (List.mem_singleton_self _)
        rw [isLowerOrUpper_lowerSigma] at hcased
        cases hcased
      · next hsigma =>
          rw [if_neg hsigma]
          rcases lowerChar_eq_or first with hkept | ⟨_, d, hmem, hcased⟩
          · rw [hkept, List.singleton_append]
          · rw [hfirst d hmem] at hcased
            cases hcased

/-- **What has no cased letter in lower case is in lower case.** -/
theorem lower_eq_self (hcaseless : ∀ d ∈ lower t, isLowerOrUpper d = false) : lower t = t :=
  lowerAfter_eq_self hcaseless

end Reckoner
