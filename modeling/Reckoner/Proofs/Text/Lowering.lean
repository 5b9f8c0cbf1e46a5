import Reckoner.Text.Lowering

/-!
# Lower case is final

A text in lower case is left as it is by lowering it again (`lower_lower`).

What a character becomes is settled by the table of runs: no image of a run lies
in the domain of any run.  `clearOf` compares the image of one run with all
domains at once, by their ends, and where ends do not decide by the parity of
two alternating runs; so the table is walked once for each run and not once for
each character.  The capital sigma, whose lower case depends on its place, has
no place in a text in lower case.
-/

namespace Reckoner

/-- A run of the table, as `(first, last, step, image)`. -/
abbrev Run := Nat × Nat × Nat × Nat

variable {runs : List Run} {code low high step : Nat} {c d : Char} {before t : Text}

/-! ## Runs -/

/-- A code is kept, or moved with the run that it is in. -/
theorem loweredCode_cases :
    loweredCode runs code = code ∨
      ∃ first last step image, (first, last, step, image) ∈ runs ∧ first ≤ code ∧ code ≤ last ∧
        (code - first) % step = 0 ∧ loweredCode runs code = image + (code - first) := by
  induction runs with
  | nil => exact .inl rfl
  | cons run later ih =>
      obtain ⟨first, last, step, image⟩ := run
      rw [loweredCode]
      by_cases hbefore : code < first
      · exact .inl (if_pos hbefore)
      rw [if_neg hbefore]
      by_cases hin : (code ≤ last && (code - first) % step == 0) = true
      · simp only [Bool.and_eq_true, decide_eq_true_eq, beq_iff_eq] at hin
        exact .inr ⟨first, last, step, image, List.mem_cons_self, by omega, hin.1, hin.2,
          by simp [hin]⟩
      · rw [if_neg hin]
        rcases ih with hkept | ⟨first', last', step', image', hmem, hrun⟩
        · exact .inl hkept
        · exact .inr ⟨first', last', step', image', List.mem_cons_of_mem _ hmem, hrun⟩

/-- Whether the codes from `low` to `high` in steps are in no run: they end
before it begins, they begin behind its end, or both go in steps of an even
length and begin at codes of different parity. -/
def clearOf (low high step : Nat) : List Run → Bool
  | [] => true
  | (first, last, step', _) :: later =>
    Nat.blt high first ||
      ((Nat.blt last low ||
          ((low == high || step % 2 == 0) && step' % 2 == 0 && (low + first) % 2 == 1)) &&
        clearOf low high step later)

theorem loweredCode_of_clearOf (hclear : clearOf low high step runs = true) (hlow : low ≤ code)
    (hhigh : code ≤ high) (hstep : (code - low) % step = 0) : loweredCode runs code = code := by
  induction runs with
  | nil => rfl
  | cons run later ih =>
      obtain ⟨first, last, step', image⟩ := run
      rw [clearOf, Bool.or_eq_true, Bool.and_eq_true, Nat.blt_eq] at hclear
      rw [loweredCode]
      by_cases hbefore : code < first
      · exact if_pos hbefore
      rw [if_neg hbefore]
      obtain ⟨hapart, hlater⟩ : _ ∧ _ := hclear.resolve_left (by omega)
      have hout : ¬ (code ≤ last && (code - first) % step' == 0) = true := by
        simp only [Bool.or_eq_true, Bool.and_eq_true, Nat.blt_eq, beq_iff_eq, decide_eq_true_eq]
          at hapart ⊢
        rintro ⟨hlast, hin⟩
        rcases hapart with hbehind | ⟨⟨heven, heven'⟩, hparity⟩
        · omega
        · have hfirst : (code - first) % 2 = 0 :=
            Nat.mod_eq_zero_of_dvd
              (Nat.dvd_trans (Nat.dvd_of_mod_eq_zero heven') (Nat.dvd_of_mod_eq_zero hin))
          have hlow' : (code - low) % 2 = 0 := by
            rcases heven with rfl | heven
            · omega
            · exact Nat.mod_eq_zero_of_dvd
                (Nat.dvd_trans (Nat.dvd_of_mod_eq_zero heven) (Nat.dvd_of_mod_eq_zero hstep))
          omega
      rw [if_neg hout, ih hlater]

/-- Whether the image of a run is in no run, is made of valid codes, and leaves
out the capital I with a dot, which is in no run either. -/
def isFinal (run : Run) : Bool :=
  let (first, last, step, image) := run
  let high := image + (last - first)
  clearOf image high step loweringTable &&
    (Nat.blt high 0x130 || Nat.blt 0x130 image) &&
    (Nat.blt high 0xD800 || (Nat.blt 0xDFFF image && Nat.blt high 0x110000))

theorem all_isFinal_loweringTable : loweringTable.all isFinal = true := by
  decide +kernel

/-- The image of a valid code is valid and stands for itself. -/
theorem loweredCode_final (hvalid : code.isValidChar) (hdotted : code ≠ 0x130) :
    (loweredCode loweringTable code).isValidChar ∧ loweredCode loweringTable code ≠ 0x130 ∧
      loweredCode loweringTable (loweredCode loweringTable code) =
        loweredCode loweringTable code := by
  rcases @loweredCode_cases loweringTable code with
    hkept | ⟨first, last, step, image, hmem, hfirst, hlast, hstep, himage⟩
  · rw [hkept]
    exact ⟨hvalid, hdotted, hkept⟩
  · have hfinal := List.all_eq_true.mp all_isFinal_loweringTable _ hmem
    simp only [isFinal, Bool.and_eq_true, Bool.or_eq_true, Nat.blt_eq] at hfinal
    obtain ⟨⟨hclear, hdot⟩, hrange⟩ := hfinal
    rw [himage]
    refine ⟨?_, by omega, ?_⟩
    · simp only [Nat.isValidChar]
      omega
    · exact loweredCode_of_clearOf hclear (by omega) (by omega) (by simpa using hstep)

/-! ## Characters -/

/-- A character that lowering leaves as it is, wherever it stands. -/
def IsLowered (c : Char) : Prop :=
  c ≠ 'Σ' ∧ lowerChar c = [c]

theorem toNat_ofNat_of_isValidChar (hvalid : code.isValidChar) : (Char.ofNat code).toNat = code := by
  rw [Char.ofNat, dif_pos hvalid]
  rfl

theorem isLowered_of_mem_lowerChar (hmem : d ∈ lowerChar c) : IsLowered d := by
  unfold lowerChar at hmem
  split at hmem
  · simp only [List.mem_cons, List.not_mem_nil, or_false] at hmem
    rcases hmem with rfl | rfl
    · exact ⟨by decide, by decide +kernel⟩
    · exact ⟨by decide, by decide +kernel⟩
  · next hdotted =>
      have hcode : c.toNat ≠ 0x130 := fun h => hdotted (by rw [← Char.ofNat_toNat c, h])
      obtain ⟨hvalid, hundotted, hfixed⟩ := @loweredCode_final c.toNat c.valid hcode
      rw [List.mem_singleton.mp hmem]
      generalize loweredCode loweringTable c.toNat = image at hvalid hundotted hfixed
      have himage := toNat_ofNat_of_isValidChar hvalid
      constructor
      · -- the capital sigma has an image
        intro hsigma
        rw [← himage, hsigma] at hfixed
        exact absurd hfixed (by decide +kernel)
      · have hplain : Char.ofNat image ≠ 'İ' := fun h => hundotted (by rw [← himage, h]; rfl)
        rw [lowerChar, if_neg hplain, himage, hfixed]

theorem isLowered_lowerSigma {after : Text} : IsLowered (lowerSigma before after) := by
  unfold lowerSigma
  split
  · exact ⟨by decide, by decide⟩
  · exact ⟨by decide, by decide⟩

/-! ## Texts -/

theorem isLowered_of_mem_lowerAfter (hmem : c ∈ lowerAfter before t) : IsLowered c := by
  induction t generalizing before with
  | nil => simp [lowerAfter] at hmem
  | cons first rest ih =>
      rw [lowerAfter, List.mem_append] at hmem
      rcases hmem with hfirst | hrest
      · split at hfirst
        · rw [List.mem_singleton.mp hfirst]
          exact isLowered_lowerSigma
        · exact isLowered_of_mem_lowerChar hfirst
      · exact ih hrest

theorem lowerAfter_of_isLowered (hlowered : ∀ c ∈ t, IsLowered c) : lowerAfter before t = t := by
  induction t generalizing before with
  | nil => rfl
  | cons first rest ih =>
      obtain ⟨⟨hsigma, hfirst⟩, hrest⟩ := List.forall_mem_cons.mp hlowered
      rw [lowerAfter, if_neg hsigma, hfirst, ih hrest, List.singleton_append]

/-- **Lower case is final.** -/
theorem lower_lower (t : Text) : lower (lower t) = lower t :=
  lowerAfter_of_isLowered fun _ hmem => isLowered_of_mem_lowerAfter hmem

end Reckoner
