import Mathlib.Tactic.SplitIfs
import Reckoner.Text.Basic

/-!
# The order of names

`Text.longerFirst` compares two texts by their lengths in bytes and then
character by character.  The bytes of the UTF-8 forms, compared one by one, give
the same order (`longerFirst_iff`): characters of one size differ at their first
different byte as their code points do, and a character of a larger size begins
with a larger byte.

It is a strict order in which any two different texts can be compared
(`longerFirst_trans`, `longerFirst_of_not`).
-/

namespace Reckoner.Text

/-- The bytes of a text in UTF-8. -/
def bytes (t : Text) : List UInt8 :=
  t.flatMap String.utf8EncodeChar

variable {s t u : Text}

theorem length_bytes (t : Text) : t.bytes.length = byteLength t := by
  induction t with
  | nil => rfl
  | cons c t ih =>
      rw [bytes, List.flatMap_cons, List.length_append, String.length_utf8EncodeChar,
        byteLength_cons]
      exact congrArg _ ih

/-! ## Code points and bytes -/

/-- The bytes of a character come before those of one with a larger code point,
whatever follows. -/
theorem lex_utf8EncodeChar_append {c d : Char} (hcode : c.toNat < d.toNat)
    (after later : List UInt8) :
    List.Lex (· < ·) (String.utf8EncodeChar c ++ after) (String.utf8EncodeChar d ++ later) := by
  have hbound : d.toNat < 0x110000 := by
    have hvalid := d.valid
    simp only [UInt32.isValidChar, Nat.isValidChar] at hvalid
    have hval : d.val.toNat = d.toNat := rfl
    omega
  have hcval : c.val.toNat = c.toNat := rfl
  have hdval : d.val.toNat = d.toNat := rfl
  simp only [String.utf8EncodeChar, hcval, hdval]
  generalize c.toNat = m at hcode ⊢
  generalize d.toNat = n at hcode hbound ⊢
  have hsquare (k : Nat) : k / 4096 = k / 64 / 64 := by omega
  have hcube (k : Nat) : k / 262144 = k / 64 / 64 / 64 := by omega
  -- one case for each pair of sizes; the bytes are digits in base 64 behind a mark of the size
  split_ifs <;>
    simp only [List.cons_append, List.nil_append, List.cons_lex_cons_iff, UInt8.lt_iff_toNat_lt,
      ← UInt8.toNat_inj, UInt8.toNat_ofNat', hsquare, hcube] <;>
    omega

theorem lex_bytes_of_less (hless : less s t = true) : List.Lex (· < ·) s.bytes t.bytes := by
  induction s generalizing t with
  | nil =>
      cases t with
      | nil => simp [less] at hless
      | cons d t =>
          obtain ⟨first, others, hencode⟩ :=
            List.exists_cons_of_ne_nil (String.utf8EncodeChar_ne_nil (c := d))
          simp only [bytes, List.flatMap_cons, hencode]
          exact .nil
  | cons c s ih =>
      cases t with
      | nil => simp [less] at hless
      | cons d t =>
          simp only [less, Bool.or_eq_true, decide_eq_true_eq, Bool.and_eq_true,
            beq_iff_eq] at hless
          simp only [bytes, List.flatMap_cons]
          rcases hless with hfirst | ⟨rfl, hothers⟩
          · exact lex_utf8EncodeChar_append hfirst _ _
          · exact List.append_left_lt (ih hothers)

/-! ## Code point order -/

/-- Of two different texts one is less than the other. -/
theorem less_of_not (hne : s ≠ t) (hnot : ¬ less s t = true) : less t s = true := by
  induction s generalizing t with
  | nil =>
      cases t with
      | nil => exact absurd rfl hne
      | cons d t => simp [less] at hnot
  | cons c s ih =>
      cases t with
      | nil => rfl
      | cons d t =>
          simp only [less, Bool.or_eq_true, decide_eq_true_eq, Bool.and_eq_true, beq_iff_eq, not_or,
            not_and, Nat.not_lt] at hnot ⊢
          rcases Nat.lt_or_eq_of_le hnot.1 with hlt | heq
          · exact .inl hlt
          · have hchar : d = c := Char.toNat_inj.mp heq
            subst hchar
            exact .inr ⟨rfl, ih (fun h => hne (h ▸ rfl)) (hnot.2 rfl)⟩

theorem less_irrefl : ¬ less s s = true :=
  fun hless => List.lex_irrefl UInt8.lt_irrefl _ (lex_bytes_of_less hless)

/-- **The order of code points is that of bytes.** -/
theorem less_iff : less s t = true ↔ List.Lex (· < ·) s.bytes t.bytes := by
  refine ⟨lex_bytes_of_less, fun hbytes => Decidable.byContradiction fun hnot => ?_⟩
  by_cases heq : s = t
  · exact List.lex_irrefl UInt8.lt_irrefl _ (heq ▸ hbytes)
  · have hback := lex_bytes_of_less (less_of_not heq hnot)
    exact List.lex_asymm (fun hlt => UInt8.lt_asymm hlt) hbytes hback

theorem less_trans (hst : less s t = true) (htu : less t u = true) : less s u = true := by
  rw [less_iff] at *
  exact List.lex_trans UInt8.lt_trans hst htu

/-! ## Longer names first -/

theorem longerFirst_iff_less :
    longerFirst s t = true ↔
      byteLength t < byteLength s ∨ byteLength s = byteLength t ∧ less s t = true := by
  simp [longerFirst]

theorem byteLength_le_of_longerFirst (hlonger : longerFirst s t = true) :
    byteLength t ≤ byteLength s := by
  rcases longerFirst_iff_less.mp hlonger with hlt | ⟨heq, _⟩
  · exact Nat.le_of_lt hlt
  · exact Nat.le_of_eq heq.symm

/-- **The order of names in bytes**: more bytes first, and of as many bytes the
one whose bytes come first. -/
theorem longerFirst_iff :
    longerFirst s t = true ↔
      t.bytes.length < s.bytes.length ∨
        s.bytes.length = t.bytes.length ∧ List.Lex (· < ·) s.bytes t.bytes := by
  rw [longerFirst_iff_less, less_iff, length_bytes, length_bytes]

theorem longerFirst_trans (hst : longerFirst s t = true) (htu : longerFirst t u = true) :
    longerFirst s u = true := by
  rw [longerFirst_iff_less] at *
  rcases hst with hst | ⟨hst, hless⟩ <;> rcases htu with htu | ⟨htu, hless'⟩
  · exact .inl (by omega)
  · exact .inl (by omega)
  · exact .inl (by omega)
  · exact .inr ⟨by omega, less_trans hless hless'⟩

theorem longerFirst_irrefl : ¬ longerFirst s s = true := by
  rw [longerFirst_iff_less]
  rintro (hlt | ⟨_, hless⟩)
  · exact Nat.lt_irrefl _ hlt
  · exact less_irrefl hless

theorem not_longerFirst_of (hlonger : longerFirst s t = true) : ¬ longerFirst t s = true :=
  fun hback => longerFirst_irrefl (longerFirst_trans hlonger hback)

/-- Of two different texts one is tried before the other. -/
theorem longerFirst_of_not (hne : s ≠ t) (hnot : ¬ longerFirst s t = true) :
    longerFirst t s = true := by
  rw [longerFirst_iff_less] at *
  simp only [not_or, not_and, Nat.not_lt] at hnot
  rcases Nat.lt_or_eq_of_le hnot.1 with hlt | heq
  · exact .inl hlt
  · exact .inr ⟨heq.symm, less_of_not hne (hnot.2 heq)⟩

theorem not_longerFirst_trans (hts : ¬ longerFirst t s = true) (hut : ¬ longerFirst u t = true) :
    ¬ longerFirst u s = true := by
  intro hus
  by_cases heq : t = s
  · exact hut (heq ▸ hus)
  · exact hut (longerFirst_trans hus (longerFirst_of_not heq hts))

end Reckoner.Text
