import Reckoner.Snippet

/-!
# Where the characters of a text begin

A character begins behind the ones in front of it, at as many bytes as they have.
`Text.charStarts` lists these places, and `Text.startsIn` counts the characters that begin in a
range of bytes.  The range may be any one: it may reach beyond the text, begin or end inside a
character, or be reversed.

`Text.column` cuts an offset down to the length of the text, walks along the text and stops at the
first character that does not begin in front of the offset.  Neither makes a difference: every
character begins before the end of the text, and none begins in front of an earlier one.  So a
column is the number of characters that begin in front of the offset (`column_eq_startsIn`), and
two columns differ by the characters that begin between their offsets (`column_sub_column`).
-/

namespace Reckoner.Text

/-- The places, in bytes, where the characters of a text begin. -/
def charStarts (text : Text) : List Nat :=
  (List.range text.length).map fun i => byteLength (text.take i)

/-- The number of characters that begin at the byte `first` or behind it, but before `stop`. -/
def startsIn (text : Text) (first stop : Nat) : Nat :=
  text.charStarts.countP fun start => decide (first ≤ start ∧ start < stop)

variable {text : Text} {first middle stop : Nat}

theorem charStarts_cons (c : Char) (text : Text) :
    charStarts (c :: text) = 0 :: (charStarts text).map (c.utf8Size + ·) := by
  simp [charStarts, List.range_succ_eq_map, Function.comp_def]

theorem lt_byteLength_of_mem_charStarts {start : Nat} (hstart : start ∈ charStarts text) :
    start < byteLength text := by
  induction text generalizing start with
  | nil => simp [charStarts] at hstart
  | cons c text ih =>
      have hsize := c.utf8Size_pos
      rw [charStarts_cons, List.mem_cons, List.mem_map] at hstart
      rw [byteLength_cons]
      obtain rfl | ⟨later, hlater, rfl⟩ := hstart
      · omega
      · have hlt := ih hlater
        omega

/-! ## Ranges -/

theorem startsIn_eq_zero_of_le (text : Text) (hstop : stop ≤ first) :
    startsIn text first stop = 0 := by
  rw [startsIn, List.countP_eq_zero]
  intro start _ hstart
  have hbetween := of_decide_eq_true hstart
  omega

theorem startsIn_eq_zero_of_byteLength_le (hfirst : byteLength text ≤ first) :
    startsIn text first stop = 0 := by
  rw [startsIn, List.countP_eq_zero]
  intro start hmem hstart
  have hlt := lt_byteLength_of_mem_charStarts hmem
  have hbetween := of_decide_eq_true hstart
  omega

/-- No character begins beyond the text. -/
theorem startsIn_min (text : Text) (first stop : Nat) :
    startsIn text first (min stop (byteLength text)) = startsIn text first stop := by
  apply List.countP_congr
  intro start hmem
  have hlt := lt_byteLength_of_mem_charStarts hmem
  simp only [decide_eq_true_eq]
  omega

theorem startsIn_byteLength (text : Text) : startsIn text 0 (byteLength text) = text.length := by
  have hall : startsIn text 0 (byteLength text) = (charStarts text).length := by
    rw [startsIn, List.countP_eq_length]
    intro start hmem
    exact decide_eq_true ⟨Nat.zero_le _, lt_byteLength_of_mem_charStarts hmem⟩
  rw [hall, charStarts, List.length_map, List.length_range]

theorem startsIn_add (text : Text) (hfirst : first ≤ middle) (hstop : middle ≤ stop) :
    startsIn text first middle + startsIn text middle stop = startsIn text first stop := by
  simp only [startsIn]
  rw [List.countP_eq_countP_filter_add _ (fun start => decide (first ≤ start ∧ start < stop))
    (fun start => decide (start < middle)), List.countP_filter, List.countP_filter]
  -- the characters before `middle`, and the others
  congr 1
  all_goals
    apply List.countP_congr
    intro start _
    simp only [Bool.and_eq_true, Bool.not_eq_true', decide_eq_true_eq, decide_eq_false_iff_not]
    omega

/-! ## Parts -/

theorem startsIn_cons (c : Char) (text : Text) (first stop : Nat) :
    startsIn (c :: text) first stop =
      startsIn text (first - c.utf8Size) (stop - c.utf8Size) +
        if first = 0 ∧ 0 < stop then 1 else 0 := by
  rw [startsIn, charStarts_cons, List.countP_cons, List.countP_map, startsIn]
  congr 1
  · apply List.countP_congr
    intro start _
    simp only [Function.comp_apply, decide_eq_true_eq]
    omega
  · simp

theorem startsIn_append (before after : Text) (first stop : Nat) :
    startsIn (before ++ after) first stop =
      startsIn before first stop +
        startsIn after (first - byteLength before) (stop - byteLength before) := by
  induction before generalizing first stop with
  | nil => exact (Nat.zero_add _).symm
  | cons c before ih =>
      rw [List.cons_append, startsIn_cons, startsIn_cons, ih, byteLength_cons, Nat.sub_sub,
        Nat.sub_sub]
      omega

/-- The characters that begin in the range of a part of a text are those of the part. -/
theorem startsIn_part (before text after : Text) :
    startsIn (before ++ (text ++ after)) (byteLength before) (byteLength (before ++ text)) =
      text.length := by
  calc startsIn (before ++ (text ++ after)) (byteLength before) (byteLength (before ++ text))
      = startsIn before (byteLength before) (byteLength (before ++ text)) +
          startsIn (text ++ after) 0 (byteLength text) := by
        rw [startsIn_append, Nat.sub_self, byteLength_append, Nat.add_sub_cancel_left]
    _ = startsIn (text ++ after) 0 (byteLength text) := by
        rw [startsIn_eq_zero_of_byteLength_le (Nat.le_refl _), Nat.zero_add]
    _ = startsIn text 0 (byteLength text) + startsIn after 0 0 := by
        rw [startsIn_append, Nat.zero_sub, Nat.sub_self]
    _ = text.length := by
        rw [startsIn_byteLength, startsIn_eq_zero_of_le after (Nat.le_refl 0), Nat.add_zero]

/-! ## Columns -/

/-- The walk may stop early: what begins behind a character that begins too late does so too. -/
theorem startsBefore_eq_startsIn (limit : Nat) (text : Text) (offset : Nat) :
    startsBefore limit offset text = startsIn text 0 (limit - offset) := by
  induction text generalizing offset with
  | nil => rfl
  | cons c text ih =>
      rw [startsBefore, startsIn_cons, Nat.zero_sub, Nat.sub_sub, ih]
      split
      · next hbefore => rw [if_pos ⟨rfl, Nat.sub_pos_of_lt hbefore⟩]
      · next hlate =>
          rw [startsIn_eq_zero_of_le text (by omega), if_neg (by omega)]

/-- A column counts the characters that begin in front of an offset, wherever that may be. -/
theorem column_eq_startsIn (text : Text) (offset : Nat) :
    column text offset = startsIn text 0 offset := by
  rw [column, startsBefore_eq_startsIn, Nat.sub_zero, startsIn_min]

/-- The difference of two columns, which ends at zero, counts the characters that begin between the
offsets: if these are reversed, then the second column is no larger than the first. -/
theorem column_sub_column (text : Text) (first stop : Nat) :
    column text stop - column text first = startsIn text first stop := by
  rw [column_eq_startsIn, column_eq_startsIn]
  rcases Nat.le_total first stop with horder | hreversed
  · have hadd := startsIn_add text (Nat.zero_le first) horder
    omega
  · have hadd := startsIn_add text (Nat.zero_le stop) hreversed
    have hnone := startsIn_eq_zero_of_le text hreversed
    omega

/-- The column behind a text that others follow. -/
theorem column_append (text later : Text) :
    column (text ++ later) (byteLength text) = text.length := by
  rw [column_eq_startsIn]
  exact startsIn_part [] text later

end Reckoner.Text
