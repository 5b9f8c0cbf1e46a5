import Reckoner.Expr.Equality
import Reckoner.Proofs.Lexer.Insertion
import Reckoner.Proofs.Parser.Simulation

/-!
# Blanks between lexemes do not matter

If blanks are inserted in front of a lexeme or at the end of a text, then the lexer gives the
same tokens, and the parser the same tree or an error of the same kind
(`Registry.insert_blanks`).

Only spans differ.  That of a lexeme stays or is moved as a whole.  The parser also merges
spans, and one that begins in front of the blanks and ends behind them becomes longer; so the
two ends of a span are moved apart from each other (`Span.Moves`).  The parser makes no use of
spans but in errors, so on texts whose lexemes have such spans it goes in step with itself.
What it is fed from is a stream, which on a text without errors is the list of the lexemes
and the end of input (`LexemeStream.ofText_eq_iff`).
-/

namespace Reckoner

/-! ## Spans -/

/-- What can become of a span if `count` bytes are inserted at a point.  A span that ends at
the point may stay, as that of a lexeme in front of the bytes, or reach over them, as one that
includes the end of input. -/
structure Span.Moves (point count : Nat) (span span' : Span) : Prop where
  start : span.start < point ∧ span'.start = span.start ∨
    point ≤ span.start ∧ span'.start = span.start + count
  stop : span.stop ≤ point ∧ span'.stop = span.stop ∨
    point ≤ span.stop ∧ span'.stop = span.stop + count

namespace Span

variable {point count : Nat} {a a' b b' : Span}

theorem Moves.merge (ha : a.Moves point count a') (hb : b.Moves point count b') :
    (a.merge b).Moves point count (a'.merge b') := by
  obtain ⟨hstart, hstop⟩ := ha
  obtain ⟨hstart', hstop'⟩ := hb
  constructor
  · show min a.start b.start < point ∧ min a'.start b'.start = min a.start b.start ∨
      point ≤ min a.start b.start ∧ min a'.start b'.start = min a.start b.start + count
    omega
  · show max a.stop b.stop ≤ point ∧ max a'.stop b'.stop = max a.stop b.stop ∨
      point ≤ max a.stop b.stop ∧ max a'.stop b'.stop = max a.stop b.stop + count
    omega

/-- A span on one side of the point stays or is moved as a whole. -/
theorem moves_moved (hle : a.start ≤ a.stop) (hapart : a.stop ≤ point ∨ point ≤ a.start) :
    a.Moves point count (a.moved point count) := by
  unfold moved
  split
  · next hbehind => exact ⟨.inr ⟨hbehind, rfl⟩, .inr ⟨by omega, rfl⟩⟩
  · next hbefore => exact ⟨.inl ⟨by omega, rfl⟩, .inl ⟨by omega, rfl⟩⟩

end Span

/-- A registry answers as it does itself, whatever spans are alike. -/
theorem Registry.Likens.refl {spans : Span → Span → Prop}
    (hmerge : ∀ {a a' b b' : Span}, spans a a' → spans b b' → spans (a.merge b) (a'.merge b'))
    (registry : Registry) : registry.Likens Eq spans Eq registry where
  merge := hmerge
  zero := rfl
  binary := by
    rintro name _ rfl
    cases registry.findBinary? name with
    | none => exact .none
    | some operator => exact .some ⟨rfl, fun minimum _ hminimum => hminimum ▸ Iff.rfl⟩
  prefixed := by
    rintro name _ rfl
    cases registry.findUnary? .prefixed name with
    | none => exact .none
    | some operator => exact .some rfl
  postfixed := by
    rintro name _ rfl
    rfl
  function := by
    rintro name _ rfl
    cases registry.findFunction? name with
    | none => exact .none
    | some f => exact .some rfl

/-! ## Streams -/

namespace LexemeStream

variable {registry : Registry} {source : Text} {lexemes : List Lexeme} {spans : Span → Span → Prop}

/-- Unfolded far enough, a stream is the run of the lexer. -/
theorem unfold_of_lexes (hreach : registry.Reachable) {cursor : Cursor}
    (hlexes : Cursor.Lexes registry cursor lexemes) {steps : Nat}
    (hsteps : cursor.rest.length < steps) :
    unfold registry steps cursor = lexemes.foldr lexeme
      (ended ⟨cursor.offset + cursor.rest.byteLength, cursor.offset + cursor.rest.byteLength⟩) := by
  induction hlexes generalizing steps with
  | @ended cursor after span hnext =>
      obtain ⟨steps, rfl⟩ :=
        Nat.exists_eq_add_one_of_ne_zero (Nat.ne_of_gt (Nat.zero_lt_of_lt hsteps))
      obtain ⟨hblanks, rfl, _⟩ := Cursor.next_eq_ended_iff.mp hnext
      have htake : cursor.rest.takeWhile isBlank = cursor.rest :=
        List.takeWhile_eq_self_iff.mpr hblanks
      rw [unfold_of_next_ended hnext]
      simp [Cursor.spanOf, Cursor.skipBlanks, Cursor.advance, htake]
  | @lexeme cursor after first later hnext hmore _ ih =>
      obtain ⟨steps, rfl⟩ :=
        Nat.exists_eq_add_one_of_ne_zero (Nat.ne_of_gt (Nat.zero_lt_of_lt hsteps))
      have hshorter := Cursor.length_rest_lt_of_next hreach hnext hmore
      obtain ⟨_, _, _, hend⟩ := Cursor.offsets_of_next hreach hnext hmore
      rw [unfold_of_next_lexeme hnext hmore, ih (by omega), hend]
      rfl

/-- A stream of lexemes only comes from a run of the lexer. -/
theorem lexes_of_unfold (hreach : registry.Reachable) {cursor : Cursor} {steps : Nat} {span : Span}
    (hunfold : unfold registry steps cursor = lexemes.foldr lexeme (ended span))
    (hsteps : cursor.rest.length < steps) : Cursor.Lexes registry cursor lexemes := by
  induction steps generalizing cursor lexemes with
  | zero => exact absurd hsteps (Nat.not_lt_zero _)
  | succ steps ih =>
      rcases hnext : cursor.next registry with ⟨error | first, after⟩
      · cases error <;> cases lexemes <;> simp [unfold, hnext] at hunfold
      by_cases hmore : first.token = .endOfInput
      · obtain ⟨token, place⟩ := first
        obtain rfl : token = .endOfInput := hmore
        rw [unfold_of_next_ended hnext] at hunfold
        cases lexemes with
        | nil => exact .ended hnext
        | cons other later => cases hunfold
      · rw [unfold_of_next_lexeme hnext hmore] at hunfold
        cases lexemes with
        | nil => cases hunfold
        | cons other later =>
            obtain ⟨rfl, hlater⟩ := LexemeStream.lexeme.inj hunfold
            have hshorter := Cursor.length_rest_lt_of_next hreach hnext hmore
            exact .lexeme hnext hmore (ih hlater (by omega))

/-- **The stream of a text that is split without errors.** -/
theorem ofText_eq_iff (hreach : registry.Reachable) :
    ofText registry source =
        lexemes.foldr lexeme (ended ⟨source.byteLength, source.byteLength⟩) ↔
      registry.Tokenizes source lexemes := by
  constructor
  · intro hstream
    exact lexes_of_unfold hreach hstream (Nat.lt_succ_self _)
  · intro hlexes
    have hunfold := unfold_of_lexes hreach hlexes (Nat.lt_succ_self _)
    rwa [Cursor.start, Nat.zero_add] at hunfold

/-- Texts whose lexemes are alike one by one have streams that are alike. -/
theorem alike_of_forall₂ {names : Text → Text → Prop} {lexemes' : List Lexeme} {span span' : Span}
    (hlexemes : List.Forall₂ (Lexeme.Alike names spans) lexemes lexemes')
    (hspan : spans span span') :
    (lexemes.foldr lexeme (ended span)).Alike names spans
      (lexemes'.foldr lexeme (ended span')) := by
  induction hlexemes with
  | nil => exact .ended hspan
  | cons hfirst _ ih => exact .lexeme hfirst ih

theorem alike_foldr {moved : Lexeme → Lexeme} {span span' : Span}
    (hlexemes : ∀ lexeme ∈ lexemes, lexeme.Alike Eq spans (moved lexeme))
    (hspan : spans span span') :
    (lexemes.foldr lexeme (ended span)).Alike Eq spans
      ((lexemes.map moved).foldr lexeme (ended span')) := by
  refine alike_of_forall₂ ?_ hspan
  exact List.forall₂_map_right_iff.mpr (List.forall₂_same.mpr hlexemes)

end LexemeStream

/-! ## Texts -/

namespace Registry

variable {registry : Registry} {source blanks : Text} {lexemes : List Lexeme} {point : Nat}

/-- A lexeme is on one side of a place where blanks can be inserted. -/
theorem moves_of_mem (hreach : registry.Reachable) (hsource : registry.Tokenizes source lexemes)
    (hpoint : point = source.byteLength ∨ ∃ lexeme ∈ lexemes, lexeme.span.start = point)
    {lexeme : Lexeme} (hmem : lexeme ∈ lexemes) (count : Nat) :
    lexeme.span.Moves point count (lexeme.span.moved point count) := by
  obtain ⟨hsome, hstop⟩ := span_of_mem hreach hsource hmem
  refine Span.moves_moved (Nat.le_of_lt hsome) ?_
  rcases hpoint with rfl | ⟨other, hother, rfl⟩
  · exact .inl hstop
  · exact hsource.apart hreach hmem hother

theorem point_le (hreach : registry.Reachable) (hsource : registry.Tokenizes source lexemes)
    (hpoint : point = source.byteLength ∨ ∃ lexeme ∈ lexemes, lexeme.span.start = point) :
    point ≤ source.byteLength := by
  rcases hpoint with rfl | ⟨lexeme, hmem, rfl⟩
  · exact Nat.le_refl _
  · obtain ⟨hsome, hstop⟩ := span_of_mem hreach hsource hmem
    exact Nat.le_trans (Nat.le_of_lt hsome) hstop

/-- **Blanks between lexemes do not matter.**  If blanks are inserted in front of a lexeme or
at the end of a text that is split without errors, then so is the new text.  Every request is
answered as before, but for the spans behind the blanks, which are moved.  Under every limit
the parser gives the same tree, or an error of the same kind. -/
theorem insert_blanks (hreach : registry.Reachable) (hsource : registry.Tokenizes source lexemes)
    (hblanks : ∀ b ∈ blanks, isBlank b = true)
    (hpoint : point = source.byteLength ∨ ∃ lexeme ∈ lexemes, lexeme.span.start = point) :
    registry.Tokenizes (source.insert point blanks)
        (lexemes.map (·.moved point blanks.byteLength)) ∧
      (∀ request, registry.answer (source.insert point blanks) request =
        (registry.answer source request).map (·.moved point blanks.byteLength)) ∧
      ∀ limit, ResultAlike (ParseError.Alike Eq (Span.Moves point blanks.byteLength) source
          (source.insert point blanks)) Eq
        (registry.parse limit source) (registry.parse limit (source.insert point blanks)) := by
  have hinsert := tokenizes_insert hreach hsource hblanks hpoint
  have hle := point_le hreach hsource hpoint
  refine ⟨hinsert, ?_, ?_⟩
  · intro request
    have hbefore := @answer_eq_of_lexes _ source lexemes 0 hsource request
    have hafter := @answer_eq_of_lexes _ (source.insert point blanks) _ 0 hinsert request
    rw [Nat.zero_add] at hbefore hafter
    rw [hbefore, hafter, Text.byteLength_insert]
    cases hlexeme : lexemes[request]? with
    | none => simp [hlexeme, Except.map, Lexeme.moved, Span.moved, hle]
    | some lexeme => simp [hlexeme, Except.map]
  · intro limit
    have hstream : (LexemeStream.ofText registry source).Alike Eq
        (Span.Moves point blanks.byteLength)
        (LexemeStream.ofText registry (source.insert point blanks)) := by
      rw [(LexemeStream.ofText_eq_iff hreach).mpr hsource,
        (LexemeStream.ofText_eq_iff hreach).mpr hinsert, Text.byteLength_insert]
      apply LexemeStream.alike_foldr
      · intro lexeme hmem
        exact ⟨.refl (fun _ => rfl) _, moves_of_mem hreach hsource hpoint hmem _⟩
      · exact ⟨.inr ⟨hle, rfl⟩, .inr ⟨hle, rfl⟩⟩
    have hresults := parse_alike (.refl Span.Moves.merge registry) hstream limit
    generalize registry.parse limit source = result,
      registry.parse limit (source.insert point blanks) = result' at hresults
    cases hresults with
    | ok htree => exact .ok htree.eq
    | error herror => exact .error herror

/-- Blanks in front of a comma that could separate groups of digits. -/
theorem insert_blanks_comma :
    standard.Tokenizes "max(1,2345)".toList
        [⟨.function "max".toList, ⟨0, 3⟩⟩, ⟨.leftParen, ⟨3, 4⟩⟩, ⟨.number (.ofInt 1), ⟨4, 5⟩⟩,
          ⟨.comma, ⟨5, 6⟩⟩, ⟨.number (.ofInt 2345), ⟨6, 10⟩⟩, ⟨.rightParen, ⟨10, 11⟩⟩] ∧
      standard.Tokenizes "max(1 \t,2345)".toList
        [⟨.function "max".toList, ⟨0, 3⟩⟩, ⟨.leftParen, ⟨3, 4⟩⟩, ⟨.number (.ofInt 1), ⟨4, 5⟩⟩,
          ⟨.comma, ⟨7, 8⟩⟩, ⟨.number (.ofInt 2345), ⟨8, 12⟩⟩, ⟨.rightParen, ⟨12, 13⟩⟩] ∧
      standard.answer "max(1 \t,2345)".toList 6 = .ok ⟨.endOfInput, ⟨13, 13⟩⟩ ∧
      standard.parse 2 "max(1 \t,2345)".toList =
        .ok (.call "max".toList [.number (.ofInt 1), .number (.ofInt 2345)]) := by
  have hsource : standard.Tokenizes "max(1,2345)".toList
      [⟨.function "max".toList, ⟨0, 3⟩⟩, ⟨.leftParen, ⟨3, 4⟩⟩, ⟨.number (.ofInt 1), ⟨4, 5⟩⟩,
        ⟨.comma, ⟨5, 6⟩⟩, ⟨.number (.ofInt 2345), ⟨6, 10⟩⟩, ⟨.rightParen, ⟨10, 11⟩⟩] :=
    (LexemeStream.ofText_eq_iff reachable_standard).mp (by decide +kernel)
  have hblanks : ∀ b ∈ " \t".toList, isBlank b = true := List.all_eq_true.mp (by decide +kernel)
  obtain ⟨hinsert, hanswers, hresults⟩ :=
    insert_blanks reachable_standard hsource hblanks (.inr ⟨⟨.comma, ⟨5, 6⟩⟩, by simp, rfl⟩)
  have hparse : standard.parse 2 "max(1,2345)".toList =
      .ok (.call "max".toList [.number (.ofInt 1), .number (.ofInt 2345)]) := by
    decide +kernel
  refine ⟨hsource, hinsert, (hanswers 6).trans (by decide +kernel), ?_⟩
  have hresult := hresults 2
  rw [hparse] at hresult
  generalize hblank : standard.parse 2 _ = result at hresult
  cases hresult with
  | ok htree => exact hblank.trans (by rw [htree])

end Registry

end Reckoner
