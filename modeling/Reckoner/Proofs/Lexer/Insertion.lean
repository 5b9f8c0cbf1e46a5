import Reckoner.Proofs.Lexer.Replacement
import Reckoner.Proofs.Lexer.Tiling

/-!
# Blanks between lexemes

Blanks can be inserted in front of a lexeme, or at the end of a text, and all lexemes stay
the same; those behind the blanks are moved by their number of bytes (`tokenizes_insert`).

The proof goes through the run of the lexer on the text without the blanks.

* A lexeme in front of the blanks was cut off before some rest.  A blank is a delimiter, so
  it is cut off in the same way before the blanks (`Scan.before_blanks`).
* From the blanks on, the lexer reads the text that it read before.  It only counts more
  bytes in front of it (`Lexes.add_offset`).

Lexemes stand one behind the other (`Lexes.pairwise`), so each of them is on one side of
the blanks.
-/

namespace Reckoner

/-! ## Inserting a text -/

namespace Text

/-- A text with another one inserted behind a number of bytes. -/
def insert (source : Text) (point : Nat) (text : Text) : Text :=
  source.replace ⟨point, point⟩ text

theorem insert_append (before after text : Text) :
    insert (before ++ after) before.byteLength text = before ++ (text ++ after) := by
  have hreplace := replace_append before [] text after
  rwa [List.nil_append, List.append_nil] at hreplace

theorem byteLength_insert (source : Text) (point : Nat) (text : Text) :
    (source.insert point text).byteLength = source.byteLength + text.byteLength := by
  have hwhole := congrArg byteLength (List.take_append_drop (column source point) source)
  rw [byteLength_append] at hwhole
  simp only [insert, replace, byteLength_append]
  omega

end Text

/-- The place of a span after `count` bytes were inserted at a point. -/
def Span.moved (point count : Nat) (span : Span) : Span :=
  if point ≤ span.start then ⟨span.start + count, span.stop + count⟩ else span

def Lexeme.moved (point count : Nat) (lexeme : Lexeme) : Lexeme :=
  ⟨lexeme.token, lexeme.span.moved point count⟩

/-! ## Lexemes in order -/

namespace Cursor

variable {registry : Registry} {cursor after : Cursor} {lexeme : Lexeme} {lexemes : List Lexeme}
  {blanks : Text} {point : Nat}

/-- Where a request begins and ends. -/
theorem offsets_of_next (hreach : registry.Reachable)
    (hnext : cursor.next registry = (.ok lexeme, after)) (hmore : lexeme.token ≠ .endOfInput) :
    cursor.offset ≤ lexeme.span.start ∧ lexeme.span.start < lexeme.span.stop ∧
      lexeme.span.stop = after.offset ∧
      after.offset + after.rest.byteLength = cursor.offset + cursor.rest.byteLength := by
  obtain ⟨front, c, word, hrest, _, _, _, hspan, hreached⟩ :=
    exists_scan_of_next hreach hnext hmore
  have hsize := c.utf8Size_pos
  rw [hrest, hspan, hreached]
  simp only [Text.byteLength_append, Text.byteLength_cons, true_and]
  omega

namespace Lexes

theorem within (hreach : registry.Reachable) (hlexes : Lexes registry cursor lexemes) :
    ∀ lexeme ∈ lexemes, cursor.offset ≤ lexeme.span.start ∧
      lexeme.span.start < lexeme.span.stop ∧
      lexeme.span.stop ≤ cursor.offset + cursor.rest.byteLength := by
  induction hlexes with
  | ended => simp
  | lexeme hnext hmore _ ih =>
      obtain ⟨hstart, hsome, hstop, hend⟩ := offsets_of_next hreach hnext hmore
      refine List.forall_mem_cons.mpr ⟨⟨hstart, hsome, by omega⟩, fun later hmem => ?_⟩
      obtain ⟨hlater, hlaterSome, hlaterStop⟩ := ih later hmem
      exact ⟨by omega, hlaterSome, by omega⟩

/-- Lexemes stand one behind the other. -/
theorem pairwise (hreach : registry.Reachable) (hlexes : Lexes registry cursor lexemes) :
    lexemes.Pairwise fun lexeme later => lexeme.span.stop ≤ later.span.start := by
  induction hlexes with
  | ended => exact List.Pairwise.nil
  | lexeme hnext hmore hlater ih =>
      obtain ⟨_, _, hstop, _⟩ := offsets_of_next hreach hnext hmore
      refine List.pairwise_cons.mpr ⟨fun later hmem => ?_, ih⟩
      rw [hstop]
      exact (hlater.within hreach later hmem).1

/-- Where a lexeme begins, no other one is in the middle. -/
theorem apart (hreach : registry.Reachable) (hlexes : Lexes registry cursor lexemes)
    {other : Lexeme} (hlexeme : lexeme ∈ lexemes) (hother : other ∈ lexemes) :
    lexeme.span.stop ≤ other.span.start ∨ other.span.start ≤ lexeme.span.start := by
  have hordered := List.pairwise_iff_getElem.mp (hlexes.pairwise hreach)
  have hsome := (hlexes.within hreach other hother).2.1
  obtain ⟨i, hi, rfl⟩ := List.getElem_of_mem hlexeme
  obtain ⟨j, hj, rfl⟩ := List.getElem_of_mem hother
  rcases Nat.lt_trichotomy i j with hlt | rfl | hgt
  · exact Or.inl (hordered i j hi hj hlt)
  · exact Or.inr (Nat.le_refl _)
  · have hbehind := hordered j i hj hi hgt
    exact Or.inr (by omega)

end Lexes

/-! ## Reading on at another offset -/

/-- What is read does not depend on what stands in front. -/
theorem next_add_offset (source : Text) (count : Nat)
    (hnext : cursor.next registry = (.ok lexeme, after)) :
    next registry ⟨source, cursor.offset + count, cursor.rest⟩ =
      (.ok (lexeme.moved 0 count), ⟨source, after.offset + count, after.rest⟩) := by
  obtain ⟨text, hscan, hspan, rfl⟩ := next_eq_ok_iff.mp hnext
  refine next_eq_ok_iff.mpr ⟨text, hscan, ?_, ?_⟩
  · simp [Lexeme.moved, Span.moved, hspan, spanOf, skipBlanks, advance]
    omega
  · simp [skipBlanks, advance]
    omega

theorem Lexes.add_offset (source : Text) (count : Nat) (hlexes : Lexes registry cursor lexemes) :
    Lexes registry ⟨source, cursor.offset + count, cursor.rest⟩
      (lexemes.map (·.moved 0 count)) := by
  induction hlexes with
  | ended hnext => exact .ended (next_add_offset source count hnext)
  | lexeme hnext hmore _ ih => exact .lexeme (next_add_offset source count hnext) hmore ih

/-- Blanks in front move all lexemes. -/
theorem Lexes.blanks_append (hreach : registry.Reachable) (source : Text)
    (hblanks : ∀ b ∈ blanks, isBlank b = true) (hlexes : Lexes registry cursor lexemes) :
    Lexes registry ⟨source, cursor.offset, blanks ++ cursor.rest⟩
      (lexemes.map (·.moved cursor.offset blanks.byteLength)) := by
  have hmoved : lexemes.map (·.moved 0 blanks.byteLength) =
      lexemes.map (·.moved cursor.offset blanks.byteLength) := by
    apply List.map_congr_left
    intro lexeme hmem
    have hbehind := (hlexes.within hreach lexeme hmem).1
    rw [Lexeme.moved, Lexeme.moved, Span.moved, Span.moved, if_pos (Nat.zero_le _), if_pos hbehind]
  rw [lexes_blanks_append_iff hblanks, ← hmoved]
  exact hlexes.add_offset source blanks.byteLength

end Cursor

/-! ## Lexemes before blanks -/

/-- A lexeme is the same with blanks behind the text that was cut off with it. -/
theorem Scan.before_blanks {registry : Registry} (hreach : registry.Reachable) {c : Char}
    {word text rest blanks : Text} {token : Token} {tokens : List Token}
    (hscan : Scan registry (c :: (word ++ (text ++ rest))) token (c :: word))
    (hlater : registry.SplitsBefore rest text tokens) (hblanks : ∀ b ∈ blanks, isBlank b = true) :
    Scan registry (c :: (word ++ (text ++ (blanks ++ rest)))) token (c :: word) := by
  cases blanks with
  | nil => exact hscan
  | cons b blanks =>
      have hdelimits : Delimits b := .blank (hblanks b List.mem_cons_self)
      exact hscan.before_delimiter hreach hlater hdelimits (blanks ++ rest)

/-- The run of the lexer with blanks in front of one of its lexemes, or at the end. -/
theorem Cursor.Lexes.insert {registry : Registry} (hreach : registry.Reachable) {cursor : Cursor}
    {lexemes : List Lexeme} {blanks : Text} {point : Nat} (source : Text)
    (hblanks : ∀ b ∈ blanks, isBlank b = true) (hlexes : Lexes registry cursor lexemes)
    (hpoint : point = cursor.offset + cursor.rest.byteLength ∨
      ∃ lexeme ∈ lexemes, lexeme.span.start = point) :
    ∃ text later tokens, cursor.rest = text ++ later ∧ point = cursor.offset + text.byteLength ∧
      registry.SplitsBefore later text tokens ∧
      Lexes registry ⟨source, cursor.offset, text ++ (blanks ++ later)⟩
        (lexemes.map (·.moved point blanks.byteLength)) := by
  induction hlexes with
  | @ended cursor after span hnext =>
      obtain ⟨hrest, _, _⟩ := next_eq_ended_iff.mp hnext
      have hend : point = cursor.offset + cursor.rest.byteLength := by simpa using hpoint
      refine ⟨cursor.rest, [], [], by simp, hend, ?_, .ended (next_eq_ended_iff.mpr ⟨?_, rfl, rfl⟩)⟩
      · simpa using Registry.SplitsBefore.blanks_append hrest .nil
      · simpa [or_imp, forall_and] using ⟨hrest, hblanks⟩
  | @lexeme cursor after first lexemes hnext hmore hlater ih =>
      obtain ⟨front, c, word, hrest, hfront, hblank, hscan, hspan, hreached⟩ :=
        exists_scan_of_next hreach hnext hmore
      by_cases hfirst : first.span.start = point
      · -- the blanks stand in front of this lexeme, and everything is moved
        have hstart : point = cursor.offset + front.byteLength := by rw [← hfirst, hspan]
        have hcut : Lexes registry
            ⟨cursor.source, cursor.offset + front.byteLength, c :: (word ++ after.rest)⟩
            (first :: lexemes) := by
          rw [← lexes_blanks_append_iff hfront, ← hrest]
          exact .lexeme hnext hmore hlater
        refine ⟨front, c :: (word ++ after.rest), [], hrest, hstart, ?_, ?_⟩
        · simpa using Registry.SplitsBefore.blanks_append hfront .nil
        · rw [lexes_blanks_append_iff hfront, hstart]
          exact hcut.blanks_append hreach source hblanks
      · -- the blanks stand behind this lexeme, which stays
        obtain ⟨_, hsome, hstop, hend⟩ := offsets_of_next hreach hnext hmore
        have hlaterPoint : point = after.offset + after.rest.byteLength ∨
            ∃ lexeme ∈ lexemes, lexeme.span.start = point := by
          rw [hend]
          simpa [hfirst] using hpoint
        obtain ⟨text, later, tokens, hafter, hplace, hsplits, hbehind⟩ := ih hlaterPoint
        have hstays : first.moved point blanks.byteLength = first := by
          rw [Lexeme.moved, Span.moved, if_neg (by omega)]
        rw [hafter] at hrest hscan
        have hnextBlanks := @next_of_scan _ source _ _ _ _ _ cursor.offset hfront hblank
          (hscan.before_blanks hreach hsplits hblanks)
        rw [← hreached, ← hspan] at hnextBlanks
        refine ⟨front ++ c :: (word ++ text), later, first.token :: tokens, ?_, ?_,
          .blanks_append hfront (.lexeme hblank hscan hsplits), ?_⟩
        · rw [hrest]
          simp
        · rw [hplace, hreached]
          simp [Nat.add_assoc]
        · rw [List.map_cons, hstays]
          exact .lexeme (by simpa using hnextBlanks) hmore hbehind

/-! ## All requests -/

namespace Registry

variable {registry : Registry} {source blanks : Text} {lexemes : List Lexeme} {point : Nat}

/-- **Blanks between lexemes.**  In front of a lexeme, or at the end of a text, blanks can be
inserted, and the lexemes stay the same.  Those behind the blanks are moved. -/
theorem tokenizes_insert (hreach : registry.Reachable) (hsource : registry.Tokenizes source lexemes)
    (hblanks : ∀ b ∈ blanks, isBlank b = true)
    (hpoint : point = source.byteLength ∨ ∃ lexeme ∈ lexemes, lexeme.span.start = point) :
    registry.Tokenizes (source.insert point blanks)
      (lexemes.map (·.moved point blanks.byteLength)) := by
  have hplace : point = (Cursor.start source).offset + (Cursor.start source).rest.byteLength ∨
      ∃ lexeme ∈ lexemes, lexeme.span.start = point := by
    simpa [Cursor.start] using hpoint
  obtain ⟨text, later, _, hrest, hstart, _, hlexes⟩ :=
    hsource.insert hreach (source.insert point blanks) hblanks hplace
  obtain rfl : source = text ++ later := hrest
  obtain rfl : point = text.byteLength := by simpa [Cursor.start] using hstart
  rw [Text.insert_append] at hlexes ⊢
  exact hlexes

theorem span_of_mem (hreach : registry.Reachable) (hsource : registry.Tokenizes source lexemes)
    {lexeme : Lexeme} (hmem : lexeme ∈ lexemes) :
    lexeme.span.start < lexeme.span.stop ∧ lexeme.span.stop ≤ source.byteLength := by
  obtain ⟨_, hsome, hstop⟩ := hsource.within hreach lexeme hmem
  rw [Cursor.start, Nat.zero_add] at hstop
  exact ⟨hsome, hstop⟩

/-- A text that is split without errors answers with its lexemes, and with the end of input
from then on. -/
theorem answer_eq_of_lexes {start : Nat}
    (hlexes : Cursor.Lexes registry (registry.position source start) lexemes) (request : Nat) :
    registry.answer source (start + request) =
      .ok (lexemes[request]?.getD ⟨.endOfInput, source.byteLength, source.byteLength⟩) := by
  induction request generalizing start lexemes with
  | zero =>
      cases hlexes with
      | @ended _ _ span hnext =>
          have hanswer : registry.answer source start = .ok ⟨.endOfInput, span⟩ :=
            congrArg Prod.fst hnext
          obtain ⟨rfl, _⟩ := ended_of_answer hanswer
          exact hanswer
      | lexeme hnext _ _ => exact congrArg Prod.fst hnext
  | succ request ih =>
      cases hlexes with
      | @ended _ _ span hnext =>
          have hanswer : registry.answer source start = .ok ⟨.endOfInput, span⟩ :=
            congrArg Prod.fst hnext
          obtain ⟨rfl, hlater⟩ := ended_of_answer hanswer
          exact hlater _ (Nat.le_add_right _ _)
      | @lexeme _ after _ _ hnext _ hlater =>
          have hposition : registry.position source (start + 1) = after := congrArg Prod.snd hnext
          rw [← hposition] at hlater
          have hanswer := ih hlater
          rwa [Nat.add_right_comm, Nat.add_assoc] at hanswer

end Registry

end Reckoner
