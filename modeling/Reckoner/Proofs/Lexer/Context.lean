import Reckoner.Proofs.Lexer.Positions
import Reckoner.Proofs.Lexer.Rendering

/-!
# Lexemes before another text

What the lexer makes of the beginning of a text depends on the text behind it: a name
may go on, and whether a comma belongs to a numeral shows four characters later.  Before
a blank or a parenthesis none of this happens (`Delimits`), so the lexemes are the same as
before any other text in front of which the lexer has cut.

`Registry.SplitsBefore` says which tokens the lexer takes off a text before a given
rest.  The rest is present while the tokens are taken, so that none of them is cut short.

* `SplitsBefore.before_delimiter`: before a delimiter the tokens are the same as before
  any rest.
* `SplitsBefore.splits`: the tokens of the text and those of the rest are the tokens of
  both together.
* `exists_splitsBefore`: the lexer's run on a text, cut off in front of one of its lexemes.

A comma is the difficult case.  It belongs to a numeral if exactly three digits follow.
If these are the last characters before the rest, then a digit in the rest would be a
fourth one and the comma would stand for itself; but then the digits would begin a
numeral that goes on into the rest, and nothing would be cut in front of it
(`SplitsBefore.not_isDigit_of_digits`).
-/

namespace Reckoner

/-! ## Delimiters -/

/-- Characters at which every lexeme ends.  The comma is none, for it can belong to a
numeral. -/
inductive Delimits : Char → Prop
  | blank {c : Char} (hblank : isBlank c = true) : Delimits c
  | leftParen : Delimits '('
  | rightParen : Delimits ')'

namespace Delimits

variable {c : Char}

theorem isDigit (hdelimits : Delimits c) : c.isDigit = false := by
  cases hdelimits with
  | blank hblank =>
      refine Bool.eq_false_iff.mpr fun hdigit => ?_
      simp [isBlank_of_isDigit hdigit] at hblank
  | leftParen => rfl
  | rightParen => rfl

theorem isLetter (hdelimits : Delimits c) : isLetter c = false := by
  cases hdelimits with
  | blank hblank => exact isLetter_of_isBlank hblank
  | leftParen => exact isLetter_of_isPunctuation rfl
  | rightParen => exact isLetter_of_isPunctuation rfl

theorem endsNumeral (hdelimits : Delimits c) {behind : Text} : EndsNumeral (c :: behind) := by
  have hother : ∀ d, isBlank d = false → d ≠ '(' → d ≠ ')' → c ≠ d := by
    rintro d hblank hleft hright rfl
    cases hdelimits with
    | blank h => simp [hblank] at h
    | leftParen => exact hleft rfl
    | rightParen => exact hright rfl
  exact Registry.endsNumeral_cons hdelimits.isDigit (hother '.' rfl (by decide) (by decide))
    (hother '_' rfl (by decide) (by decide)) (hother ',' rfl (by decide) (by decide))

/-- No operator has a delimiter in its name. -/
theorem notMem {registry : Registry} (hreach : registry.Reachable) (hdelimits : Delimits c)
    {name : Text} (hname : name ∈ registry.operatorNames) : c ∉ name := by
  intro hc
  obtain ⟨first, rest, rfl⟩ := List.exists_cons_of_ne_nil (List.ne_nil_of_mem hc)
  obtain ⟨hblank, hpunctuation⟩ := (Registry.class_of_symbol hreach hname).1 c hc
  cases hdelimits with
  | blank h => simp [hblank] at h
  | leftParen => exact nomatch hpunctuation
  | rightParen => exact nomatch hpunctuation

end Delimits

/-! ## Numerals and what follows them -/

/-- No digit follows a numeral. -/
theorem not_isDigit_of_takeNumeral {hasPoint hasSeparator : Bool} {text rest : Text}
    (htake : takeNumeral hasPoint hasSeparator (text ++ rest) = text) :
    ∀ d ∈ rest.head?, d.isDigit = false := by
  induction text generalizing hasPoint hasSeparator with
  | nil =>
      intro d hd
      obtain ⟨later, rfl⟩ := List.head?_eq_some_iff.mp hd
      refine Bool.eq_false_iff.mpr fun hdigit => ?_
      simp [takeNumeral_cons_of_isDigit hdigit] at htake
  | cons c text ih =>
      rw [List.cons_append, takeNumeral] at htake
      split at htake
      · exact ih (List.cons.inj htake).2
      split at htake
      · exact ih (List.cons.inj htake).2
      split at htake
      · exact ih (List.cons.inj htake).2
      · simp at htake

/-- Three digits that a numeral goes on with are all its own. -/
theorem groupsDigits_of_takeNumeral {hasPoint hasSeparator : Bool} {text rest rest' : Text}
    (htake : takeNumeral hasPoint hasSeparator (text ++ rest) = text)
    (hgroups : groupsDigits (text ++ rest) = true)
    (hends : ∀ d ∈ rest'.head?, d.isDigit = false) : groupsDigits (text ++ rest') = true := by
  have hrest := not_isDigit_of_takeNumeral htake
  rcases text with _ | ⟨x, _ | ⟨y, _ | ⟨z, text⟩⟩⟩
  · rcases rest with _ | ⟨d, _ | ⟨_, _ | ⟨_, _⟩⟩⟩ <;> simp_all [groupsDigits]
  · rcases rest with _ | ⟨d, _ | ⟨_, _⟩⟩ <;> simp_all [groupsDigits]
  · rcases rest with _ | ⟨d, _⟩ <;> simp_all [groupsDigits]
  · rcases text with _ | ⟨v, text⟩
    · rcases rest' with _ | ⟨d, rest'⟩ <;> simp_all [groupsDigits]
    · exact hgroups

/-- A numeral stays if what follows it does not go on with a numeral either. -/
theorem takeNumeral_of_takeNumeral {hasPoint hasSeparator : Bool} {text rest rest' : Text}
    (htake : takeNumeral hasPoint hasSeparator (text ++ rest) = text)
    (hdigit : ∀ d ∈ rest'.head?, d.isDigit = false)
    (hends : ∀ hasPoint hasSeparator, takeNumeral hasPoint hasSeparator rest = [] →
      takeNumeral hasPoint hasSeparator rest' = []) :
    takeNumeral hasPoint hasSeparator (text ++ rest') = text := by
  induction text generalizing hasPoint hasSeparator with
  | nil => exact hends _ _ htake
  | cons c text ih =>
      rw [List.cons_append, takeNumeral] at htake ⊢
      split at htake
      · next hc => rw [if_pos hc, ih (List.cons.inj htake).2]
      next hc =>
      split at htake
      · next hpoint => rw [if_neg hc, if_pos hpoint, ih (List.cons.inj htake).2]
      next hpoint =>
      split at htake
      · next hseparator =>
          obtain ⟨hcase, hfirst⟩ := hseparator
          have htail := (List.cons.inj htake).2
          have hcase' : c = '_' ∨ c = ',' ∧ groupsDigits (text ++ rest') = true :=
            hcase.imp_right fun hcomma =>
              ⟨hcomma.1, groupsDigits_of_takeNumeral htail hcomma.2 hdigit⟩
          rw [if_neg hc, if_neg hpoint, if_pos ⟨hcase', hfirst⟩, ih htail]
      · simp at htake

/-! ## Words and names and what follows them -/

theorem endsWord_of_takeWhile {word rest : Text}
    (hword : (word ++ rest).takeWhile isLetter = word) :
    (∀ c ∈ word, isLetter c = true) ∧ Registry.EndsWord rest := by
  have hletters : ∀ c ∈ word, isLetter c = true := by
    have hall : ∀ c ∈ (word ++ rest).takeWhile isLetter, isLetter c = true :=
      List.all_eq_true.mp List.all_takeWhile
    rwa [hword] at hall
  refine ⟨hletters, fun c hc => ?_⟩
  obtain ⟨later, rfl⟩ := List.head?_eq_some_iff.mp hc
  rw [List.takeWhile_append_of_pos hletters, List.append_right_eq_self] at hword
  refine Bool.eq_false_iff.mpr fun hletter => ?_
  simp [hletter] at hword

/-- A name without a character ends in front of it. -/
theorem isPrefix_of_notMem {name text behind : Text} {c : Char}
    (hbegins : name <+: text ++ c :: behind) (hc : c ∉ name) : name <+: text := by
  rcases List.prefix_or_prefix_of_prefix hbegins (List.prefix_append text _) with hshort | hlong
  · exact hshort
  · obtain ⟨more, rfl⟩ := hlong
    rw [List.prefix_append_right_inj] at hbegins
    cases more with
    | nil => simp
    | cons d more =>
        obtain ⟨rfl, _⟩ := List.cons_prefix_cons.mp hbegins
        simp at hc

/-- What holds of the next character holds of it before another rest. -/
theorem forall_head?_append {p : Char → Prop} {text rest behind : Text} {c : Char}
    (hhead : ∀ d ∈ (text ++ rest).head?, p d) (hc : p c) :
    ∀ d ∈ (text ++ c :: behind).head?, p d := by
  cases text with
  | nil => simpa using hc
  | cons d text => simpa using hhead

/-! ## Tokens before a rest -/

/-- Before the rest, the lexer takes the tokens off the text. -/
inductive Registry.SplitsBefore (registry : Registry) (rest : Text) : Text → List Token → Prop
  | nil : SplitsBefore registry rest [] []
  | blank {c : Char} {text : Text} {tokens : List Token} (hblank : isBlank c = true)
      (hlater : SplitsBefore registry rest text tokens) :
      SplitsBefore registry rest (c :: text) tokens
  | lexeme {c : Char} {word text : Text} {token : Token} {tokens : List Token}
      (hblank : isBlank c = false)
      (hscan : Scan registry (c :: (word ++ (text ++ rest))) token (c :: word))
      (hlater : SplitsBefore registry rest text tokens) :
      SplitsBefore registry rest (c :: (word ++ text)) (token :: tokens)

theorem Scan.token_ne_endOfInput {registry : Registry} {c : Char} {rest text : Text} {token : Token}
    (hscan : Scan registry (c :: rest) token text) : token ≠ .endOfInput := by
  cases hscan <;> simp

namespace Registry

variable {registry : Registry} {rest text : Text} {tokens later : List Token} {c : Char}

namespace SplitsBefore

/-- Of a text without a blank in front a lexeme is taken. -/
theorem exists_scan (hsplits : registry.SplitsBefore rest (c :: text) tokens)
    (hblank : isBlank c = false) :
    ∃ word behind token later, text = word ++ behind ∧
      Scan registry (c :: (word ++ (behind ++ rest))) token (c :: word) ∧
      registry.SplitsBefore rest behind later := by
  cases hsplits with
  | blank h => simp [hblank] at h
  | lexeme _ hscan hlater => exact ⟨_, _, _, _, rfl, hscan, hlater⟩

/-- A comma stands for itself. -/
theorem of_comma (hsplits : registry.SplitsBefore rest (',' :: text) tokens) :
    ∃ later, registry.SplitsBefore rest text later := by
  obtain ⟨word, behind, token, later, rfl, hscan, hlater⟩ := hsplits.exists_scan rfl
  generalize htext : ',' :: word = taken at hscan
  cases hscan with
  | numeral hdigit => simp at hdigit
  | operatorWord hletter => simp [isLetter_of_isPunctuation (c := ',') rfl] at hletter
  | functionWord hletter => simp [isLetter_of_isPunctuation (c := ',') rfl] at hletter
  | comma =>
      obtain ⟨_, rfl⟩ := List.cons.inj htext
      exact ⟨later, hlater⟩
  | symbol _ _ hpunctuation => simp [isPunctuation] at hpunctuation

/-- Digits are not cut off in front of a digit. -/
theorem not_isDigit_of_digits (hsplits : registry.SplitsBefore rest text tokens)
    (hdigits : ∀ d ∈ text, d.isDigit = true) (hsome : text ≠ []) :
    ∀ d ∈ rest.head?, d.isDigit = false := by
  obtain ⟨c, text, rfl⟩ := List.exists_cons_of_ne_nil hsome
  have hdigit := hdigits c List.mem_cons_self
  obtain ⟨word, behind, token, later, rfl, hscan, _⟩ :=
    hsplits.exists_scan (isBlank_of_isDigit hdigit)
  generalize htext : c :: word = taken at hscan
  cases hscan with
  | numeral =>
      have htake : takeNumeral false false (c :: word ++ (behind ++ rest)) = c :: word := htext.symm
      have hnext := not_isDigit_of_takeNumeral htake
      -- the numeral takes all the digits
      cases behind with
      | nil => exact hnext
      | cons d behind => simp [hdigits d (by simp)] at hnext
  | operatorWord hletter => simp [isLetter_of_isDigit hdigit] at hletter
  | functionWord hletter => simp [isLetter_of_isDigit hdigit] at hletter
  | leftParen => simp at hdigit
  | rightParen => simp at hdigit
  | comma => simp at hdigit
  | symbol h => simp [hdigit] at h

/-! ### Before a delimiter -/

/-- A comma that separates groups before a delimiter also does before the rest. -/
theorem groupsDigits_of_delimiter (hsplits : registry.SplitsBefore rest (',' :: text) tokens)
    (hdigit : c.isDigit = false) {behind : Text}
    (hgroups : groupsDigits (text ++ c :: behind) = true) : groupsDigits (text ++ rest) = true := by
  obtain ⟨later, hlater⟩ := hsplits.of_comma
  rcases text with _ | ⟨x, _ | ⟨y, _ | ⟨z, text⟩⟩⟩
  · rcases behind with _ | ⟨_, _ | ⟨_, _⟩⟩ <;> simp_all [groupsDigits]
  · rcases behind with _ | ⟨_, _⟩ <;> simp_all [groupsDigits]
  · simp_all [groupsDigits]
  · rcases text with _ | ⟨v, text⟩
    · have hdigits : ∀ d ∈ [x, y, z], d.isDigit = true := by
        simp only [List.cons_append, List.nil_append, groupsDigits, Bool.and_eq_true] at hgroups
        simp [hgroups]
      have hnext := hlater.not_isDigit_of_digits hdigits (by simp)
      rcases rest with _ | ⟨d, rest⟩ <;> simp_all [groupsDigits]
    · exact hgroups

/-- Where no numeral goes on, none goes on before a delimiter. -/
theorem takeNumeral_delimiter (hsplits : registry.SplitsBefore rest text tokens)
    (hdelimits : Delimits c) (behind : Text) (hasPoint hasSeparator : Bool)
    (htake : takeNumeral hasPoint hasSeparator (text ++ rest) = []) :
    takeNumeral hasPoint hasSeparator (text ++ c :: behind) = [] := by
  cases text with
  | nil => exact hdelimits.endsNumeral hasPoint hasSeparator
  | cons d text =>
      rw [List.cons_append, takeNumeral] at htake ⊢
      split at htake
      · simp at htake
      next hd =>
      split at htake
      · simp at htake
      next hpoint =>
      split at htake
      · simp at htake
      next hseparator =>
      rw [if_neg hd, if_neg hpoint, if_neg]
      rintro ⟨hunder | ⟨rfl, hgroups⟩, hfirst⟩
      · exact hseparator ⟨Or.inl hunder, hfirst⟩
      · have hgroups' := hsplits.groupsDigits_of_delimiter hdelimits.isDigit hgroups
        exact hseparator ⟨Or.inr ⟨rfl, hgroups'⟩, hfirst⟩

end SplitsBefore

end Registry

/-- A lexeme is the same before a delimiter. -/
theorem Scan.before_delimiter {registry : Registry} (hreach : registry.Reachable) {c d : Char}
    {word text rest : Text} {token : Token} {tokens : List Token}
    (hscan : Scan registry (c :: (word ++ (text ++ rest))) token (c :: word))
    (hlater : registry.SplitsBefore rest text tokens) (hdelimits : Delimits d) (behind : Text) :
    Scan registry (c :: (word ++ (text ++ d :: behind))) token (c :: word) := by
  -- a word ends where it did
  have hsameWord (hword : (c :: word ++ (text ++ rest)).takeWhile isLetter = c :: word) :
      (c :: word ++ (text ++ d :: behind)).takeWhile isLetter = c :: word := by
    obtain ⟨hletters, hends⟩ := endsWord_of_takeWhile hword
    have hendsHere : Registry.EndsWord (text ++ d :: behind) :=
      forall_head?_append hends hdelimits.isLetter
    exact Registry.takeWhile_isLetter_append hletters hendsHere
  generalize hfull : c :: (word ++ (text ++ rest)) = full at hscan
  generalize htaken : c :: word = taken at hscan
  cases hscan with
  | ended => simp at htaken
  | numeral hdigit hvalue hfinite =>
      obtain ⟨rfl, rfl⟩ := List.cons.inj hfull
      have htake : takeNumeral false false (c :: word ++ (text ++ rest)) = c :: word := htaken.symm
      have hnext : ∀ e ∈ (text ++ d :: behind).head?, e.isDigit = false :=
        forall_head?_append (not_isDigit_of_takeNumeral htake) hdelimits.isDigit
      have hsame : takeNumeral false false (c :: (word ++ (text ++ d :: behind))) = c :: word :=
        takeNumeral_of_takeNumeral htake hnext (hlater.takeNumeral_delimiter hdelimits behind)
      rw [← htaken] at hvalue ⊢
      have hnumeral : Scan registry _ _ _ := .numeral hdigit (hsame.symm ▸ hvalue) hfinite
      rwa [hsame] at hnumeral
  | operatorWord hletter hword hoperator =>
      obtain ⟨rfl, rfl⟩ := List.cons.inj hfull
      exact .operatorWord hletter (htaken ▸ hsameWord (hword.trans htaken.symm)) hoperator
  | functionWord hletter hword hoperator hfunction =>
      obtain ⟨rfl, rfl⟩ := List.cons.inj hfull
      exact .functionWord hletter (htaken ▸ hsameWord (hword.trans htaken.symm)) hoperator hfunction
  | leftParen =>
      obtain ⟨rfl, rfl⟩ := List.cons.inj htaken
      exact .leftParen
  | rightParen =>
      obtain ⟨rfl, rfl⟩ := List.cons.inj htaken
      exact .rightParen
  | comma =>
      obtain ⟨rfl, rfl⟩ := List.cons.inj htaken
      exact .comma
  | symbol hdigit hletter hpunct hfind =>
      obtain ⟨rfl, rfl⟩ := List.cons.inj hfull
      subst htaken
      obtain ⟨hname, _, hlongest⟩ := (Registry.find?_identifiers_eq_some_iff hreach).mp hfind
      refine .symbol hdigit hletter hpunct ((Registry.find?_identifiers_eq_some_iff hreach).mpr ?_)
      refine ⟨hname, List.prefix_append (c :: word) _, fun other hother hbegins => ?_⟩
      -- a longer name would hold the delimiter
      have hshort : other <+: c :: (word ++ text) :=
        isPrefix_of_notMem (by simpa using hbegins) (hdelimits.notMem hreach hother)
      refine hlongest other hother (hshort.trans ?_)
      exact ⟨rest, by simp⟩

namespace Registry

variable {registry : Registry} {rest text : Text} {tokens later : List Token} {c : Char}

namespace SplitsBefore

/-- **Before a delimiter a text is split as before any rest.** -/
theorem before_delimiter (hreach : registry.Reachable)
    (hsplits : registry.SplitsBefore rest text tokens) (hdelimits : Delimits c)
    (behind : Text) : registry.SplitsBefore (c :: behind) text tokens := by
  induction hsplits with
  | nil => exact .nil
  | blank hblank _ ih => exact .blank hblank ih
  | lexeme hblank hscan hlater ih =>
      exact .lexeme hblank (hscan.before_delimiter hreach hlater hdelimits behind) ih

/-- The tokens of a text and of the rest behind it are those of both together. -/
theorem splits (hsplits : registry.SplitsBefore rest text tokens)
    (hrest : registry.Splits rest later) : registry.Splits (text ++ rest) (tokens ++ later) := by
  induction hsplits with
  | nil => exact hrest
  | blank hblank _ ih => exact splits_blank hblank ih
  | @lexeme c word text token tokens hblank hscan _ ih =>
      have hfull : Scan registry (c :: word ++ (text ++ rest)) token (c :: word) := hscan
      rw [List.cons_append, List.append_assoc]
      exact splits_append rfl hblank hfull hscan.token_ne_endOfInput ih

/-! ### Blanks -/

theorem blanks_append {blanks : Text} (hblanks : ∀ b ∈ blanks, isBlank b = true)
    (hsplits : registry.SplitsBefore rest text tokens) :
    registry.SplitsBefore rest (blanks ++ text) tokens := by
  induction blanks with
  | nil => exact hsplits
  | cons b blanks ih =>
      obtain ⟨hb, hblanks⟩ := List.forall_mem_cons.mp hblanks
      exact .blank hb (ih hblanks)

/-- Blanks at the beginning of the rest can be counted to the text. -/
theorem append_blanks {blanks : Text} (hblanks : ∀ b ∈ blanks, isBlank b = true)
    (hsplits : registry.SplitsBefore (blanks ++ rest) text tokens) :
    registry.SplitsBefore rest (text ++ blanks) tokens := by
  induction hsplits with
  | nil => simpa using blanks_append hblanks SplitsBefore.nil
  | blank hblank _ ih => exact .blank hblank ih
  | lexeme hblank hscan _ ih =>
      rw [← List.append_assoc _ blanks rest] at hscan
      rw [List.cons_append, List.append_assoc]
      exact .lexeme hblank hscan ih

end SplitsBefore

end Registry

/-! ## Runs of the lexer -/

namespace Cursor

variable {registry : Registry} {cursor after : Cursor} {lexeme : Lexeme}

/-- A lexeme is taken behind blanks. -/
theorem exists_scan_of_next (hreach : registry.Reachable)
    (hnext : cursor.next registry = (.ok lexeme, after)) (hmore : lexeme.token ≠ .endOfInput) :
    ∃ (blanks : Text) (c : Char) (word : Text),
      cursor.rest = blanks ++ c :: (word ++ after.rest) ∧
      (∀ b ∈ blanks, isBlank b = true) ∧ isBlank c = false ∧
      Scan registry (c :: (word ++ after.rest)) lexeme.token (c :: word) ∧
      lexeme.span = ⟨cursor.offset + blanks.byteLength, after.offset⟩ ∧
      after.offset = cursor.offset + Text.byteLength (blanks ++ c :: word) := by
  obtain ⟨text, hscan, hspan, rfl⟩ := next_eq_ok_iff.mp hnext
  obtain ⟨c, word, rfl⟩ := List.exists_cons_of_ne_nil (hscan.text_ne_nil hreach hmore)
  obtain ⟨later, hrest⟩ := hscan.text_isPrefix
  have hafter : (cursor.skipBlanks.advance (c :: word)).rest = later := rest_advance hrest.symm
  have hblank : isBlank c = false := by
    have hhead := List.head?_dropWhile_not isBlank cursor.rest
    rw [← rest_skipBlanks, ← hrest] at hhead
    simpa using hhead
  refine ⟨cursor.rest.takeWhile isBlank, c, word, ?_, ?_, hblank, ?_, ?_, ?_⟩
  · rw [hafter]
    exact (rest_eq_blanks_append cursor).trans (by rw [← hrest, List.cons_append])
  · exact List.all_eq_true.mp List.all_takeWhile
  · rw [hafter]
    rw [← hrest] at hscan
    exact hscan
  · rw [hspan]
    rfl
  · simp [skipBlanks, advance, Nat.add_assoc]

/-- Behind blanks a lexeme is taken. -/
theorem next_of_scan {source blanks word rest : Text} {c : Char} {token : Token} {offset : Nat}
    (hblanks : ∀ b ∈ blanks, isBlank b = true) (hblank : isBlank c = false)
    (hscan : Scan registry (c :: (word ++ rest)) token (c :: word)) :
    next registry ⟨source, offset, blanks ++ c :: (word ++ rest)⟩ =
      (.ok ⟨token, offset + blanks.byteLength, offset + Text.byteLength (blanks ++ c :: word)⟩,
        ⟨source, offset + Text.byteLength (blanks ++ c :: word), rest⟩) := by
  have hskip : skipBlanks ⟨source, offset, blanks ++ c :: (word ++ rest)⟩ =
      ⟨source, offset + blanks.byteLength, c :: (word ++ rest)⟩ := by
    rw [skipBlanks_append hblanks]
    simp [skipBlanks, advance, hblank]
  refine next_eq_ok_iff.mpr ⟨c :: word, ?_, ?_, ?_⟩
  · rw [hskip]
    exact hscan
  · rw [hskip]
    simp [spanOf, Nat.add_assoc]
  · rw [hskip]
    simp [advance, Nat.add_assoc]

/-- A run of the lexer, cut off in front of some of its lexemes. -/
theorem exists_splitsBefore (hreach : registry.Reachable) {before later : List Lexeme}
    (hlexes : Lexes registry cursor (before ++ later)) :
    ∃ (text : Text) (middle : Cursor), cursor.rest = text ++ middle.rest ∧
      registry.SplitsBefore middle.rest text (before.map (·.token)) ∧
      middle.offset = cursor.offset + text.byteLength ∧ Lexes registry middle later := by
  induction before generalizing cursor with
  | nil => exact ⟨[], cursor, rfl, .nil, rfl, hlexes⟩
  | cons first before ih =>
      cases hlexes with
      | lexeme hnext hmore hlater =>
          obtain ⟨text, middle, hafter, hsplits, hoffset, hmiddle⟩ := ih hlater
          obtain ⟨blanks, c, word, hrest, hblanks, hblank, hscan, _, hreached⟩ :=
            exists_scan_of_next hreach hnext hmore
          rw [hafter] at hrest hscan
          refine ⟨blanks ++ c :: (word ++ text), middle, ?_, ?_, ?_, hmiddle⟩
          · rw [hrest]
            simp
          · exact .blanks_append hblanks (.lexeme hblank hscan hsplits)
          · rw [hoffset, hreached]
            simp [Nat.add_assoc]

end Cursor

namespace Registry

variable {registry : Registry} {source : Text} {lexemes : List Lexeme}

/-- A text that is split into lexemes is split before the end. -/
theorem splitsBefore_of_lexes (hreach : registry.Reachable) {cursor : Cursor}
    (hlexes : Cursor.Lexes registry cursor lexemes) :
    registry.SplitsBefore [] cursor.rest (lexemes.map (·.token)) := by
  rw [← List.append_nil lexemes] at hlexes
  obtain ⟨text, middle, hrest, hsplits, _, hended⟩ := Cursor.exists_splitsBefore hreach hlexes
  cases hended with
  | ended hnext =>
      obtain ⟨hblanks, _, _⟩ := Cursor.next_eq_ended_iff.mp hnext
      rw [← List.append_nil middle.rest] at hsplits
      rw [hrest]
      exact hsplits.append_blanks hblanks

end Registry

end Reckoner
