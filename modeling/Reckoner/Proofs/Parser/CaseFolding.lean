import Reckoner.Proofs.Evaluation.Renaming
import Reckoner.Proofs.Lexer.Requests
import Reckoner.Proofs.Parser.Spacing
import Reckoner.Proofs.Registry.Coherence

/-!
# Only tokens count, and their names in lower case

Two texts are split into tokens that are the same one by one, but for the case of names.  Then
the parser makes the same of both, and so does evaluation (`Registry.results_of_sameTokens`).

* Names are kept as they are written, but looked up in lower case, so a registry answers for
  names of one lower case as it does for one name (`likens_sameName`).
* Spans are not looked at.  Where one text has the span from its `i`-th to its `j`-th lexeme,
  the other has the span between its own two (`Span.SamePlaces`).  The parser makes new spans
  by merging only, and as lexemes stand in order, the merged span reaches again from a lexeme
  to another one (`Span.Reaches.merge`).

The end of input is counted as a lexeme, for errors stand there too.
-/

namespace Reckoner

/-- Names that are the same in lower case. -/
def SameName (name name' : Text) : Prop :=
  lower name = lower name'

/-! ## Spans between lexemes -/

/-- Lexemes with the end of input behind them. -/
def Text.withEnd (source : Text) (lexemes : List Lexeme) : List Lexeme :=
  lexemes ++ [⟨.endOfInput, source.byteLength, source.byteLength⟩]

/-- A span that begins where the `first` of some lexemes begins, and ends where the `last` of
them ends. -/
def Span.Reaches (lexemes : List Lexeme) (first last : Nat) (span : Span) : Prop :=
  ∃ begins ends, lexemes[first]? = some begins ∧ lexemes[last]? = some ends ∧
    span = ⟨begins.span.start, ends.span.stop⟩

/-- Spans that reach from and to lexemes of the same numbers. -/
def Span.SamePlaces (lexemes lexemes' : List Lexeme) (span span' : Span) : Prop :=
  ∃ first last, span.Reaches lexemes first last ∧ span'.Reaches lexemes' first last

variable {lexemes lexemes' : List Lexeme} {a a' b b' : Span}

theorem Lexeme.Ordered.le (hordered : Lexeme.Ordered lexemes) {i j : Nat} {lexeme later : Lexeme}
    (hi : lexemes[i]? = some lexeme) (hj : lexemes[j]? = some later) (hle : i ≤ j) :
    lexeme.span.start ≤ later.span.start ∧ lexeme.span.stop ≤ later.span.stop := by
  obtain ⟨hi, rfl⟩ := List.getElem?_eq_some_iff.mp hi
  obtain ⟨hj, rfl⟩ := List.getElem?_eq_some_iff.mp hj
  rcases Nat.lt_or_eq_of_le hle with hlt | rfl
  · exact List.pairwise_iff_getElem.mp hordered i j _ _ hlt
  · exact ⟨Nat.le_refl _, Nat.le_refl _⟩

namespace Span

/-- The span over two spans begins with the first of their lexemes and ends with the last. -/
theorem Reaches.merge (hordered : Lexeme.Ordered lexemes) {i j k l : Nat}
    (ha : a.Reaches lexemes i j) (hb : b.Reaches lexemes k l) :
    (a.merge b).Reaches lexemes (min i k) (max j l) := by
  obtain ⟨first, last, hi, hj, rfl⟩ := ha
  obtain ⟨first', last', hk, hl, rfl⟩ := hb
  obtain ⟨begins, hbegins, hstart⟩ : ∃ begins, lexemes[min i k]? = some begins ∧
      min first.span.start first'.span.start = begins.span.start := by
    rcases Nat.le_total i k with hle | hle
    · exact ⟨first, by rwa [Nat.min_eq_left hle], Nat.min_eq_left (hordered.le hi hk hle).1⟩
    · exact ⟨first', by rwa [Nat.min_eq_right hle], Nat.min_eq_right (hordered.le hk hi hle).1⟩
  obtain ⟨ends, hends, hstop⟩ : ∃ ends, lexemes[max j l]? = some ends ∧
      max last.span.stop last'.span.stop = ends.span.stop := by
    rcases Nat.le_total j l with hle | hle
    · exact ⟨last', by rwa [Nat.max_eq_right hle], Nat.max_eq_right (hordered.le hj hl hle).2⟩
    · exact ⟨last, by rwa [Nat.max_eq_left hle], Nat.max_eq_left (hordered.le hl hj hle).2⟩
  exact ⟨begins, ends, hbegins, hends, congrArg₂ Span.mk hstart hstop⟩

theorem SamePlaces.merge (hordered : Lexeme.Ordered lexemes) (hordered' : Lexeme.Ordered lexemes')
    (ha : a.SamePlaces lexemes lexemes' a') (hb : b.SamePlaces lexemes lexemes' b') :
    (a.merge b).SamePlaces lexemes lexemes' (a'.merge b') := by
  obtain ⟨i, j, hij, hij'⟩ := ha
  obtain ⟨k, l, hkl, hkl'⟩ := hb
  exact ⟨min i k, max j l, hij.merge hordered hkl, hij'.merge hordered' hkl'⟩

end Span

namespace Registry

variable {registry : Registry} {source source' : Text}

/-- All answers for a text that is split without errors, up to the end of input. -/
theorem begins_withEnd (hsource : registry.Tokenizes source lexemes) :
    registry.Begins source (source.withEnd lexemes) := by
  intro n lexeme hlexeme
  have hanswer := @answer_eq_of_lexes _ source lexemes 0 hsource n
  rw [Nat.zero_add] at hanswer
  rw [hanswer]
  rcases Nat.lt_or_ge n lexemes.length with hlt | hge
  · rw [Text.withEnd, List.getElem?_append_left hlt] at hlexeme
    rw [hlexeme, Option.getD_some]
  · rw [Text.withEnd, List.getElem?_append_right hge, List.getElem?_singleton] at hlexeme
    split at hlexeme
    · rw [List.getElem?_eq_none hge, Option.getD_none, Option.some.inj hlexeme]
    · exact nomatch hlexeme

/-! ## Look-ups -/

/-- Names of one lower case stand for the same definition. -/
theorem find?_eq_of_sameName {role : Role} {name name' : Text} (hname : SameName name name') :
    registry.find? role name = registry.find? role name' := by
  rw [find?_eq_bind, find?_eq_bind, hname]

theorem likens_sameName {spans : Span → Span → Prop}
    (hmerge : ∀ {a a' b b' : Span}, spans a a' → spans b b' → spans (a.merge b) (a'.merge b'))
    (registry : Registry) : registry.Likens SameName spans Eq registry := by
  have hself : registry.Likens Eq spans Eq registry := .refl hmerge registry
  constructor
  case merge => exact hmerge
  case zero => rfl
  case binary =>
    intro name name' hname
    rw [findBinary?_eq_of_find?_eq (find?_eq_of_sameName hname)]
    exact hself.binary rfl
  case prefixed =>
    intro name name' hname
    rw [findUnary?_eq_of_find?_eq (find?_eq_of_sameName hname)]
    exact hself.prefixed rfl
  case postfixed =>
    intro name name' hname
    rw [findUnary?_eq_of_find?_eq (find?_eq_of_sameName hname)]
  case function =>
    intro name name' hname
    rw [findFunction?_eq_of_find?_eq (find?_eq_of_sameName hname)]
    exact hself.function rfl

/-! ## Texts -/

/-- Where the tokens are alike, the streams are so with the spans between lexemes. -/
theorem stream_alike_of_sameTokens (hreach : registry.Reachable)
    (hsource : registry.Tokenizes source lexemes) (hother : registry.Tokenizes source' lexemes')
    (htokens : List.Forall₂ (Token.Alike SameName) (lexemes.map (·.token))
      (lexemes'.map (·.token))) :
    (LexemeStream.ofText registry source).Alike SameName
      (Span.SamePlaces (source.withEnd lexemes) (source'.withEnd lexemes'))
      (LexemeStream.ofText registry source') := by
  rw [List.forall₂_map_left_iff, List.forall₂_map_right_iff] at htokens
  have hlength := htokens.length_eq
  rw [(LexemeStream.ofText_eq_iff hreach).mpr hsource,
    (LexemeStream.ofText_eq_iff hreach).mpr hother]
  apply LexemeStream.alike_of_forall₂
  · refine List.forall₂_iff_get.mpr ⟨hlength, fun i hi hi' => ?_⟩
    have hthere : (source.withEnd lexemes)[i]? = some (lexemes.get ⟨i, hi⟩) :=
      (List.getElem?_append_left hi).trans (List.getElem?_eq_getElem hi)
    have hthere' : (source'.withEnd lexemes')[i]? = some (lexemes'.get ⟨i, hi'⟩) :=
      (List.getElem?_append_left hi').trans (List.getElem?_eq_getElem hi')
    exact ⟨htokens.get hi hi', i, i, ⟨_, _, hthere, hthere, rfl⟩, ⟨_, _, hthere', hthere', rfl⟩⟩
  · refine ⟨lexemes.length, lexemes.length, ?_, ?_⟩
    · exact ⟨_, _, List.getElem?_concat_length, List.getElem?_concat_length, rfl⟩
    · rw [hlength]
      exact ⟨_, _, List.getElem?_concat_length, List.getElem?_concat_length, rfl⟩

/-- **Parsing and evaluation see tokens only, and names in lower case.**  If two texts are
split without errors into tokens that are alike one by one, then under every limit they are
parsed to trees that are alike, or rejected with errors of one kind that stand from and to
lexemes of the same numbers.  Trees that are alike have the same value, or errors that are
alike. -/
theorem results_of_sameTokens (hreach : registry.Reachable)
    (hsource : registry.Tokenizes source lexemes) (hother : registry.Tokenizes source' lexemes')
    (htokens : List.Forall₂ (Token.Alike SameName) (lexemes.map (·.token))
      (lexemes'.map (·.token))) (limit : Nat) :
    ResultAlike
      (ParseError.Alike SameName
        (Span.SamePlaces (source.withEnd lexemes) (source'.withEnd lexemes')) source source')
      (fun e e' => e.Alike SameName e' ∧
        ResultAlike (EvalError.Alike SameName) Eq (registry.evaluate e) (registry.evaluate e'))
      (registry.parse limit source) (registry.parse limit source') := by
  have hstream := stream_alike_of_sameTokens hreach hsource hother htokens
  have hmerge {a a' b b' : Span} := @Span.SamePlaces.merge _ _ a a' b b'
    (begins_withEnd hsource).ordered (begins_withEnd hother).ordered
  have hresults := parse_alike (likens_sameName hmerge registry) hstream limit
  generalize registry.parse limit source = result,
    registry.parse limit source' = result' at hresults
  cases hresults with
  | ok htree =>
      exact .ok ⟨htree, evaluate_of_renames find?_eq_of_sameName id htree.renames⟩
  | error herror => exact .error herror

/-- A function and an operator in two cases, with blanks at other places. -/
theorem results_of_sameTokens_max :
    standard.Tokenizes "MAX(7,8) Mod 5".toList
        [⟨.function "MAX".toList, ⟨0, 3⟩⟩, ⟨.leftParen, ⟨3, 4⟩⟩, ⟨.number (.ofInt 7), ⟨4, 5⟩⟩,
          ⟨.comma, ⟨5, 6⟩⟩, ⟨.number (.ofInt 8), ⟨6, 7⟩⟩, ⟨.rightParen, ⟨7, 8⟩⟩,
          ⟨.operator "Mod".toList, ⟨9, 12⟩⟩, ⟨.number (.ofInt 5), ⟨13, 14⟩⟩] ∧
      standard.Tokenizes "max (7, 8)mod 5".toList
        [⟨.function "max".toList, ⟨0, 3⟩⟩, ⟨.leftParen, ⟨4, 5⟩⟩, ⟨.number (.ofInt 7), ⟨5, 6⟩⟩,
          ⟨.comma, ⟨6, 7⟩⟩, ⟨.number (.ofInt 8), ⟨8, 9⟩⟩, ⟨.rightParen, ⟨9, 10⟩⟩,
          ⟨.operator "mod".toList, ⟨10, 13⟩⟩, ⟨.number (.ofInt 5), ⟨14, 15⟩⟩] ∧
      ∃ e e', standard.parse 3 "MAX(7,8) Mod 5".toList = .ok e ∧
        standard.parse 3 "max (7, 8)mod 5".toList = .ok e' ∧ e.Alike SameName e' ∧
        standard.evaluate e = .ok (.ofInt 3) ∧ standard.evaluate e' = .ok (.ofInt 3) := by
  have hsource : standard.Tokenizes "MAX(7,8) Mod 5".toList
      [⟨.function "MAX".toList, ⟨0, 3⟩⟩, ⟨.leftParen, ⟨3, 4⟩⟩, ⟨.number (.ofInt 7), ⟨4, 5⟩⟩,
        ⟨.comma, ⟨5, 6⟩⟩, ⟨.number (.ofInt 8), ⟨6, 7⟩⟩, ⟨.rightParen, ⟨7, 8⟩⟩,
        ⟨.operator "Mod".toList, ⟨9, 12⟩⟩, ⟨.number (.ofInt 5), ⟨13, 14⟩⟩] :=
    (LexemeStream.ofText_eq_iff reachable_standard).mp (by decide +kernel)
  have hother : standard.Tokenizes "max (7, 8)mod 5".toList
      [⟨.function "max".toList, ⟨0, 3⟩⟩, ⟨.leftParen, ⟨4, 5⟩⟩, ⟨.number (.ofInt 7), ⟨5, 6⟩⟩,
        ⟨.comma, ⟨6, 7⟩⟩, ⟨.number (.ofInt 8), ⟨8, 9⟩⟩, ⟨.rightParen, ⟨9, 10⟩⟩,
        ⟨.operator "mod".toList, ⟨10, 13⟩⟩, ⟨.number (.ofInt 5), ⟨14, 15⟩⟩] :=
    (LexemeStream.ofText_eq_iff reachable_standard).mp (by decide +kernel)
  have hmax : SameName "MAX".toList "max".toList := by
    unfold SameName
    decide +kernel
  have hmod : SameName "Mod".toList "mod".toList := by
    unfold SameName
    decide +kernel
  have htokens := results_of_sameTokens reachable_standard hsource hother
    (.cons (.function hmax) (.cons .leftParen (.cons (.number _) (.cons .comma (.cons (.number _)
      (.cons .rightParen (.cons (.operator hmod) (.cons (.number _) .nil))))))))
  obtain ⟨e, hparse, hvalue⟩ : ∃ e, standard.parse 3 "MAX(7,8) Mod 5".toList = .ok e ∧
      standard.evaluate e = .ok (.ofInt 3) :=
    ⟨.binary (.call "MAX".toList [.number (.ofInt 7), .number (.ofInt 8)]) "Mod".toList
      (.number (.ofInt 5)), by decide +kernel, by decide +kernel⟩
  have hresults := htokens 3
  rw [hparse] at hresults
  generalize standard.parse 3 "max (7, 8)mod 5".toList = result at hresults ⊢
  cases hresults with
  | @ok _ e' hok =>
      obtain ⟨halike, hvalues⟩ := hok
      rw [hvalue] at hvalues
      exact ⟨hsource, hother, e, e', hparse, rfl, halike, hvalue, hvalues.eq_ok⟩

end Registry

end Reckoner
