import Reckoner.Expr.Equality
import Reckoner.Proofs.Lexer.Replacement
import Reckoner.Proofs.Parser.RoundTrip
import Reckoner.Proofs.Parser.Substitution

/-!
# Parentheses in a text

A text that is an expression can stand in parentheses wherever a number stands in another
one: the tree of the text then takes the place of the number.  What surrounds the number
plays no part, neither the characters next to it nor the operators whose operand it is.

The lexer's part is `splits_replace`, the parser's part `Reads.replaceNumber`.  Between
the two, what is read up to the end of input is read up to a closing parenthesis as well
(`reads_group`).

Parentheses open one expression more.  A number that gives way to an expression lies
inside those that are open around it, so the limits of both texts together are enough.
-/

namespace Reckoner

/-- How many of some lexemes are numbers. -/
def countNumbers (lexemes : List Lexeme) : Nat :=
  (Token.numbers (lexemes.map (·.token))).length

namespace Registry

variable {registry : Registry} {limit limit' : Nat} {source text : Text} {e u : Expr}
  {tokens : List Token}

/-- What is a whole expression is an operand in parentheses. -/
theorem reads_group
    (hreads : registry.Reads limit (.expression 0 e) (tokens ++ [.endOfInput]) [.endOfInput])
    (token : Token) (later : List Token) :
    registry.Reads limit (.operand e) (.leftParen :: (tokens ++ .rightParen :: token :: later))
      (token :: later) := by
  have hexchange : Exchange [.endOfInput] (.rightParen :: token :: later) :=
    .stop (by simp) (by simp) (by simp)
  exact .group (hreads.exchange hexchange)

/-- A text that is split into tokens which are read as a tree. -/
theorem parse_of_splits (hreach : registry.Reachable) (hsplits : registry.Splits source tokens)
    (hreads : registry.Reads limit (.expression 0 e) (tokens ++ [.endOfInput]) [.endOfInput])
    (hdepth : e.depth ≤ limit) : registry.parse limit source = .ok e := by
  obtain ⟨lexemes, htokenizes, rfl⟩ := tokenizes_of_splits hsplits
  exact (parse_eq_ok_iff hreach).mpr ⟨lexemes, htokenizes, hreads, hdepth⟩

/-- Whatever its lexemes are, those of a parsed text are read as its tree. -/
theorem reads_of_tokenizes (hreach : registry.Reachable) {lexemes : List Lexeme}
    (hparse : registry.parse limit source = .ok e) (hlexes : registry.Tokenizes source lexemes) :
    registry.Reads limit (.expression 0 e) (lexemes.map (·.token) ++ [.endOfInput])
      [.endOfInput] := by
  have htokens := (LexemeStream.tokens_ofText_eq_iff hreach).mpr ⟨lexemes, hlexes, rfl⟩
  exact htokens ▸ (reads_of_parse hparse).1

theorem parse_parenthesized (hreach : registry.Reachable)
    (hparse : registry.parse limit source = .ok e) :
    registry.parse (limit + 1) ('(' :: (source ++ [')'])) = .ok e := by
  obtain ⟨lexemes, hlexes, hreads, hdepth⟩ := (parse_eq_ok_iff hreach).mp hparse
  have hinner := (splitsBefore_of_lexes hreach hlexes).before_delimiter hreach .rightParen []
  have hsplits := splits_leftParen (hinner.splits (splits_rightParen splits_nil))
  refine parse_of_splits hreach hsplits ?_ (by omega)
  have hgroup : registry.Reads (limit + 1) (.expression 0 e) _ [.endOfInput] :=
    reads_expression (reads_group hreads .endOfInput []) (by simp)
  simpa using hgroup

theorem parse_replaceNumber (hreach : registry.Reachable)
    (hsource : registry.parse limit source = .ok e) (htext : registry.parse limit' text = .ok u)
    {before after : List Lexeme} {value : Number} {span : Span}
    (hlexes : registry.Tokenizes source (before ++ ⟨.number value, span⟩ :: after)) {larger : Nat}
    (hlarger : limit + limit' ≤ larger) :
    registry.parse larger (source.replace span ('(' :: (text ++ [')']))) =
      .ok (e.replaceNumber (countNumbers before) u) := by
  obtain ⟨lexemes, htokenizes, hinner, hinnerDepth⟩ := (parse_eq_ok_iff hreach).mp htext
  obtain ⟨_, hdepth⟩ := reads_of_parse hsource
  have hsplits := splits_replace hreach hlexes htokenizes
  refine parse_of_splits hreach hsplits ?_ ?_
  · have hreads := reads_of_tokenizes hreach hsource hlexes
    rw [List.map_append, List.map_cons, List.append_assoc, List.cons_append] at hreads
    -- a budget for the number, and another one for the text that takes its place
    have hgroup (budget : Nat) (token : Token) (later : List Token) :
        registry.Reads (limit' + budget) (.operand u)
          (.leftParen :: (lexemes.map (·.token) ++ [.rightParen] ++ token :: later))
          (token :: later) := by
      have hreads := (reads_group hinner token later).mono (Nat.le_add_right limit' budget)
      rwa [List.append_assoc]
    have hreplaced := (hreads.replaceNumber hgroup).mono (show limit' + limit ≤ larger by omega)
    simpa [Phrase.replaceNumber, countNumbers] using hreplaced
  · have hgrowth := Expr.depth_replaceNumber_le u e (countNumbers before)
    omega

/-- A number of a text is one of its tree, at the same place. -/
theorem numbers_getElem? (hreach : registry.Reachable)
    (hparse : registry.parse limit source = .ok e) {before after : List Lexeme} {value : Number}
    {span : Span}
    (hlexes : registry.Tokenizes source (before ++ ⟨.number value, span⟩ :: after)) :
    e.numbers[countNumbers before]? = some value := by
  have hnumbers : e.numbers = Token.numbers ((before ++ ⟨.number value, span⟩ :: after).map
      (·.token)) := (reads_of_tokenizes hreach hparse hlexes).numbers_eq
  rw [hnumbers, countNumbers, List.map_append, List.map_cons, Token.numbers_append,
    Token.numbers_number]
  simp

/-- **Parenthesized substitution.**  If the text of a number of an expression is replaced
by another expression in parentheses, then the result is an expression under every limit
from the sum of both limits on.  Its tree is that of the first text with the tree of the
second one in the place of the number.  A text in parentheses is read as without them,
with one level more. -/
theorem parse_replace (hreach : registry.Reachable)
    (hsource : registry.parse limit source = .ok e) (htext : registry.parse limit' text = .ok u) :
    (∀ before value span after,
      registry.Tokenizes source (before ++ ⟨.number value, span⟩ :: after) →
        e.numbers[countNumbers before]? = some value ∧
          ∀ larger, limit + limit' ≤ larger →
            registry.parse larger (source.replace span ('(' :: (text ++ [')']))) =
              .ok (e.replaceNumber (countNumbers before) u)) ∧
    registry.parse (limit + 1) ('(' :: (source ++ [')'])) = .ok e := by
  constructor
  · intro before value span after hlexes
    refine ⟨numbers_getElem? hreach hsource hlexes, fun larger hlarger => ?_⟩
    exact parse_replaceNumber hreach hsource htext hlexes hlarger
  · exact parse_parenthesized hreach hsource

/-- The last argument of a call, whose comma could separate groups of digits, gives way to
a power. -/
theorem parse_replace_argument :
    standard.Tokenizes "MAX(1,2345)".toList
        ([⟨.function "MAX".toList, ⟨0, 3⟩⟩, ⟨.leftParen, ⟨3, 4⟩⟩, ⟨.number (.ofInt 1), ⟨4, 5⟩⟩,
          ⟨.comma, ⟨5, 6⟩⟩] ++ ⟨.number (.ofInt 2345), ⟨6, 10⟩⟩ :: [⟨.rightParen, ⟨10, 11⟩⟩]) ∧
      standard.parse 4 (Text.replace "MAX(1,2345)".toList ⟨6, 10⟩
          ('(' :: ("2^3".toList ++ [')']))) =
        .ok (.call "MAX".toList [.number (.ofInt 1),
          .binary (.number (.ofInt 2)) "^".toList (.number (.ofInt 3))]) ∧
      standard.parse 3 ('(' :: ("MAX(1,2345)".toList ++ [')'])) =
        .ok (.call "MAX".toList [.number (.ofInt 1), .number (.ofInt 2345)]) := by
  have hsource : standard.parse 2 "MAX(1,2345)".toList =
      .ok (.call "MAX".toList [.number (.ofInt 1), .number (.ofInt 2345)]) := by
    decide +kernel
  have htext : standard.parse 2 "2^3".toList =
      .ok (.binary (.number (.ofInt 2)) "^".toList (.number (.ofInt 3))) := by
    decide +kernel
  have hname : Cursor.next standard ⟨"MAX(1,2345)".toList, 0, "MAX(1,2345)".toList⟩ =
      (.ok ⟨.function "MAX".toList, ⟨0, 3⟩⟩, ⟨"MAX(1,2345)".toList, 3, "(1,2345)".toList⟩) := by
    decide +kernel
  have hopening : Cursor.next standard ⟨"MAX(1,2345)".toList, 3, "(1,2345)".toList⟩ =
      (.ok ⟨.leftParen, ⟨3, 4⟩⟩, ⟨"MAX(1,2345)".toList, 4, "1,2345)".toList⟩) := by
    decide +kernel
  have hfirst : Cursor.next standard ⟨"MAX(1,2345)".toList, 4, "1,2345)".toList⟩ =
      (.ok ⟨.number (.ofInt 1), ⟨4, 5⟩⟩, ⟨"MAX(1,2345)".toList, 5, ",2345)".toList⟩) := by
    decide +kernel
  have hcomma : Cursor.next standard ⟨"MAX(1,2345)".toList, 5, ",2345)".toList⟩ =
      (.ok ⟨.comma, ⟨5, 6⟩⟩, ⟨"MAX(1,2345)".toList, 6, "2345)".toList⟩) := by
    decide +kernel
  have hsecond : Cursor.next standard ⟨"MAX(1,2345)".toList, 6, "2345)".toList⟩ =
      (.ok ⟨.number (.ofInt 2345), ⟨6, 10⟩⟩, ⟨"MAX(1,2345)".toList, 10, ")".toList⟩) := by
    decide +kernel
  have hclosing : Cursor.next standard ⟨"MAX(1,2345)".toList, 10, ")".toList⟩ =
      (.ok ⟨.rightParen, ⟨10, 11⟩⟩, ⟨"MAX(1,2345)".toList, 11, []⟩) := by
    decide +kernel
  have hended : Cursor.next standard ⟨"MAX(1,2345)".toList, 11, []⟩ =
      (.ok ⟨.endOfInput, ⟨11, 11⟩⟩, ⟨"MAX(1,2345)".toList, 11, []⟩) := by
    decide +kernel
  have hlexes : standard.Tokenizes "MAX(1,2345)".toList
      ([⟨.function "MAX".toList, ⟨0, 3⟩⟩, ⟨.leftParen, ⟨3, 4⟩⟩, ⟨.number (.ofInt 1), ⟨4, 5⟩⟩,
        ⟨.comma, ⟨5, 6⟩⟩] ++ ⟨.number (.ofInt 2345), ⟨6, 10⟩⟩ :: [⟨.rightParen, ⟨10, 11⟩⟩]) :=
    .lexeme hname (by simp) (.lexeme hopening (by simp) (.lexeme hfirst (by simp)
      (.lexeme hcomma (by simp) (.lexeme hsecond (by simp) (.lexeme hclosing (by simp)
        (.ended hended))))))
  obtain ⟨hreplace, hparenthesized⟩ := parse_replace reachable_standard hsource htext
  obtain ⟨_, hlarger⟩ := hreplace _ _ _ _ hlexes
  have htree : Expr.replaceNumber (.call "MAX".toList [.number (.ofInt 1), .number (.ofInt 2345)])
      (countNumbers [⟨.function "MAX".toList, ⟨0, 3⟩⟩, ⟨.leftParen, ⟨3, 4⟩⟩,
        ⟨.number (.ofInt 1), ⟨4, 5⟩⟩, ⟨.comma, ⟨5, 6⟩⟩])
      (.binary (.number (.ofInt 2)) "^".toList (.number (.ofInt 3))) =
        .call "MAX".toList [.number (.ofInt 1),
          .binary (.number (.ofInt 2)) "^".toList (.number (.ofInt 3))] := by
    decide +kernel
  refine ⟨hlexes, ?_, hparenthesized⟩
  rw [← htree]
  exact hlarger 4 (Nat.le_refl 4)

end Registry

end Reckoner
