import Reckoner.Expr.Equality
import Reckoner.Proofs.Parser.Execution

/-!
# Soundness of the parser

The parser accepts nothing that the grammar does not derive, and the tree that it
gives is the tree of a derivation.  The parser is first compared with greedy
reading (`Registry.parse_eq_ok_iff`), and greedy reading is one way to derive
(`Reads.derives`); the yield of a derivation does the rest.
-/

namespace Reckoner

/-- **Soundness and yield.**  Where a text is read as a tree, all tokens of the
text together are derived from the grammar with this tree, and the tree holds the
numbers, operators and functions among them, each once, in their order and as
they are written. -/
theorem Registry.derives_of_parse {registry : Registry} (hreach : registry.Reachable)
    {limit : Nat} {source : Text} {e : Expr} (hparse : registry.parse limit source = .ok e) :
    ∃ lexemes, registry.Tokenizes source lexemes ∧
      registry.Derives (.expression 0 e) (lexemes.map (·.token)) ∧
      e.tokens = (lexemes.map (·.token)).filter Token.isContent := by
  obtain ⟨lexemes, hlexes, hreads, _⟩ := (Registry.parse_eq_ok_iff hreach).mp hparse
  have hderives := hreads.derives_append
  exact ⟨lexemes, hlexes, hderives, hderives.tokens_expression⟩

/-- A prefix operator, a power, a call and a postfix operator in one text. -/
theorem Registry.derives_of_parse_power :
    ∃ lexemes e, Registry.standard.Tokenizes "-2 ^ MAX(1,000, 3)!".toList lexemes ∧
      Registry.standard.Derives (.expression 0 e) (lexemes.map (·.token)) ∧
      e.tokens = (lexemes.map (·.token)).filter Token.isContent := by
  have hparse : Registry.standard.parse 4 "-2 ^ MAX(1,000, 3)!".toList =
      .ok (.binary (.prefixed "-".toList (.number (.ofInt 2))) "^".toList
        (.postfixed (.call "MAX".toList [.number (.ofInt 1000), .number (.ofInt 3)])
          "!".toList)) := by
    decide +kernel
  obtain ⟨lexemes, hresult⟩ := Registry.derives_of_parse reachable_standard hparse
  exact ⟨lexemes, _, hresult⟩

end Reckoner
