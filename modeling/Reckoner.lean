import Reckoner.Calculator
import Reckoner.Config.Basic
import Reckoner.Config.Json
import Reckoner.Config.Standard
import Reckoner.Evaluation
import Reckoner.Expr.Basic
import Reckoner.Expr.Equality
import Reckoner.Expr.Json
import Reckoner.Json.Basic
import Reckoner.Json.Decode
import Reckoner.Json.Literal
import Reckoner.Json.Number
import Reckoner.Json.Reader
import Reckoner.Json.Writer
import Reckoner.Lexer.Basic
import Reckoner.Lexer.Numeral
import Reckoner.Lexer.Stream
import Reckoner.Number.Arithmetic
import Reckoner.Number.Basic
import Reckoner.Number.Bits
import Reckoner.Number.Decimal
import Reckoner.Number.Exponential
import Reckoner.Number.Fixed
import Reckoner.Number.Integer
import Reckoner.Number.Layout
import Reckoner.Number.Logarithm
import Reckoner.Number.Power
import Reckoner.Parser.Basic
import Reckoner.Parser.Error
import Reckoner.Parser.Options
import Reckoner.Proofs.Config.Building
import Reckoner.Proofs.Config.RoundTrip
import Reckoner.Proofs.Config.Standard
import Reckoner.Proofs.Evaluation.Applications
import Reckoner.Proofs.Evaluation.PostOrder
import Reckoner.Proofs.Evaluation.Renaming
import Reckoner.Proofs.Evaluation.Resolution
import Reckoner.Proofs.Evaluation.Undefined
import Reckoner.Proofs.Expr.RoundTrip
import Reckoner.Proofs.Json.Literals
import Reckoner.Proofs.Json.Numbers
import Reckoner.Proofs.Json.Records
import Reckoner.Proofs.Json.Spelling
import Reckoner.Proofs.Lexer.Context
import Reckoner.Proofs.Lexer.Insertion
import Reckoner.Proofs.Lexer.LongestMatch
import Reckoner.Proofs.Lexer.Numerals
import Reckoner.Proofs.Lexer.OperatorNames
import Reckoner.Proofs.Lexer.Positions
import Reckoner.Proofs.Lexer.Rendering
import Reckoner.Proofs.Lexer.Replacement
import Reckoner.Proofs.Lexer.Requests
import Reckoner.Proofs.Lexer.Scan
import Reckoner.Proofs.Lexer.Splitting
import Reckoner.Proofs.Lexer.Tiling
import Reckoner.Proofs.Lexer.Tokens
import Reckoner.Proofs.Lexer.Vocabulary
import Reckoner.Proofs.Number.Nearest
import Reckoner.Proofs.Number.ReadBack
import Reckoner.Proofs.Number.Rounding
import Reckoner.Proofs.Parser.Acceptance
import Reckoner.Proofs.Parser.Agreement
import Reckoner.Proofs.Parser.Aliases
import Reckoner.Proofs.Parser.Associativity
import Reckoner.Proofs.Parser.CaseFolding
import Reckoner.Proofs.Parser.Chains
import Reckoner.Proofs.Parser.Completeness
import Reckoner.Proofs.Parser.Depth
import Reckoner.Proofs.Parser.Endings
import Reckoner.Proofs.Parser.Errors
import Reckoner.Proofs.Parser.Execution
import Reckoner.Proofs.Parser.Extension
import Reckoner.Proofs.Parser.Grammar
import Reckoner.Proofs.Parser.Interchange
import Reckoner.Proofs.Parser.Leaves
import Reckoner.Proofs.Parser.Levels
import Reckoner.Proofs.Parser.Likeness
import Reckoner.Proofs.Parser.Nesting
import Reckoner.Proofs.Parser.Operands
import Reckoner.Proofs.Parser.Outcome
import Reckoner.Proofs.Parser.Pacing
import Reckoner.Proofs.Parser.Parentheses
import Reckoner.Proofs.Parser.Places
import Reckoner.Proofs.Parser.Reading
import Reckoner.Proofs.Parser.Relevelling
import Reckoner.Proofs.Parser.Resolution
import Reckoner.Proofs.Parser.Reuse
import Reckoner.Proofs.Parser.RoundTrip
import Reckoner.Proofs.Parser.Run
import Reckoner.Proofs.Parser.Simulation
import Reckoner.Proofs.Parser.Soundness
import Reckoner.Proofs.Parser.Spacing
import Reckoner.Proofs.Parser.Substitution
import Reckoner.Proofs.Parser.Termination
import Reckoner.Proofs.Parser.Truncation
import Reckoner.Proofs.Parser.Unbounded
import Reckoner.Proofs.Parser.Usability
import Reckoner.Proofs.Parser.Watched
import Reckoner.Proofs.Registry.Coherence
import Reckoner.Proofs.Registry.History
import Reckoner.Proofs.Registry.Identifiers
import Reckoner.Proofs.Registry.Permutation
import Reckoner.Proofs.Registry.Reachable
import Reckoner.Proofs.Registry.Registration
import Reckoner.Proofs.Registry.Steps
import Reckoner.Proofs.Rules.Rounding
import Reckoner.Proofs.Rules.Words
import Reckoner.Proofs.Snippet.Columns
import Reckoner.Proofs.Snippet.Marker
import Reckoner.Proofs.Text.Casing
import Reckoner.Proofs.Text.Columns
import Reckoner.Proofs.Text.Lowering
import Reckoner.Proofs.Text.Order
import Reckoner.Registry.Basic
import Reckoner.Registry.Definition
import Reckoner.Registry.Index
import Reckoner.Registry.Name
import Reckoner.Registry.Standard
import Reckoner.Rules.Basic
import Reckoner.Rules.Catalog
import Reckoner.Snippet
import Reckoner.Span
import Reckoner.Text.Alphabetic
import Reckoner.Text.Basic
import Reckoner.Text.Blank
import Reckoner.Text.Cased
import Reckoner.Text.CodeTable
import Reckoner.Text.Lowering
import Reckoner.Token
