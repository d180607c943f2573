import BlockScript.Text.Quoted
import BlockScript.Text.DecimalDigit
import BlockScript.Text.InFiles
import BlockScript.Decimal.Arithmetic
import BlockScript.Decimal.Shortest
import BlockScript.Scalar
import BlockScript.Grammar.Source
import BlockScript.Json.Basic
import BlockScript.Tree.Reading
import BlockScript.Tree.Writing
import BlockScript.Json.Layout
import BlockScript.Json.Reader
import BlockScript.Computation
import BlockScript.Trace
import BlockScript.Value.Walk
import BlockScript.Scope.Chain
import BlockScript.Scope.Forest
import BlockScript.Typing.Program
import BlockScript.Program
import BlockScript.Main
import BlockScript.Proofs.Grammar.Derivation
import BlockScript.Proofs.Grammar.Soundness
import BlockScript.Proofs.Grammar.Completeness
import BlockScript.Proofs.Grammar.Exactness
import BlockScript.Proofs.Agreement.Resolution
import BlockScript.Proofs.Running.Acyclicity
import BlockScript.Proofs.Running.Scopes
import BlockScript.Proofs.Typing.Adequacy
import BlockScript.Proofs.Tree.RoundTrip
import BlockScript.Proofs.Agreement.Bindings
import BlockScript.Proofs.Agreement.Soundness
import BlockScript.Proofs.Grammar.Answers
import BlockScript.Proofs.Grammar.Promptness
import BlockScript.Proofs.Grammar.PromptRules
import BlockScript.Proofs.Grammar.Prefixes
import BlockScript.Proofs.Alongside
import BlockScript.Proofs.Running.Likeness
import BlockScript.Proofs.Running.Returning
import BlockScript.Proofs.Grammar.Numerals
import BlockScript.Proofs.Grammar.Placement
import BlockScript.Proofs.Typing.Refusals
import BlockScript.Proofs.Running.Plainness
import BlockScript.Proofs.Running.Tameness
import BlockScript.Proofs.Programs.Containment
import BlockScript.Proofs.Programs.Regular
import BlockScript.Proofs.Token.Pattern
import BlockScript.Proofs.Token.Longest
import BlockScript.Proofs.Token.Splitting
import BlockScript.Proofs.Token.Prefixes
import BlockScript.Proofs.Decimal.Fractional
import BlockScript.Proofs.Grammar.Literals
import BlockScript.Proofs.Scope.Contents
import BlockScript.Proofs.Running.Twins
import BlockScript.Proofs.Running.Holdings
import BlockScript.Proofs.Programs.Halves
import BlockScript.Proofs.Programs.Levels
import BlockScript.Proofs.Programs.Fractions
import BlockScript.Proofs.Decimal.Division
import BlockScript.Proofs.Grammar.Relocation
import BlockScript.Proofs.Token.LineEnds
import BlockScript.Proofs.Programs.Files
import BlockScript.Proofs.Running.Closure
import BlockScript.Proofs.Running.Reordering
import BlockScript.Proofs.Programs.DeclarationOrder
import BlockScript.Proofs.Typing.Silence
import BlockScript.Proofs.Running.Silence
import BlockScript.Proofs.Programs.Silence
import BlockScript.Proofs.Decimal.Precision
import BlockScript.Proofs.Running.Comparison
import BlockScript.Proofs.Grammar.Quoting
import BlockScript.Proofs.Running.Choices
import BlockScript.Proofs.Token.Tiling
import BlockScript.Proofs.Token.Places
import BlockScript.Proofs.Token.Spacing
import BlockScript.Proofs.Typing.Steps
import BlockScript.Proofs.Typing.Context
import BlockScript.Proofs.Typing.Returns
import BlockScript.Proofs.Scope.Forests
import BlockScript.Proofs.Scope.Sessions
import BlockScript.Proofs.Scope.Histories
import BlockScript.Proofs.Value.Symmetry
import BlockScript.Proofs.Value.Endings
import BlockScript.Proofs.Grammar.Unbounded
import BlockScript.Proofs.Grammar.Rounds
import BlockScript.Proofs.Grammar.Progress
