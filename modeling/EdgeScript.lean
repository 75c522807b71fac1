import EdgeScript.Main
import EdgeScript.Proofs.Meaning.Run
import EdgeScript.Proofs.Pass
import EdgeScript.CommandLine.Perform
import EdgeScript.Proofs.Folding.Meaning
import EdgeScript.Proofs.Meaning.Collection
import EdgeScript.Proofs.Unrolling.Round
import EdgeScript.Proofs.Unrolling.Steps
import EdgeScript.Proofs.Unrolling.Lookup
import EdgeScript.Proofs.Unrolling.Meaning
import EdgeScript.Proofs.Unrolling.Path
import EdgeScript.Proofs.Unrolling.Known
import EdgeScript.Proofs.Inlining.Order
import EdgeScript.Proofs.Inlining.Expand
import EdgeScript.Proofs.Inlining.Meaning
import EdgeScript.Proofs.Import.Walk
import EdgeScript.Proofs.Import.Serving
import EdgeScript.Proofs.Import.Marks
import EdgeScript.Proofs.Import.Splice
import EdgeScript.Proofs.Leftover.Place
import EdgeScript.Proofs.Leftover.Grammar
import EdgeScript.Proofs.Leftover.Expansion
import EdgeScript.Proofs.Leftover.Rewriting
import EdgeScript.Proofs.Leftover.Lowering
import EdgeScript.Proofs.Leftover.Generation
import EdgeScript.Proofs.Rendering.Plain
import EdgeScript.Proofs.Rendering.Reader
import EdgeScript.Proofs.Rendering.Unambiguous
import EdgeScript.Proofs.Import.Once
import EdgeScript.Proofs.Stages
import EdgeScript.Proofs.Rule.Rewriting
import EdgeScript.Proofs.Rule.Lowering
import EdgeScript.Proofs.Reading.Expr
import EdgeScript.Proofs.Reading.Stmt
import EdgeScript.Proofs.Captures.Binding
import EdgeScript.Proofs.Attributes.Quotes
import EdgeScript.Proofs.Calls.Guard
import EdgeScript.Proofs.Calls.Standing
import EdgeScript.Proofs.Calls.Refusal
import EdgeScript.Proofs.Output.Tags
import EdgeScript.Proofs.Folding.Normal
import EdgeScript.Proofs.Lowering.Form
import EdgeScript.Proofs.Lowering.Idempotent
import EdgeScript.Proofs.Printing.RoundTrip
import EdgeScript.Proofs.Folding.Again
import EdgeScript.Proofs.Unrolling.Depth
import EdgeScript.Proofs.Unrolling.Folded
import EdgeScript.Proofs.Unrolling.Limit
import EdgeScript.Proofs.Positions.Located
import EdgeScript.Proofs.Captures.Misplaced
import EdgeScript.Proofs.Positions.Text
import EdgeScript.Proofs.Output.Related
import EdgeScript.Proofs.Positions.Grammar
import EdgeScript.Proofs.Positions.Lowering
import EdgeScript.Proofs.Positions.Writing
import EdgeScript.Proofs.Positions.Reported
import EdgeScript.Proofs.Lowering.Limit
import EdgeScript.Proofs.Parts
import EdgeScript.Proofs.Occurrence
import EdgeScript.Proofs.Captures.Scope
import EdgeScript.Proofs.Inlining.Cycle
import EdgeScript.Proofs.Inlining.Termination
import EdgeScript.Proofs.Inlining.Complete
import EdgeScript.Proofs.Inlining.TwoRuns
import EdgeScript.Proofs.Inlining.Folded
import EdgeScript.Proofs.Printing.Quoted
import EdgeScript.Proofs.Output.Escapes
import EdgeScript.Proofs.Output.Sums
import EdgeScript.Proofs.Inlining.Outside
import EdgeScript.Proofs.Inlining.LastDeclaration
import EdgeScript.Proofs.Lexing.Gap
import EdgeScript.Proofs.Lexing.Word
import EdgeScript.Proofs.Lexing.Tiling
import EdgeScript.Proofs.Lexing.Layout
import EdgeScript.Proofs.Lexing.Progress
import EdgeScript.Proofs.Parsing.Descent
import EdgeScript.Proofs.Parsing.Expr
import EdgeScript.Proofs.Parsing.Stmt
import EdgeScript.Proofs.Parsing.Termination
import EdgeScript.Proofs.Literal.Exact
import EdgeScript.Proofs.Import.Failure
import EdgeScript.Proofs.Ranges
import EdgeScript.Proofs.Attributes.Options
import EdgeScript.Proofs.Folding.Substitution
import EdgeScript.Proofs.Positions.Lines
