import TelemetryQuery.Aggregate.Expression
import TelemetryQuery.Field.Json
import TelemetryQuery.Field.Usage
import TelemetryQuery.Filter.Contradiction
import TelemetryQuery.Filter.Lexer
import TelemetryQuery.Filter.Parser
import TelemetryQuery.Filter.Printer
import TelemetryQuery.Filter.Tree
import TelemetryQuery.Filter.Variable
import TelemetryQuery.Having.AggregationText
import TelemetryQuery.Having.Parser
import TelemetryQuery.Having.Substitution
import TelemetryQuery.Json.Printer
import TelemetryQuery.Json.Reader
import TelemetryQuery.Main
import TelemetryQuery.Pattern.Check
import TelemetryQuery.Proofs.Field.KeyText
import TelemetryQuery.Proofs.Filter.Grammar
import TelemetryQuery.Proofs.Filter.Lexer
import TelemetryQuery.Proofs.Filter.Parser
import TelemetryQuery.Proofs.Filter.Printer
import TelemetryQuery.Proofs.Filter.Token
import TelemetryQuery.Proofs.Filter.Tree
import TelemetryQuery.Proofs.Number.Display
import TelemetryQuery.Proofs.Number.Rounding
import TelemetryQuery.Proofs.Schema.Binding
import TelemetryQuery.Proofs.Sql.Builder
import TelemetryQuery.Proofs.Sql.Formula
import TelemetryQuery.Proofs.Text.Quoted
import TelemetryQuery.Proofs.Where.Binding
import TelemetryQuery.Proofs.Where.Placeholder
import TelemetryQuery.Session.Render
import TelemetryQuery.Settings.Json
import TelemetryQuery.Settings.Load
import TelemetryQuery.Settings.Toml
import TelemetryQuery.Sql.Statement
import TelemetryQuery.Text.Word
import TelemetryQuery.Value
import TelemetryQuery.Where.Clause
import TelemetryQuery.Proofs.Where.Reading
import TelemetryQuery.Proofs.Where.Meaning
import TelemetryQuery.Proofs.Where.Resource
import TelemetryQuery.Proofs.Filter.Alternatives
import TelemetryQuery.Proofs.Filter.ValueText
import TelemetryQuery.Proofs.Filter.Pruning
import TelemetryQuery.Proofs.Where.SelectAll
import TelemetryQuery.Proofs.Having.Word
import TelemetryQuery.Proofs.Having.Acceptance
import TelemetryQuery.Proofs.Having.Lexeme
import TelemetryQuery.Proofs.Having.Piece
import TelemetryQuery.Proofs.Having.Shape
import TelemetryQuery.Proofs.Having.Written
import TelemetryQuery.Proofs.Having.Pattern
import TelemetryQuery.Proofs.Having.Overlap
import TelemetryQuery.Proofs.Having.Slot
import TelemetryQuery.Proofs.Having.Pass
import TelemetryQuery.Proofs.Having.Arrangement
import TelemetryQuery.Proofs.Having.ColumnTable
import TelemetryQuery.Proofs.Having.Resolution
import TelemetryQuery.Proofs.Having.AggregationColumns
import TelemetryQuery.Proofs.Sql.Precedence
import TelemetryQuery.Proofs.Sql.Arithmetic
import TelemetryQuery.Proofs.Aggregate.Rate
import TelemetryQuery.Proofs.Having.Replacement
import TelemetryQuery.Proofs.Having.Grammar
import TelemetryQuery.Proofs.Having.Rendering
import TelemetryQuery.Proofs.Field.Resolution
import TelemetryQuery.Proofs.Sql.Plain
import TelemetryQuery.Proofs.Aggregate.Placeholder
import TelemetryQuery.Proofs.Filter.Tiling
import TelemetryQuery.Proofs.Where.Visitor
import TelemetryQuery.Proofs.Where.Dropping
import TelemetryQuery.Proofs.Sql.Comparison
import TelemetryQuery.Proofs.Aggregate.Literal
import TelemetryQuery.Proofs.Filter.Substitution
import TelemetryQuery.Proofs.Filter.Detection
import TelemetryQuery.Proofs.Number.Order
import TelemetryQuery.Proofs.Filter.Range
import TelemetryQuery.Proofs.Filter.Conjunction
import TelemetryQuery.Proofs.Filter.Consistency
import TelemetryQuery.Proofs.Filter.Reordering
import TelemetryQuery.Proofs.Filter.Truth
import TelemetryQuery.Proofs.Filter.TreeShape
import TelemetryQuery.Proofs.Field.Merging
import TelemetryQuery.Proofs.Field.Matching
import TelemetryQuery.Proofs.Filter.Unquoting
import TelemetryQuery.Proofs.Filter.Recovery
import TelemetryQuery.Proofs.Schema.Atomicity
import TelemetryQuery.Proofs.Schema.Casting
import TelemetryQuery.Proofs.Filter.SingleToken
import TelemetryQuery.Proofs.Schema.Quoting
import TelemetryQuery.Proofs.Having.Attribution
import TelemetryQuery.Proofs.Field.EditDistance
import TelemetryQuery.Proofs.Filter.Like
import TelemetryQuery.Proofs.Filter.Spacing
import TelemetryQuery.Proofs.Field.Suggestion
import TelemetryQuery.Proofs.Having.Run
import TelemetryQuery.Proofs.Having.Totality
