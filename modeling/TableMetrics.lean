import TableMetrics.Json.Reader
import TableMetrics.Logger
import TableMetrics.Service
import TableMetrics.Settings
import TableMetrics.Proofs.Grammar
import TableMetrics.Proofs.Lexer.Cut
import TableMetrics.Proofs.Lexer.Spell
import TableMetrics.Proofs.Parser.Sound
import TableMetrics.Proofs.Parser.Complete
import TableMetrics.Proofs.Parser.Located
import TableMetrics.Proofs.Parser.Caseless
import TableMetrics.Proofs.Number.Decimal
import TableMetrics.Proofs.Number.Shortest
import TableMetrics.Proofs.Number.Literal
import TableMetrics.Proofs.Number.Readback
import TableMetrics.Proofs.Number.Exact
import TableMetrics.Proofs.Number.Nearest
import TableMetrics.Proofs.Number.ExactSum
import TableMetrics.Proofs.Number.NumericText
import TableMetrics.Proofs.Number.RoundedValue
import TableMetrics.Proofs.Number.Conversion
import TableMetrics.Proofs.Number.Sign
import TableMetrics.Proofs.Number.Fault
import TableMetrics.Proofs.Dataset.Lookup
import TableMetrics.Proofs.Dataset.Rows
import TableMetrics.Proofs.Dataset.Keys
import TableMetrics.Proofs.Dataset.Column
import TableMetrics.Proofs.Dataset.RowOrder
import TableMetrics.Proofs.Dataset.Concatenation
import TableMetrics.Proofs.Dataset.Faultless
import TableMetrics.Proofs.Dataset.Table
import TableMetrics.Proofs.Expr.Failure
import TableMetrics.Proofs.Expr.Checked
import TableMetrics.Proofs.Expr.Describe
import TableMetrics.Proofs.Expr.Call
import TableMetrics.Proofs.Expr.Reads
import TableMetrics.Proofs.Expr.Cells
import TableMetrics.Proofs.Expr.RowContext
import TableMetrics.Proofs.Expr.DistinctCount
import TableMetrics.Proofs.Expr.FilteredCount
import TableMetrics.Proofs.Expr.Source
import TableMetrics.Proofs.Expr.Mention
import TableMetrics.Proofs.Expr.Strict
import TableMetrics.Proofs.Expr.Context
import TableMetrics.Proofs.Expr.Unconditional
import TableMetrics.Proofs.Expr.Parentheses
import TableMetrics.Proofs.Expr.Comparison
import TableMetrics.Proofs.Expr.EqualKeys
import TableMetrics.Proofs.Expr.TextCount
import TableMetrics.Proofs.Expr.Spacing
import TableMetrics.Proofs.Expr.Renaming
import TableMetrics.Proofs.Expr.LetterCase
import TableMetrics.Proofs.Expr.Domain
import TableMetrics.Proofs.Expr.Formed
import TableMetrics.Proofs.Metric.Operation
import TableMetrics.Proofs.Metric.Check
import TableMetrics.Proofs.Service.Schema
import TableMetrics.Proofs.Service.Endpoints
import TableMetrics.Proofs.Service.Gate
import TableMetrics.Proofs.Lexer.Quote
import TableMetrics.Proofs.Logger
import TableMetrics.Proofs.Metric.Record
