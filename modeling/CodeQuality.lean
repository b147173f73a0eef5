import CodeQuality.Analysis.Defect
import CodeQuality.Complexity.SourceFile
import CodeQuality.Complexity.Threshold
import CodeQuality.Config.Search
import CodeQuality.Decimal.Numeral
import CodeQuality.Forecast
import CodeQuality.Grade
import CodeQuality.Json.Printer
import CodeQuality.Json.Reader
import CodeQuality.Json.Record
import CodeQuality.Monitor.Basic
import CodeQuality.Number.Binary64
import CodeQuality.Number.Scalar
import CodeQuality.Number.Statistics
import CodeQuality.Proofs.Analysis.Malformed
import CodeQuality.Proofs.Analysis.Precedence
import CodeQuality.Proofs.Binary64.Defined
import CodeQuality.Proofs.Binary64.Range
import CodeQuality.Proofs.Binary64.Root
import CodeQuality.Proofs.Binary64.Spacing
import CodeQuality.Proofs.Binary64.Statistics
import CodeQuality.Proofs.Complexity.Comments
import CodeQuality.Proofs.Complexity.Conservation
import CodeQuality.Proofs.Complexity.Decisions
import CodeQuality.Proofs.Complexity.Membership
import CodeQuality.Proofs.Complexity.Nesting
import CodeQuality.Proofs.Complexity.RollUp
import CodeQuality.Proofs.Complexity.Threshold
import CodeQuality.Proofs.Config.Nearest
import CodeQuality.Proofs.Config.Usable
import CodeQuality.Proofs.Debt.ThirdNewest
import CodeQuality.Proofs.Decimal.Digits
import CodeQuality.Proofs.Decimal.Text
import CodeQuality.Proofs.Exact.Arithmetic
import CodeQuality.Proofs.Exact.LeastSquares
import CodeQuality.Proofs.Json.Reading
import CodeQuality.Proofs.Monitor.Agreement
import CodeQuality.Proofs.Monitor.Answers
import CodeQuality.Proofs.Monitor.ArrivalOrder
import CodeQuality.Proofs.Monitor.Figures
import CodeQuality.Proofs.Monitor.Finite
import CodeQuality.Proofs.Monitor.Folding
import CodeQuality.Proofs.Monitor.Labels
import CodeQuality.Proofs.Monitor.Likeness
import CodeQuality.Proofs.Monitor.Persistence
import CodeQuality.Proofs.Monitor.Ranges
import CodeQuality.Proofs.Monitor.Tally
import CodeQuality.Proofs.Score.BetterNumber
import CodeQuality.Proofs.Score.Bounds
import CodeQuality.Proofs.Score.Categories
import CodeQuality.Proofs.Score.Failure
import CodeQuality.Proofs.Score.FurtherIssue
import CodeQuality.Proofs.Score.Ranges
import CodeQuality.Proofs.Suggestion.Canonical
import CodeQuality.Proofs.Time.Calendar
import CodeQuality.Proofs.Time.Timestamp
import CodeQuality.Proofs.Trend.Coherence
import CodeQuality.Proofs.Trend.Flat
import CodeQuality.Proofs.Wire.Reports
import CodeQuality.Proofs.Wire.Snapshots
import CodeQuality.Score.Breakdown
import CodeQuality.Source.Dialect
import CodeQuality.Suggestion.Collect
import CodeQuality.Text
import CodeQuality.Time.Rfc3339
import CodeQuality.Wire.Config
import CodeQuality.Wire.Measurement
import CodeQuality.Wire.Report
