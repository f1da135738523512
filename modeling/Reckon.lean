import Reckon.Distribution.Theory
import Reckon.Main
import Reckon.Command.Directory
import Reckon.Command.Session
import Reckon.Report.Step
import Reckon.Proofs.Formula.Parsing
import Reckon.Proofs.Change
import Reckon.Proofs.Formula.Evaluation
import Reckon.Proofs.Model.Bindings
import Reckon.Proofs.Model.History
import Reckon.Proofs.Double.Nearest
import Reckon.Proofs.Double.Rounding
import Reckon.Proofs.Double.Packing
import Reckon.Proofs.Double.Units
import Reckon.Proofs.Double.Difference
import Reckon.Proofs.Double.Quotient
import Reckon.Proofs.Formula.Parsed
import Reckon.Proofs.Text.Trim
import Reckon.Proofs.Formula.Blanks
import Reckon.Proofs.Formula.Mentions
import Reckon.Proofs.Formula.Position
import Reckon.Proofs.Simulation.Run
import Reckon.Proofs.Model.Coherence
import Reckon.Proofs.Value.Told
import Reckon.Proofs.Value.Entries
import Reckon.Proofs.Distribution.Record
import Reckon.Proofs.Project.Estimate
import Reckon.Proofs.Formula.Substitution
import Reckon.Proofs.Simulation.Draws
import Reckon.Proofs.Simulation.Successive
import Reckon.Proofs.Formula.Calls
import Reckon.Proofs.Sorting
import Reckon.Proofs.Model.Trials
import Reckon.Proofs.Formula.Renaming
import Reckon.Proofs.Simulation.Conclusion
import Reckon.Proofs.Simulation.Renaming
import Reckon.Proofs.Project.RoundTrip
import Reckon.Proofs.Failing
import Reckon.Proofs.Project.Kinds
import Reckon.Proofs.Double.Product
import Reckon.Proofs.Report.Basic
import Reckon.Proofs.Report.Summary
import Reckon.Proofs.Command.Assignments
import Reckon.Proofs.Command.Estimate
import Reckon.Proofs.Formula.Agreement
import Reckon.Proofs.Formula.References
import Reckon.Proofs.Decimal.Digits
import Reckon.Proofs.Decimal.Whole
import Reckon.Proofs.Decimal.Reading
import Reckon.Proofs.Text.Replace
import Reckon.Proofs.Text.Fields
import Reckon.Proofs.Report.Pieces
import Reckon.Proofs.Report.Figure
import Reckon.Proofs.Report.Table
import Reckon.Proofs.Report.Built
import Reckon.Proofs.Distribution.Settings
import Reckon.Proofs.Command.Words
import Reckon.Proofs.Command.Reading
import Reckon.Proofs.Command.Direct
import Reckon.Proofs.Model.Refusal
import Reckon.Proofs.Model.Refresh
import Reckon.Proofs.Scalar.Exact
import Reckon.Proofs.Simulation.Histogram
import Reckon.Proofs.Scalar.Share
import Reckon.Proofs.Simulation.Percentile
import Reckon.Proofs.Scalar.Sum
import Reckon.Proofs.Report.Columns
import Reckon.Proofs.Report.Chart
import Reckon.Proofs.Report.Marks
import Reckon.Proofs.Scalar.Rounding
import Reckon.Proofs.Decimal.Significant
import Reckon.Proofs.Decimal.Exact
import Reckon.Proofs.Report.Rounding
import Reckon.Proofs.Double.Whole
import Reckon.Proofs.Simulation.Index
import Reckon.Proofs.Distribution.Poisson
import Reckon.Proofs.Model.Adjustment
import Reckon.Proofs.Model.Operations
import Reckon.Proofs.Distribution.Normal
import Reckon.Proofs.Project.Interruption
import Reckon.Proofs.Report.Grid
import Reckon.Proofs.Distribution.Acceptance
import Reckon.Proofs.Distribution.Parameters
import Reckon.Proofs.Double.Equality
import Reckon.Proofs.Double.Order
import Reckon.Proofs.Formula.Endings
import Reckon.Proofs.Formula.Grammar
import Reckon.Proofs.Formula.Tokens
import Reckon.Proofs.Formula.Viability
import Reckon.Proofs.Machine
import Reckon.Proofs.Model.Doubles
import Reckon.Proofs.Random.Period
import Reckon.Proofs.Random.Stream
import Reckon.Proofs.Report.Numeral
import Reckon.Proofs.Simulation.Lasting
import Reckon.Proofs.Simulation.Summary
import Reckon.Proofs.Text.Lines
import Reckon.Proofs.Value.Depth
import Reckon.Proofs.Value.Fields
