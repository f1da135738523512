import Reckon.Decimal.Rounded
import Reckon.Report.Basic
import Reckon.Report.Chart
import Reckon.Simulation.Summary

/-!
Reports on a simulation: a table of its summary, and its histogram as a chart.
-/

set_option autoImplicit false

namespace Reckon.Summary

/-- How many samples are valid, and how many trials were discarded if there are any. -/
def countLine (s : Summary) : String :=
  let valid := Decimal.grouped s.count ++ " valid samples"
  if s.discarded = 0 then valid
  else
    valid ++ " (" ++ Decimal.grouped s.discarded ++ " of " ++ Decimal.grouped s.trials.toNat
      ++ " trials discarded as undefined)"

def tableCells (s : Summary) : List (List Cell) :=
  [("Mean", s.mean), ("Median", s.median), ("P5", s.p5), ("P10", s.p10), ("P90", s.p90),
   ("P95", s.p95)].map fun (name, x) =>
    [.value (.text name), .figure ⟨some x, .empty⟩]

def table [Machine] (s : Summary) (style : Style) : Except Failure Report := do
  let header := some [Cell.value (.text "Statistic"), Cell.value (.text "Value")]
  let report ← (Report.empty style).addTable s.tableCells header
  return (report.addText s.countLine).addText "\n\n"

/-- The chart of the histogram, with the 10th and the 90th percentile pointed out. -/
def chart (s : Summary) : Chart Float :=
  { bins := s.histogram.counts.map fun (n : Nat) => Scalar.ofInt n
    low := s.histogram.low
    high := s.histogram.high
    width := Chart.standardWidth
    height := Chart.standardHeight
    bar := "#"
    marks := some [s.p10, s.p90] }

def chartReport [Machine] (s : Summary) (style : Style) : Except Failure Report := do
  let drawn ← s.chart.text
  return ((Report.empty style).addPlain drawn).addText "^ P10 and P90\n\n"

def fullReport [Machine] (s : Summary) (style : Style) : Except Failure Report := do
  let table ← s.table style
  let chart ← s.chartReport style
  return table.append chart ""

end Reckon.Summary
