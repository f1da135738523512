import Reckon.Proofs.Double.Product
import Reckon.Proofs.Report.Basic
import Reckon.Proofs.Simulation.Summary
import Reckon.Report.Estimate

/-!
Reports on a simulation are always written.

The value of a percentile that the chart points out lies between the ends of the histogram, so its
column is found although the difference, the quotient and the product that lead there are rounded.
-/

set_option autoImplicit false

namespace Reckon

open Double

theorem Scalar.truncated_of_finite {x : Float} (finite : field x ≠ 2047) :
    truncated x = .ok (Binary.truncExact x) := by
  obtain ⟨number, bounded⟩ := not_special ((isFinite_iff x).mpr finite)
  change (if x.isNaN = true then _ else if x.isInf = true then _ else _) = _
  rw [number, bounded]
  rfl

/-! ## Charts -/

namespace Chart

abbrev columnCount : Float := Scalar.ofInt (Histogram.standardBins : Int)

section

variable {low high value : Float} (finiteLow : field low ≠ 2047) (finiteHigh : field high ≠ 2047)
  (finiteValue : field value ≠ 2047) (lower : units low ≤ units value)
  (upper : units value ≤ units high)

include finiteLow finiteHigh finiteValue lower upper

theorem place_finite (finiteD : field (high - low) ≠ 2047) (positive : 0 < units (high - low)) :
    field ((value - low) / (high - low) * columnCount) ≠ 2047 := by
  have finiteCount : field columnCount ≠ 2047 := by decide +kernel
  have exponent : (Binary.parts columnCount).2 = -47 := by decide +kernel
  obtain ⟨finiteS, nonneg, near⟩ :=
    Histogram.sub_between finiteLow finiteHigh finiteValue finiteD lower upper
  have comparable : magnitude (value - low) ≤ 2 ^ 50 * magnitude (high - low) := by
    have sizeS := magnitude_of_nonneg nonneg
    have sizeD := magnitude_of_nonneg positive.le
    omega
  -- the quotient has a fraction in its last bit, and so has the count as a double
  obtain ⟨finiteQ, _, fraction⟩ := div_bounded finiteS finiteD nonneg positive comparable
  exact mul_finite finiteQ finiteCount (by omega)

theorem exists_markColumn :
    ∃ column, markColumn low high Histogram.standardBins value = .ok column := by
  unfold markColumn
  dsimp only
  by_cases spread : (Scalar.lt (Scalar.ofInt 0) (high - low) &&
      Scalar.isFinite (high - low)) = true
  · rw [if_pos spread]
    rw [Bool.and_eq_true] at spread
    have finiteZero : field (Scalar.ofInt 0) ≠ 2047 := by decide +kernel
    have finiteD : field (high - low) ≠ 2047 := (isFinite_iff _).mp spread.2
    have positive : 0 < units (high - low) := by
      have order := (lt_iff finiteZero finiteD).mp (of_decide_eq_true spread.1)
      rwa [Scalar.units_zero] at order
    have finite := place_finite finiteLow finiteHigh finiteValue lower upper finiteD positive
    change ∃ column, Except.bind (Scalar.truncated ((value - low) / (high - low) * columnCount)) _
      = Except.ok column
    rw [Scalar.truncated_of_finite finite]
    exact ⟨_, rfl⟩
  · -- without a finite spread every value stands in the first column
    rw [if_neg spread]
    exact ⟨_, rfl⟩

end

end Chart

namespace Summary

open Chart

variable {s : Summary}

theorem exists_drawn [Machine] (charted : s.Charted) : ∃ text, s.chart.text = .ok text := by
  have bins : s.chart.bins.length = Histogram.standardBins := by
    rw [← charted.bins]
    exact List.length_map _
  have gathered : columns s.chart.bins s.chart.width = .ok s.chart.bins := by
    rw [columns, if_pos]
    rw [bins]
    rfl
  obtain ⟨places, arePlaces, _⟩ := exists_mapM fun x member =>
    let ⟨finite, lower, upper⟩ := charted.marks x member
    exists_markColumn charted.low charted.high finite lower upper
  have pointed : ∃ row, markRow s.histogram.low s.histogram.high Histogram.standardBins
      [s.p10, s.p90] = .ok row := by
    unfold markRow
    rw [arePlaces]
    exact ⟨_, rfl⟩
  obtain ⟨row, isRow⟩ := pointed
  -- there is a column for every bin, so no bins are gathered
  unfold text lines
  rw [gathered]
  change ∃ text, Except.bind (Except.bind (markRow s.histogram.low s.histogram.high
    s.chart.bins.length [s.p10, s.p90]) _) _ = Except.ok text
  rw [bins, isRow]
  exact ⟨_, rfl⟩

theorem exists_table [Machine] (s : Summary) : ∃ r, s.table .empty = .ok r ∧ r.Plain := by
  have heads : ∀ cell ∈ [Cell.value (.text "Statistic"), Cell.value (.text "Value")],
      ∃ head, cell = .value (.text head) := by simp
  have rows : ∀ row ∈ s.tableCells, row.length = 2 ∧ ∀ cell ∈ row, cell.Plain := by
    intro row member
    obtain ⟨⟨name, x⟩, _, rfl⟩ := List.mem_map.mp member
    exact ⟨rfl, by simp [Cell.Plain]⟩
  obtain ⟨r, isTable, style, figures⟩ := Report.exists_addTable heads rows (.empty .empty)
  have plain : r.Plain := by
    refine ⟨style, ?_⟩
    intro f member
    rcases figures f member with none | ⟨row, isRow, isCell⟩
    · cases none
    · exact (rows row isRow).2 _ isCell
  refine ⟨_, ?_, (plain.addText s.countLine).addText "\n\n"⟩
  rw [table]
  change Except.bind (Report.addTable _ _ _) _ = _
  rw [isTable]
  rfl

theorem exists_fullReport [Machine] (charted : s.Charted) :
    ∃ r, s.fullReport .empty = .ok r ∧ r.Plain := by
  obtain ⟨table, isTable, plain⟩ := s.exists_table
  obtain ⟨drawn, isDrawn⟩ := exists_drawn charted
  have chart : s.chartReport .empty =
      .ok (((Report.empty .empty).addPlain drawn).addText "^ P10 and P90\n\n") := by
    rw [chartReport, isDrawn]
    rfl
  have plainChart : (((Report.empty .empty).addPlain drawn).addText "^ P10 and P90\n\n").Plain :=
    (Report.Plain.empty.addText _).addText _
  refine ⟨_, ?_, plain.append plainChart ""⟩
  rw [fullReport, isTable, chart]
  rfl

end Summary

end Reckon
