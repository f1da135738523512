import Reckon.Proofs.Report.Chart
import Reckon.Proofs.Simulation.Percentile
import Reckon.Report.Estimate

/-!
A chart points out a sample under the bar that counts it.

A histogram divides by the width of a bin and a chart takes a fraction of the whole range, each with
its own guard for a range of no width. Read exactly, both lead to the same place.
-/

set_option autoImplicit false

namespace Reckon

namespace Histogram

variable {R : Type} [Scalar R]

def placeOf (low high : R) (bins : Nat) (sample : R) : Int :=
  if isSpread (width low high bins) then binOf low (width low high bins) bins sample else 0

def chart (h : Histogram R) (marks : List R) : Chart R :=
  { bins := h.counts.map fun (n : Nat) => Scalar.ofInt n
    low := h.low
    high := h.high
    width := Chart.standardWidth
    height := Chart.standardHeight
    bar := "#"
    marks := some marks }

/-! ## Places -/

theorem getElem?_flat {bins i : Nat} (inside : i < bins) (count : Nat) :
    (count :: List.replicate (bins - 1) 0)[i]? = some (if i = 0 then count else 0) := by
  cases i with
  | zero => rfl
  | succ i => simp [List.getElem?_replicate]; omega

theorem exists_places [Machine] {samples : List Rat} {bins : Nat} (nonempty : samples ≠ [])
    (ascending : samples.Pairwise (· ≤ ·)) (anyBins : 1 ≤ bins) (room : HasRoom bins) :
    ∃ h, ofSorted samples bins = .ok h ∧ samples.head? = some h.low ∧
      samples.getLast? = some h.high ∧ h.counts.length = bins ∧
      ∀ i < bins,
        h.counts[i]? = some (samples.countP fun x => placeOf h.low h.high bins x = i) := by
  obtain ⟨h, made, isLow, isHigh, length, _, counts, flat⟩ :=
    exists_exact nonempty ascending anyBins room
  refine ⟨h, made, isLow, isHigh, length, fun i inside => ?_⟩
  have between (x : Rat) (member : x ∈ samples) : h.low ≤ x ∧ x ≤ h.high :=
    Sorting.bounds_of_mem (fun x _ => le_refl x) ascending isLow isHigh member
  by_cases wide : h.low < h.high
  · rw [counts wide i inside]
    refine congrArg some (List.countP_congr fun x member => ?_)
    rw [decide_eq_true_iff, decide_eq_true_iff, placeOf,
      if_pos ((isSpread_width_iff anyBins).mpr wide)]
    exact (binOf_eq_iff anyBins wide (between x member).2 inside).symm
  · -- in a range of no width everything stands in the first bin
    have same : h.low = h.high := by
      obtain ⟨x, member⟩ := List.exists_mem_of_ne_nil samples nonempty
      exact le_antisymm ((between x member).1.trans (between x member).2) (not_lt.mp wide)
    have first (x : Rat) : placeOf h.low h.high bins x = 0 :=
      if_neg (mt (isSpread_width_iff anyBins).mp wide)
    rw [flat same, getElem?_flat inside]
    simp only [first]
    rcases Nat.eq_zero_or_pos i with rfl | later
    · simp
    · have other : (0 : Int) ≠ i := by omega
      simp [later.ne', other]

section

variable {low high x : Rat} {bins : Nat} (anyBins : 1 ≤ bins)

include anyBins

/-- The fraction of the whole range that a chart takes and the number of widths that a histogram
takes agree. -/
theorem column_eq_placeOf (lower : low ≤ x) :
    (Chart.column low high bins x : Int) = placeOf low high bins x := by
  have last : ((bins - 1 : Nat) : Int) = (bins : Int) - 1 := by omega
  rw [Chart.column, placeOf, Nat.cast_min, last]
  by_cases wide : low < high
  · have places : (x - low) / (high - low) * bins = (x - low) / width low high bins := by
      rw [width_exact, div_div_eq_mul_div, div_mul_eq_mul_div]
    have above : 0 ≤ (x - low) / (high - low) * bins :=
      mul_nonneg (div_nonneg (sub_nonneg.mpr lower) (sub_pos.mpr wide).le) (Nat.cast_nonneg _)
    rw [if_pos wide, if_pos ((isSpread_width_iff anyBins).mpr wide), binOf_exact,
      Int.natCast_floor_eq_floor above, places]
  · rw [if_neg wide, if_neg (mt (isSpread_width_iff anyBins).mp wide)]
    exact min_eq_left (by omega)

theorem column_lt (low high x : Rat) : Chart.column low high bins x < bins := by
  rw [Chart.column]
  omega

theorem inBin_column (lower : low ≤ x) (upper : x ≤ high) (wide : low < high) :
    InBin low high bins (Chart.column low high bins x) x := by
  rw [← binOf_eq_iff anyBins wide upper (column_lt anyBins low high x),
    column_eq_placeOf anyBins lower, placeOf, if_pos ((isSpread_width_iff anyBins).mpr wide)]

end

end Histogram

/-! ## Rows of marks -/

namespace Chart

/-- The row under the axis points out the columns that it should, and the lowest row over the axis
has a bar in each of them. -/
def PointsOut (lines : List String) (mark : Char) (height count : Nat) (marked : Nat → Prop) :
    Prop :=
  ∃ bars shown : List Char,
    lines[height - 1]? = some ("|" ++ String.ofList bars) ∧
    lines[height + 1]? = some (" " ++ String.ofList shown) ∧
    bars.length = count ∧ shown.length = count ∧
    (∀ i < count, shown[i]? = some '^' ↔ marked i) ∧
    ∀ i : Nat, shown[i]? = some '^' → bars[i]? = some mark

theorem getElem?_markCells (low high : Rat) {count i : Nat} (inside : i < count)
    (marks : List Rat) : (markCells low high count marks)[i]? = some '^' ↔
      ∃ x ∈ marks, column low high count x = i := by
  rw [markCells, List.getElem?_map, List.getElem?_range inside, Option.map_some, Option.some_inj,
    ite_eq_left_iff, ← List.mem_map, List.contains_iff_mem]
  simp

/-- Values that stand in columns with some count are pointed out under bars. -/
theorem exists_pointsOut [Machine] {chart : Chart Rat} {height : Nat} {mark : Char}
    {marks : List Rat} (ofCounts : OfCounts chart chart.bins.length height mark)
    (isMarks : chart.marks = some marks)
    (counted : ∀ x ∈ marks, ∃ n : Rat,
      chart.bins[column chart.low chart.high chart.bins.length x]? = some n ∧ n ≠ 0) :
    ∃ lines, chart.lines = .ok lines ∧
      PointsOut lines mark height chart.bins.length
        fun i => ∃ x ∈ marks, column chart.low chart.high chart.bins.length x = i := by
  obtain ⟨nonempty, counts, isWidth, wide, isHeight, tall, isBar, visible⟩ := ofCounts
  have gathered : columns chart.bins chart.width = .ok chart.bins := if_pos isWidth.symm
  obtain ⟨bar, isBars, scales⟩ := exists_scales nonempty tall counts
  have isBlank : mark ≠ ' ' := by
    rintro rfl
    exact absurd visible (by decide)
  have drawn := lines_of_columns gathered wide
  have length : chart.bins.length = (chart.bins.map bar).length := (List.length_map _).symm
  have axis := length_rows (String.singleton mark) (chart.bins.map bar) height
  rw [isBar, isHeight, Int.toNat_natCast, isBars] at drawn
  refine ⟨_, drawn, ?_⟩
  have draws := draws_rows isBlank (chart.bins.map bar) height (footer chart chart.bins.length)
  rw [← length] at draws
  obtain ⟨bars, isLowest, width, cells⟩ := draws.row 1 le_rfl tall
  refine ⟨bars, markCells chart.low chart.high chart.bins.length marks, isLowest, ?_,
    width.trans length.symm, by simp [markCells], fun i inside => getElem?_markCells _ _ inside _,
    fun i isMark => ?_⟩
  · have under : height + 1 - height = 1 := by omega
    rw [List.getElem?_append_right (by omega), axis, under, footer, isMarks]
    rfl
  · have inside : i < chart.bins.length := by
      obtain ⟨inside, _⟩ := List.getElem?_eq_some_iff.mp isMark
      simpa [markCells] using inside
    obtain ⟨x, member, rfl⟩ := (getElem?_markCells _ _ inside _).mp isMark
    obtain ⟨n, isCount, some⟩ := counted x member
    have isHeight : (chart.bins.map bar)[column chart.low chart.high chart.bins.length x]? =
        .some (bar n) := by
      rw [List.getElem?_map, isCount, Option.map_some]
    have inBins := List.mem_of_getElem? isCount
    refine ((cells _ _ isHeight).1).mpr ?_
    -- what is not empty is drawn at least one row high
    have row : bar n ≠ 0 := mt (scales.empty_iff n inBins).mp some
    have nonneg := (scales.within n inBins).1
    omega

end Chart

namespace Histogram

theorem ofCounts_chart {h : Histogram Rat} (length : h.counts.length = standardBins)
    (marks : List Rat) :
    Chart.OfCounts (h.chart marks) (h.chart marks).bins.length 12 '#' := by
  have count : (h.chart marks).bins.length = 60 := (List.length_map _).trans length
  refine ⟨?_, ?_, ?_, ?_, rfl, by decide, rfl, by decide⟩
  · rw [← List.length_pos_iff, count]
    decide
  · intro n member
    obtain ⟨k, _, rfl⟩ := List.mem_map.mp member
    exact Nat.cast_nonneg k
  · rw [count]
    rfl
  · rw [count]
    decide

theorem pointsOut_of_counted [Machine] {h : Histogram Rat} (length : h.counts.length = standardBins)
    {marks : List Rat} (counted : ∀ x ∈ marks, ∃ n,
      h.counts[Chart.column h.low h.high standardBins x]? = some n ∧ 1 ≤ n) :
    ∃ lines, (h.chart marks).lines = .ok lines ∧ Chart.PointsOut lines '#' 12 standardBins
      fun i => ∃ x ∈ marks, Chart.column h.low h.high standardBins x = i := by
  have bins : (h.chart marks).bins.length = standardBins := (List.length_map _).trans length
  have under : ∀ x ∈ marks, ∃ n : Rat,
      (h.chart marks).bins[Chart.column h.low h.high (h.chart marks).bins.length x]? = some n ∧
        n ≠ 0 := by
    intro x member
    obtain ⟨n, isCount, some⟩ := counted x member
    rw [bins]
    refine ⟨n, ?_, by exact_mod_cast (by omega : n ≠ 0)⟩
    rw [chart, List.getElem?_map, isCount]
    rfl
  have pointed := Chart.exists_pointsOut (ofCounts_chart length marks) rfl under
  rwa [bins] at pointed

/-- The chart of a summary is that of its histogram, with two percentiles pointed out. Of samples in
ascending order there is always a histogram, if its counters are granted, and a chart of it. The
column that points out a sample is the bin that counts the sample: the one whose edges hold it, or
the first one if all samples are the same. So whichever samples are pointed out, as the 10th and the
90th percentile are, a bar stands over each of them. -/
theorem markColumn_spec [Machine] :
    (∀ s : Summary, s.chart = s.histogram.chart [s.p10, s.p90]) ∧
    (Machine.row true standardBins = .ok () → ∀ samples : List Rat, samples ≠ [] →
      samples.Pairwise (· ≤ ·) →
      ∃ h, ofSorted samples standardBins = .ok h ∧ samples.head? = some h.low ∧
        samples.getLast? = some h.high ∧
        (∀ i < standardBins, h.counts[i]? =
          some (samples.countP fun x => placeOf h.low h.high standardBins x = i)) ∧
        (∀ x ∈ samples, ∃ i < standardBins, placeOf h.low h.high standardBins x = i ∧
          (h.low < h.high → InBin h.low h.high standardBins i x) ∧ (h.low = h.high → i = 0) ∧
          Chart.markColumn h.low h.high standardBins x = .ok i ∧
          ∃ n, h.counts[i]? = some n ∧ 1 ≤ n) ∧
        (∀ marks, (∀ x ∈ marks, x ∈ samples) → ∃ lines, (h.chart marks).lines = .ok lines ∧
          Chart.PointsOut lines '#' 12 standardBins
            fun i => ∃ x ∈ marks, placeOf h.low h.high standardBins x = i) ∧
        ∃ p10 ∈ samples, ∃ p90 ∈ samples, nearestRank? samples (1 / 10 : Rat) = some p10 ∧
          nearestRank? samples (9 / 10 : Rat) = some p90) := by
  refine ⟨fun s => rfl, fun counters samples nonempty ascending => ?_⟩
  have anyBins : 1 ≤ standardBins := by decide
  obtain ⟨h, made, isLow, isHigh, length, counts⟩ :=
    exists_places nonempty ascending anyBins ⟨by decide +kernel, counters⟩
  have between (x : Rat) (member : x ∈ samples) : h.low ≤ x ∧ x ≤ h.high :=
    Sorting.bounds_of_mem (fun x _ => le_refl x) ascending isLow isHigh member
  have agree (x : Rat) (member : x ∈ samples) :
      placeOf h.low h.high standardBins x = Chart.column h.low h.high standardBins x :=
    (column_eq_placeOf anyBins (between x member).1).symm
  have inside (x : Rat) := column_lt anyBins h.low h.high x
  have counted (x : Rat) (member : x ∈ samples) :
      ∃ n, h.counts[Chart.column h.low h.high standardBins x]? = some n ∧ 1 ≤ n :=
    ⟨_, counts _ (inside x), List.countP_pos_iff.mpr ⟨x, member, decide_eq_true (agree x member)⟩⟩
  refine ⟨h, made, isLow, isHigh, counts, fun x member => ?_, fun marks within => ?_, ?_⟩
  · refine ⟨_, inside x, agree x member, ?_, fun same => ?_, ?_, counted x member⟩
    · exact inBin_column anyBins (between x member).1 (between x member).2
    · rw [Chart.column, if_neg same.not_lt, Nat.zero_min]
    · exact Chart.markColumn_exact _ _ anyBins x
  · have pointed := pointsOut_of_counted length fun x member => counted x (within x member)
    -- the bin that counts a sample is the column that points it out
    have places : (fun i : Nat => ∃ x ∈ marks, placeOf h.low h.high standardBins x = i) =
        fun i => ∃ x ∈ marks, Chart.column h.low h.high standardBins x = i := by
      funext i
      refine propext (exists_congr fun x => and_congr_right fun member => ?_)
      rw [agree x (within x member), Int.natCast_inj]
    rwa [places]
  · obtain ⟨p10, is10, found10⟩ :=
      exists_nearestRank? (by norm_num : (0 : Rat) ≤ 1 / 10) (by norm_num) nonempty
    obtain ⟨p90, is90, found90⟩ :=
      exists_nearestRank? (by norm_num : (0 : Rat) ≤ 9 / 10) (by norm_num) nonempty
    exact ⟨p10, is10, p90, is90, found10, found90⟩

section

attribute [local instance] Machine.standard

/-- The greatest of several samples stands in the last column, samples that are all the same stand
in the first one. -/
theorem markColumn_spec_ends :
    (∃ h, ofSorted [(1 : Rat), 3 / 2, 2] standardBins = .ok h ∧
      Chart.markColumn h.low h.high standardBins 2 = .ok 59 ∧ h.counts[59]? = some 1) ∧
    ∃ h lines, ofSorted [(3 : Rat), 3] standardBins = .ok h ∧
      Chart.markColumn h.low h.high standardBins 3 = .ok 0 ∧ h.counts[0]? = some 2 ∧
      (h.chart [3, 3]).lines = .ok lines ∧
      Chart.PointsOut lines '#' 12 standardBins
        fun i => ∃ x ∈ [(3 : Rat), 3], placeOf h.low h.high standardBins x = i := by
  constructor
  · obtain ⟨h, made, isLow, isHigh, counts, points, -⟩ :=
      markColumn_spec.2 rfl [1, 3 / 2, 2] (by decide) (by decide +kernel)
    obtain ⟨i, -, place, -, -, column, -⟩ := points 2 (by simp)
    have low : h.low = 1 := (Option.some.inj isLow).symm
    have high : h.high = 2 := (Option.some.inj isHigh).symm
    have last : placeOf (1 : Rat) 2 standardBins 2 = (59 : Nat) := by decide +kernel
    rw [low, high, last, Int.natCast_inj] at place
    subst place
    refine ⟨h, made, column, ?_⟩
    rw [counts 59 (by decide), low, high]
    decide +kernel
  · obtain ⟨h, made, isLow, isHigh, counts, points, drawn, -⟩ :=
      markColumn_spec.2 rfl [3, 3] (by decide) (by decide +kernel)
    obtain ⟨i, -, place, -, flat, column, -⟩ := points 3 (by simp)
    have low : h.low = 3 := (Option.some.inj isLow).symm
    have high : h.high = 3 := (Option.some.inj isHigh).symm
    obtain rfl := flat (low.trans high.symm)
    obtain ⟨lines, drawn, pointed⟩ := drawn [3, 3] fun x member => member
    refine ⟨h, lines, made, column, ?_, drawn, pointed⟩
    rw [counts 0 (by decide), low, high]
    decide +kernel

end

end Histogram

end Reckon
