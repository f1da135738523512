import Mathlib.Algebra.Order.BigOperators.Group.List
import Reckon.Proofs.Machine
import Reckon.Proofs.Report.Columns

/-!
Charts show the counts they are given.

Read exactly, every column has a bar that stands on the axis. Its height keeps the order of the
counts, only an empty column has none, and the greatest count reaches the top.
-/

set_option autoImplicit false

namespace Reckon.Chart

/-! ## Heights of bars -/

theorem greatest_exact (x : Rat) (rest : List Rat) : greatest x rest = rest.foldl max x := by
  refine congrArg (fun step => rest.foldl step x) ?_
  funext a b
  change (if (decide (b ≤ a) || !decide (a ≤ a)) = true then a else b) = max a b
  rcases le_or_gt b a with le | less
  · simp [le]
  · simp [less.le, not_le.mpr less]

theorem greatest_spec (x : Rat) (rest : List Rat) :
    greatest x rest ∈ x :: rest ∧ ∀ y ∈ x :: rest, y ≤ greatest x rest := by
  rw [greatest_exact]
  exact List.max?_eq_some_iff.mp List.max?_cons'

theorem barHeight_exact (top : Rat) (height : Int) (column : Rat) :
    barHeight top height column = ⌈column / top * height⌉ :=
  Scalar.ceil_exact _

/-- The heights of the bars fit the counts of the columns: they lie within the chart, only an empty
column has no bar, more is never lower, and the most reaches the top. -/
structure Scales (columns : List Rat) (height : Nat) (bar : Rat → Int) : Prop where
  within : ∀ c ∈ columns, 0 ≤ bar c ∧ bar c ≤ height
  empty_iff : ∀ c ∈ columns, bar c = 0 ↔ c = 0
  mono : ∀ c ∈ columns, ∀ d ∈ columns, c ≤ d → bar c ≤ bar d
  full : ∀ c ∈ columns, 0 < c → (∀ d ∈ columns, d ≤ c) → bar c = height

theorem scales_zero {columns : List Rat} (height : Nat) (zero : ∀ c ∈ columns, c = 0) :
    Scales columns height fun _ => 0 where
  within c _ := ⟨le_rfl, Int.natCast_nonneg height⟩
  empty_iff c member := by simp [zero c member]
  mono c _ d _ _ := le_rfl
  full c member positive := absurd (zero c member) positive.ne'

theorem scales_barHeight {columns : List Rat} {height : Nat} {top : Rat} (tall : 1 ≤ height)
    (counts : ∀ c ∈ columns, 0 ≤ c) (member : top ∈ columns) (most : ∀ c ∈ columns, c ≤ top)
    (positive : 0 < top) : Scales columns height (barHeight top height) := by
  have tallRat : (0 : Rat) < height := by exact_mod_cast tall
  have scaled {c d : Rat} (le : c ≤ d) : c / top * (height : Int) ≤ d / top * (height : Int) := by
    refine mul_le_mul_of_nonneg_right (div_le_div_of_nonneg_right le positive.le) ?_
    exact_mod_cast tallRat.le
  have atTop : barHeight top height top = height := by
    rw [barHeight_exact, div_self positive.ne', one_mul, Int.ceil_intCast]
  have mono {c d : Rat} (le : c ≤ d) : barHeight top height c ≤ barHeight top height d := by
    rw [barHeight_exact, barHeight_exact]
    exact Int.ceil_mono (scaled le)
  have nothing : barHeight top height 0 = 0 := by
    rw [barHeight_exact, zero_div, zero_mul, Int.ceil_zero]
  refine ⟨fun c isColumn => ⟨?_, ?_⟩, fun c isColumn => ⟨fun none => ?_, ?_⟩,
    fun c _ d _ le => mono le, fun c isColumn _ greatest => ?_⟩
  · rw [← nothing]
    exact mono (counts c isColumn)
  · exact (mono (most c isColumn)).trans atTop.le
  · -- what is above nothing is rounded up to a row at least
    by_contra some
    have above : 0 < c := lt_of_le_of_ne (counts c isColumn) (Ne.symm some)
    have row : 0 < barHeight top height c := by
      rw [barHeight_exact, Int.ceil_pos]
      exact mul_pos (div_pos above positive) (by exact_mod_cast tallRat)
    omega
  · rintro rfl
    exact nothing
  · rw [le_antisymm (most c isColumn) (greatest top member), atTop]

theorem exists_scales {columns : List Rat} {height : Nat} (some : columns ≠ []) (tall : 1 ≤ height)
    (counts : ∀ c ∈ columns, 0 ≤ c) :
    ∃ bar, heights columns height = columns.map bar ∧ Scales columns height bar := by
  cases columns with
  | nil => exact absurd rfl some
  | cons first rest =>
    obtain ⟨member, most⟩ := greatest_spec first rest
    by_cases zero : greatest first rest = 0
    · refine ⟨fun _ => 0, if_pos ((Scalar.isZero_exact _).mpr zero), ?_⟩
      refine scales_zero height fun c isColumn => ?_
      exact le_antisymm (zero ▸ most c isColumn) (counts c isColumn)
    · have positive := lt_of_le_of_ne (counts _ member) (Ne.symm zero)
      refine ⟨barHeight (greatest first rest) height, if_neg ?_,
        scales_barHeight tall counts member most positive⟩
      rwa [Scalar.isZero_exact]

/-! ## Rows -/

def cells (mark : Char) (heights : List Int) (level : Nat) : List Char :=
  heights.map fun height => if (level : Int) ≤ height then mark else ' '

theorem row_singleton (mark : Char) (level : Nat) (heights : List Int) :
    row (String.singleton mark) level heights =
      "|" ++ String.ofList (cells mark heights level) := by
  rw [row, cells, ← String.toList_inj, String.toList_append, String.toList_append,
    String.toList_join, String.toList_ofList, List.flatMap_map]
  congr 1
  induction heights with
  | nil => rfl
  | cons height heights ih =>
    rw [List.flatMap_cons, List.map_cons, String.ofList_cons, String.toList_append, ih]
    split <;> rfl

theorem length_rows (bar : String) (heights : List Int) (height : Nat) :
    (rows bar heights height).length = height := by
  induction height with
  | zero => rfl
  | succ level ih => rw [rows, List.length_cons, ih]

theorem getElem?_rows (bar : String) (heights : List Int) {height level : Nat} (above : 1 ≤ level)
    (inside : level ≤ height) :
    (rows bar heights height)[height - level]? = some (row bar level heights) := by
  induction height with
  | zero => omega
  | succ height ih =>
    rw [rows]
    rcases Nat.lt_or_eq_of_le inside with lower | same
    · have next : height + 1 - level = height - level + 1 := by omega
      rw [next, List.getElem?_cons_succ]
      exact ih (by omega)
    · subst same
      rw [Nat.sub_self]
      rfl

/-- The lines begin with as many rows as the chart is high, each of a bar line and one cell for
every column, and the axis under them. In every column the bar fills the cells from the axis up to
its height, and the cells above it are blank. -/
structure Draws (lines : List String) (mark : Char) (heights : List Int) (height : Nat) : Prop where
  row : ∀ level, 1 ≤ level → level ≤ height → ∃ shown : List Char,
    lines[height - level]? = some ("|" ++ String.ofList shown) ∧ shown.length = heights.length ∧
      ∀ (i : Nat) (h : Int), heights[i]? = some h →
        (shown[i]? = some mark ↔ (level : Int) ≤ h) ∧ (shown[i]? = some ' ' ↔ h < level)
  axis : lines[height]? = some ("+" ++ String.ofList (List.replicate heights.length '-'))

theorem draws_rows {mark : Char} (visible : mark ≠ ' ') (heights : List Int) (height : Nat)
    (rest : List String) :
    Draws (rows (String.singleton mark) heights height ++
      ("+" ++ String.ofList (List.replicate heights.length '-')) :: rest) mark heights height := by
  have length := length_rows (String.singleton mark) heights height
  constructor
  · intro level above inside
    refine ⟨cells mark heights level, ?_, List.length_map _, fun i h isHeight => ?_⟩
    · rw [List.getElem?_append_left (by omega), getElem?_rows _ _ above inside, row_singleton]
    · have cell : (cells mark heights level)[i]? =
          some (if (level : Int) ≤ h then mark else ' ') := by
        rw [cells, List.getElem?_map, isHeight, Option.map_some]
      rw [cell]
      by_cases reached : (level : Int) ≤ h
      · simp [reached, visible]
      · simp [reached, visible.symm, Int.not_le.mp reached]
  · rw [List.getElem?_append_right (by omega), length, Nat.sub_self]
    rfl

/-! ## Marks -/

def column (low high : Rat) (count : Nat) (value : Rat) : Nat :=
  min (if low < high then ⌊(value - low) / (high - low) * count⌋₊ else 0) (count - 1)

theorem markColumn_exact (low high : Rat) {count : Nat} (some : 1 ≤ count) (value : Rat) :
    markColumn low high count value = .ok (column low high count value) := by
  have counted : ¬count = 0 := by omega
  have spread : (Scalar.lt (Scalar.ofInt 0) (high - low) && Scalar.isFinite (high - low)) = true ↔
      low < high := by
    rw [Bool.and_eq_true, Scalar.lt_exact]
    exact (and_iff_left rfl).trans sub_pos
  obtain ⟨place, isPlace, index⟩ := Scalar.truncated_exact ((value - low) / (high - low) * count)
  unfold markColumn column
  dsimp only
  by_cases wide : low < high
  · rw [if_pos (spread.mpr wide), if_pos wide, ← index]
    change Except.bind (Scalar.truncated ((value - low) / (high - low) * (count : Rat))) _ = _
    rw [isPlace]
    change (if count = 0 then _ else _) = _
    rw [if_neg counted]
    rfl
  · rw [if_neg (mt spread.mp wide), if_neg wide]
    change (if count = 0 then _ else _) = _
    rw [if_neg counted]
    rfl

def markCells (low high : Rat) (count : Nat) (marks : List Rat) : List Char :=
  (List.range count).map fun i =>
    if (marks.map (column low high count)).contains i then '^' else ' '

theorem markRow_exact (low high : Rat) {count : Nat} (some : 1 ≤ count) (marks : List Rat) :
    markRow low high count marks = .ok (" " ++ String.ofList (markCells low high count marks)) := by
  have places : marks.mapM (markColumn low high count) =
      .ok (marks.map (column low high count)) := by
    rw [funext (markColumn_exact low high some)]
    exact List.mapM_pure
  rw [markRow, places]
  rfl

/-! ## The whole chart -/

/-- The lines under the axis: the values pointed out, if there are any, and the ends. -/
def footer (chart : Chart Rat) (count : Nat) : List String :=
  (match chart.marks with
    | none => []
    | some marks => [" " ++ String.ofList (markCells chart.low chart.high count marks)]) ++
    [scale chart.low chart.high count]

theorem lines_of_columns [Machine] {chart : Chart Rat} {counts : List Rat}
    (gathered : columns chart.bins chart.width = .ok counts) (some : 1 ≤ counts.length) :
    chart.lines = .ok (rows chart.bar (heights counts chart.height) chart.height.toNat ++
      ("+" ++ String.ofList (List.replicate counts.length '-')) :: footer chart counts.length) := by
  unfold lines footer
  rw [gathered, ← List.cons_append, ← List.append_assoc]
  cases chart.marks with
  | none => rfl
  | some marks =>
    change Except.bind (markRow chart.low chart.high counts.length marks) _ = _
    rw [markRow_exact _ _ some]
    rfl

/-- A chart of counts with a visible bar, of some width and height. -/
structure OfCounts (chart : Chart Rat) (width height : Nat) (mark : Char) : Prop where
  some : chart.bins ≠ []
  counts : ∀ n ∈ chart.bins, 0 ≤ n
  isWidth : chart.width = width
  wide : 1 ≤ width
  isHeight : chart.height = height
  tall : 1 ≤ height
  isBar : chart.bar = String.singleton mark
  visible : Text.isBlank mark = false

theorem groups_nonneg {bins : List Rat} (counts : ∀ n ∈ bins, 0 ≤ n) (width : Nat) :
    ∀ c ∈ (groups bins width).map List.sum, 0 ≤ c := by
  intro c member
  obtain ⟨_, isGroup, rfl⟩ := List.mem_map.mp member
  obtain ⟨i, _, rfl⟩ := List.mem_map.mp isGroup
  refine List.sum_nonneg fun n inside => counts n ?_
  exact List.mem_of_mem_drop (List.mem_of_mem_take inside)

/-- A chart of counts needs edges between its columns unless each bin is a column. If the machine
refuses to lay them out, the chart fails for that reason. Otherwise its columns show the bins and its
bars the columns. -/
theorem lines_spec [Machine] {chart : Chart Rat} {width height : Nat} {mark : Char}
    (ofCounts : OfCounts chart width height mark) :
    (∀ refusal, chart.bins.length ≠ width → Machine.points (width + 1) = .error refusal →
      chart.lines = .error refusal) ∧
    (chart.bins.length = width ∨ Machine.points (width + 1) = .ok () →
      ∃ counts bar lines, columns chart.bins width = .ok counts ∧ chart.lines = .ok lines ∧
        counts.length = width ∧ Shows chart.bins counts ∧ Scales counts height bar ∧
        Draws lines mark (counts.map bar) height) := by
  obtain ⟨some, counts, isWidth, wide, isHeight, tall, isBar, visible⟩ := ofCounts
  refine ⟨fun refusal other refused => ?_, fun room => ?_⟩
  · rw [lines, isWidth, columns_refused wide other refused]
    rfl
  · have gathered := columns_exact wide room
    have length : ((groups chart.bins width).map List.sum).length = width := by
      rw [List.length_map, length_groups]
    have nonempty : (groups chart.bins width).map List.sum ≠ [] := by
      rw [← List.length_pos_iff, length]
      exact wide
    obtain ⟨bar, isBars, scales⟩ :=
      exists_scales nonempty tall (groups_nonneg counts width)
    have isBlank : mark ≠ ' ' := by
      rintro rfl
      exact absurd visible (by decide)
    have drawn := lines_of_columns (isWidth ▸ gathered) (by omega)
    rw [isBar, isHeight, Int.toNat_natCast, isBars] at drawn
    refine ⟨_, bar, _, gathered, drawn, length, shows_groups some wide, scales, ?_⟩
    have heights : ((groups chart.bins width).map List.sum).length =
        (((groups chart.bins width).map List.sum).map bar).length := (List.length_map _).symm
    rw [heights]
    exact draws_rows isBlank _ _ _

section

attribute [local instance] Machine.standard

/-- Five bins are gathered into three columns, and one bin into more columns than there are edges. -/
theorem lines_spec_gathered :
    OfCounts ⟨[0, 1, 2, 4, 1], 0, 5, 3, 4, "#", some [3]⟩ 3 4 '#' ∧
    (∃ bar lines, columns [(0 : Rat), 1, 2, 4, 1] 3 = .ok [0, 3, 5] ∧
      Chart.lines ⟨[(0 : Rat), 1, 2, 4, 1], 0, 5, 3, 4, "#", some [3]⟩ = .ok lines ∧
      Scales [0, 3, 5] 4 bar ∧ Draws lines '#' ([0, 3, 5].map bar) 4) ∧
    OfCounts ⟨[1], 0, 1, (2 ^ 63 : Nat), 1, "#", none⟩ (2 ^ 63) 1 '#' ∧
    Chart.lines ⟨[(1 : Rat)], 0, 1, (2 ^ 63 : Nat), 1, "#", none⟩ = .error .outOfRange := by
  have ofCounts : OfCounts ⟨[0, 1, 2, 4, 1], 0, 5, 3, 4, "#", some [3]⟩ 3 4 '#' :=
    ⟨by decide, by decide, rfl, by decide, rfl, by decide, rfl, by decide⟩
  have room : Machine.points (3 + 1) = .ok () :=
    Machine.Standard.points_of_round (by decide +kernel) (by decide +kernel)
  have sums : columns [(0 : Rat), 1, 2, 4, 1] (3 : Nat) = .ok [0, 3, 5] :=
    (columns_exact (by decide) (.inr room)).trans (congrArg Except.ok (by decide +kernel))
  obtain ⟨counts, bar, lines, gathered, drawn, -, -, scales, draws⟩ :=
    (lines_spec ofCounts).2 (.inr room)
  cases Except.ok.inj (gathered.symm.trans sums)
  have wide : OfCounts ⟨[1], 0, 1, (2 ^ 63 : Nat), 1, "#", none⟩ (2 ^ 63) 1 '#' :=
    ⟨by decide, by decide, rfl, by decide, rfl, by decide, rfl, by decide⟩
  have refused : Machine.points (2 ^ 63 + 1) = .error .outOfRange :=
    Machine.Standard.points_lastMissing (by decide +kernel) (by decide +kernel)
  exact ⟨ofCounts, ⟨bar, lines, sums, drawn, scales, draws⟩, wide,
    (lines_spec wide).1 _ (by decide) refused⟩

/-- A chart can be wider than the number of edges that are laid out. -/
theorem lines_tooWide :
    ¬∀ (chart : Chart Rat) (width height : Nat) (mark : Char),
      OfCounts chart width height mark → ∃ lines, chart.lines = .ok lines := by
  intro always
  have ofCounts : OfCounts ⟨[1], 0, 1, (2 ^ 63 : Nat), 1, "#", none⟩ (2 ^ 63) 1 '#' :=
    ⟨by decide, by decide, rfl, by decide, rfl, by decide, rfl, by decide⟩
  obtain ⟨lines, drawn⟩ := always _ _ _ _ ofCounts
  have refused : Machine.points (2 ^ 63 + 1) = .error .outOfRange :=
    Machine.Standard.points_lastMissing (by decide +kernel) (by decide +kernel)
  rw [Chart.lines, columns_refused (by decide) (by decide) refused] at drawn
  cases drawn

end

end Reckon.Chart
