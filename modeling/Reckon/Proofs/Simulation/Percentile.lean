import Mathlib.Algebra.Order.Floor.Ring
import Reckon.Proofs.Machine
import Reckon.Proofs.Simulation.Run

/-!
Percentiles are samples of their rank.

With exact arithmetic no more than the share of the samples lies strictly below a percentile, and
more than the share does not lie above it. That alone orders percentiles. What a summary shows is
computed with doubles, but for as many samples as a row has it is the exact percentile.
-/

set_option autoImplicit false

namespace Reckon

open Double

structure Ordered (samples : List Float) : Prop where
  nonempty : samples ≠ []
  finite : ∀ x ∈ samples, x.isFinite = true
  ascending : samples.Pairwise fun x y => x ≤ y

/-- The sample of the rank that a share of the list leads to: no more than the share of all samples
lies strictly below it, and more than the share does not lie above it. -/
structure IsPercentile (samples : List Float) (q : Rat) (x : Float) : Prop where
  member : x ∈ samples
  below : (samples.countP fun y => y < x) ≤ samples.length * q
  upTo : samples.length * q < samples.countP fun y => y ≤ x

namespace Ordered

variable {samples : List Float} (ordered : Ordered samples) {x y : Float}

include ordered

theorem le_iff_units (memberX : x ∈ samples) (memberY : y ∈ samples) :
    x ≤ y ↔ units x ≤ units y :=
  le_iff ((isFinite_iff x).mp (ordered.finite x memberX))
    ((isFinite_iff y).mp (ordered.finite y memberY))

theorem lt_iff_units (memberX : x ∈ samples) (memberY : y ∈ samples) :
    x < y ↔ units x < units y :=
  lt_iff ((isFinite_iff x).mp (ordered.finite x memberX))
    ((isFinite_iff y).mp (ordered.finite y memberY))

theorem le_self (x : Float) (member : x ∈ samples) : x ≤ x :=
  (ordered.le_iff_units member member).mpr (le_refl _)

/-- A percentile of a greater share is not below one of a smaller share. -/
theorem percentile_le {q q' : Rat} (isX : IsPercentile samples q x)
    (isY : IsPercentile samples q' y) (le : q ≤ q') : x ≤ y := by
  rw [ordered.le_iff_units isX.member isY.member]
  by_contra below
  -- all that does not lie above the one lies strictly below the other, against their shares
  have counts : (samples.countP fun z => z ≤ y) ≤ samples.countP fun z => z < x := by
    refine List.countP_mono_left fun z member upTo => ?_
    rw [decide_eq_true_iff] at upTo ⊢
    rw [ordered.le_iff_units member isY.member] at upTo
    rw [ordered.lt_iff_units member isX.member]
    omega
  have shares : (samples.length : Rat) * q ≤ samples.length * q' :=
    mul_le_mul_of_nonneg_left le (Nat.cast_nonneg _)
  have bound : ((samples.countP fun z => z ≤ y : Nat) : Rat) ≤ samples.length * q :=
    (Nat.cast_le.mpr counts).trans isX.below
  exact absurd isY.upTo (not_lt.mpr (bound.trans shares))

end Ordered

/-! ## Exact percentiles -/

section

variable {α : Type} {samples : List α} {q : Rat} (nonneg : 0 ≤ q) (belowOne : q < 1)

include nonneg belowOne

theorem nearestRank?_exact : nearestRank? samples q = samples[⌊samples.length * q⌋₊]? := by
  have share : (Scalar.le (Scalar.ofInt 0) q && Scalar.lt q (Scalar.ofInt 1)) = true := by
    rw [Bool.and_eq_true, Scalar.le_exact, Scalar.lt_exact]
    exact ⟨nonneg, belowOne⟩
  rw [nearestRank?, if_pos share, Scalar.share_exact, Int.floor_toNat]

theorem floor_share_lt (nonempty : samples ≠ []) : ⌊samples.length * q⌋₊ < samples.length := by
  have length : (0 : Rat) < samples.length := Nat.cast_pos.mpr (List.length_pos_of_ne_nil nonempty)
  rw [Nat.floor_lt (mul_nonneg length.le nonneg)]
  exact mul_lt_of_lt_one_right length belowOne

theorem exists_nearestRank? (nonempty : samples ≠ []) :
    ∃ x ∈ samples, nearestRank? samples q = some x := by
  have inside := floor_share_lt nonneg belowOne nonempty
  refine ⟨_, List.getElem_mem inside, ?_⟩
  rw [nearestRank?_exact nonneg belowOne, List.getElem?_eq_getElem inside]

end

namespace Ordered

variable {samples : List Float} (ordered : Ordered samples) {q : Rat} (nonneg : 0 ≤ q)
  (belowOne : q < 1)

include ordered nonneg belowOne

theorem exists_percentile : ∃ x, nearestRank? samples q = some x ∧ IsPercentile samples q x := by
  have inside := floor_share_lt nonneg belowOne ordered.nonempty
  have product : 0 ≤ samples.length * q := mul_nonneg (Nat.cast_nonneg _) nonneg
  have member := List.getElem_mem inside
  rw [nearestRank?_exact nonneg belowOne, List.getElem?_eq_getElem inside]
  refine ⟨_, rfl, member, ?_, ?_⟩
  · refine (Nat.cast_le.mpr ?_).trans (Nat.floor_le product)
    refine Sorting.countP_le_index ordered.le_self ordered.ascending inside fun y isSample le => ?_
    rw [ordered.le_iff_units member isSample] at le
    rw [decide_eq_false_iff_not, ordered.lt_iff_units isSample member]
    exact not_lt.mpr le
  · refine (Nat.floor_lt product).mp ?_
    exact Sorting.index_lt_countP ordered.le_self ordered.ascending inside
      fun y _ le => decide_eq_true le

theorem isPercentile {x : Float} (found : nearestRank? samples q = some x) :
    IsPercentile samples q x := by
  obtain ⟨y, isY, rank⟩ := ordered.exists_percentile nonneg belowOne
  rw [found] at isY
  cases isY
  exact rank

end Ordered

namespace Summary

/-! ## Percentiles of summaries -/

theorem atShare_eq_ok {samples : List Float} {q x : Float} :
    atShare samples q = .ok x ↔ nearestRank? samples q = some x := by
  rw [atShare]
  cases nearestRank? samples q <;> simp

theorem percentile_eq_ok {s : Summary} {q x : Float} :
    s.percentile q = .ok x ↔ nearestRank? s.samples q = some x := by
  rw [← atShare_eq_ok]
  by_cases share : Scalar.isShare q = true
  · have same : s.percentile q = atShare s.samples q := if_pos share
    rw [same]
  · have refused : s.percentile q = .error (.unsuitable (.quantile q)) := if_neg share
    have none : nearestRank? s.samples q = none := if_neg share
    rw [refused, atShare, none]
    simp

theorem isShare_of_nearestRank? {samples : List Float} {q x : Float}
    (found : nearestRank? samples q = some x) : Scalar.isShare q = true := by
  by_contra outside
  have none : nearestRank? samples q = none := if_neg outside
  rw [none] at found
  cases found

/-- Computed with doubles, too, a percentile of a greater share is not below one of a smaller
share. -/
theorem percentile_mono {s : Summary} (ordered : Ordered s.samples) {q q' x x' : Float}
    (le : q ≤ q') (isX : s.percentile q = .ok x) (isX' : s.percentile q' = .ok x') : x ≤ x' := by
  rw [percentile_eq_ok] at isX isX'
  have share := isShare_of_nearestRank? isX
  have share' := isShare_of_nearestRank? isX'
  rw [nearestRank?_double share] at isX
  rw [nearestRank?_double share'] at isX'
  obtain ⟨_, rfl⟩ := List.getElem?_eq_some_iff.mp isX
  obtain ⟨inside, rfl⟩ := List.getElem?_eq_some_iff.mp isX'
  exact Sorting.getElem_mono ordered.le_self ordered.ascending
    (Int.toNat_le_toNat (Scalar.doubleShare_mono share share' le)) inside

/-- The shares that a summary shows, as a double and exactly, and the samples at them. -/
def marks (s : Summary) : List (Float × Rat × Float) :=
  [(0.05, 1 / 20, s.p5), (0.10, 1 / 10, s.p10), (0.5, 1 / 2, s.median), (0.90, 9 / 10, s.p90),
    (0.95, 19 / 20, s.p95)]

theorem standsFor_of_mem {s : Summary} {q x : Float} {p : Rat} (member : (q, p, x) ∈ s.marks) :
    Scalar.isShare q = true ∧ 0 ≤ p ∧ p < 1 ∧ Scalar.StandsFor q p := by
  simp only [marks, List.mem_cons, List.not_mem_nil, or_false, Prod.mk.injEq] at member
  rcases member with ⟨rfl, rfl, -⟩ | ⟨rfl, rfl, -⟩ | ⟨rfl, rfl, -⟩ | ⟨rfl, rfl, -⟩ | ⟨rfl, rfl, -⟩
  all_goals
    refine ⟨by decide +kernel, by decide +kernel, by decide +kernel, ?_⟩
    constructor <;> decide +kernel

theorem marks_of_ofSorted [Machine] {samples : List Float} {trials : Int} {s : Summary}
    (made : ofSorted samples trials = .ok s) :
    s.samples = samples ∧ Histogram.ofSorted samples Histogram.standardBins = .ok s.histogram ∧
      ∀ q p x, (q, p, x) ∈ s.marks → atShare samples q = .ok x := by
  rw [ofSorted] at made
  split at made
  · cases made
  · obtain ⟨p5, isP5, made⟩ := bind_eq_ok.mp made
    obtain ⟨p10, isP10, made⟩ := bind_eq_ok.mp made
    obtain ⟨median, isMedian, made⟩ := bind_eq_ok.mp made
    obtain ⟨p90, isP90, made⟩ := bind_eq_ok.mp made
    obtain ⟨p95, isP95, made⟩ := bind_eq_ok.mp made
    obtain ⟨histogram, isHistogram, made⟩ := bind_eq_ok.mp made
    cases made
    refine ⟨rfl, isHistogram, fun q p x member => ?_⟩
    simp only [marks, List.mem_cons, List.not_mem_nil, or_false, Prod.mk.injEq] at member
    rcases member with ⟨rfl, -, rfl⟩ | ⟨rfl, -, rfl⟩ | ⟨rfl, -, rfl⟩ | ⟨rfl, -, rfl⟩ | ⟨rfl, -, rfl⟩
    all_goals assumption

/-- For as many samples as a row has, a double leads to the percentile of the fraction it stands
for. -/
theorem nearestRank?_of_standsFor {samples : List Float} {q : Float} {p : Rat}
    (share : Scalar.isShare q = true) (nonneg : 0 ≤ p) (belowOne : p < 1)
    (stands : Scalar.StandsFor q p) (room : samples.length < 2 ^ 45) :
    nearestRank? samples q = nearestRank? samples p := by
  rw [nearestRank?_double share, nearestRank?_exact nonneg belowOne, stands.doubleShare_eq room,
    Scalar.share_exact, Int.floor_toNat]

/-- A summary has a sample at each share, in the order of the shares. What it shows are the samples
at the shares it shows, also if these are read exactly, between the least sample and the greatest
one. -/
structure Ranked (s : Summary) : Prop where
  ordered : Ordered s.samples
  percentile : ∀ q, 0 ≤ q → q < 1 → ∃ x ∈ s.samples, s.percentile q = .ok x
  mono : ∀ q q' x x', q ≤ q' → s.percentile q = .ok x → s.percentile q' = .ok x' → x ≤ x'
  low : s.samples.head? = some s.histogram.low
  high : s.samples.getLast? = some s.histogram.high
  marks : ∀ q p x, (q, p, x) ∈ s.marks →
    s.percentile q = .ok x ∧ nearestRank? s.samples p = some x
  inOrder : s.histogram.low ≤ s.p5 ∧ s.p5 ≤ s.p10 ∧ s.p10 ≤ s.median ∧ s.median ≤ s.p90 ∧
    s.p90 ≤ s.p95 ∧ s.p95 ≤ s.histogram.high

section

variable [Machine] {s : Summary} {trials : Int} (ordered : Ordered s.samples)
  (made : ofSorted s.samples trials = .ok s)

include ordered made

theorem ends_of_ofSorted : s.samples.head? = some s.histogram.low ∧
    s.samples.getLast? = some s.histogram.high := by
  have byRank := (Simulation.pairwise_rank_iff ordered.finite).mpr ordered.ascending
  have counters := counters_of_ofSorted trials ordered.nonempty made
  obtain ⟨h, counted, isLow, isHigh, _⟩ :=
    Histogram.ofSorted_ok ordered.nonempty byRank counters ordered.finite
  rw [(marks_of_ofSorted made).2.1] at counted
  cases counted
  rw [isLow, isHigh]
  exact ⟨List.head?_eq_some_head ordered.nonempty, List.getLast?_eq_some_getLast ordered.nonempty⟩

variable (room : s.samples.length < 2 ^ 45)

include room

omit ordered in
theorem found_of_ofSorted {q x : Float} {p : Rat} (mark : (q, p, x) ∈ s.marks) :
    s.percentile q = .ok x ∧ nearestRank? s.samples p = some x := by
  obtain ⟨share, nonneg, belowOne, stands⟩ := standsFor_of_mem mark
  have shown := (marks_of_ofSorted made).2.2 q p x mark
  rw [percentile_eq_ok, ← nearestRank?_of_standsFor share nonneg belowOne stands room]
  exact ⟨atShare_eq_ok.mp shown, atShare_eq_ok.mp shown⟩

theorem isPercentile_of_ofSorted {q x : Float} {p : Rat} (mark : (q, p, x) ∈ s.marks) :
    IsPercentile s.samples p x := by
  obtain ⟨_, nonneg, belowOne, _⟩ := standsFor_of_mem mark
  exact ordered.isPercentile nonneg belowOne (found_of_ofSorted made room mark).2

theorem ranked_of_ofSorted : s.Ranked := by
  obtain ⟨low, high⟩ := ends_of_ofSorted ordered made
  have rank {q x : Float} {p : Rat} (mark : (q, p, x) ∈ s.marks) : IsPercentile s.samples p x :=
    isPercentile_of_ofSorted ordered made room mark
  have is5 : IsPercentile s.samples (1 / 20) s.p5 := rank (q := 0.05) (by simp [marks])
  have is10 : IsPercentile s.samples (1 / 10) s.p10 := rank (q := 0.10) (by simp [marks])
  have is50 : IsPercentile s.samples (1 / 2) s.median := rank (q := 0.5) (by simp [marks])
  have is90 : IsPercentile s.samples (9 / 10) s.p90 := rank (q := 0.90) (by simp [marks])
  have is95 : IsPercentile s.samples (19 / 20) s.p95 := rank (q := 0.95) (by simp [marks])
  have between {x : Float} (member : x ∈ s.samples) : s.histogram.low ≤ x ∧ x ≤ s.histogram.high :=
    Sorting.bounds_of_mem ordered.le_self ordered.ascending low high member
  refine ⟨ordered, fun q nonneg belowOne => ?_, fun _ _ _ _ => percentile_mono ordered, low, high,
    fun _ _ _ => found_of_ofSorted made room, ?_, ?_, ?_, ?_, ?_, ?_⟩
  · obtain ⟨x, member, shown⟩ := atShare_ok (Scalar.isShare_of_lt nonneg belowOne) ordered.nonempty
    exact ⟨x, member, percentile_eq_ok.mpr (atShare_eq_ok.mp shown)⟩
  · exact (between is5.member).1
  · exact ordered.percentile_le is5 is10 (by norm_num)
  · exact ordered.percentile_le is10 is50 (by norm_num)
  · exact ordered.percentile_le is50 is90 (by norm_num)
  · exact ordered.percentile_le is90 is95 (by norm_num)
  · exact (between is95.member).2

end

end Summary

namespace Simulation

open Reckon.Random

theorem ordered_ascending {kept : List Float} (finite : ∀ x ∈ kept, x.isFinite = true)
    (some : ascending kept ≠ []) : Ordered (ascending kept) := by
  have finiteSorted (x : Float) (member : x ∈ ascending kept) : x.isFinite = true :=
    finite x ((perm_ascending kept).mem_iff.mp member)
  exact ⟨some, finiteSorted, (pairwise_rank_iff finiteSorted).mp (pairwise_ascending kept)⟩

/-- Percentiles of finite samples in ascending order, read exactly, are the samples of their rank,
and a greater share never has a smaller one. What a simulation shows are the percentiles at the
shares it shows, in that order and between the least and the greatest value of its trials, on every
machine whose rows fit into a memory. -/
theorem nearestRank_spec [Machine] [Machine.Lawful] :
    (∀ samples : List Float, Ordered samples →
      (∀ q : Rat, 0 ≤ q → q < 1 →
        ∃ x, nearestRank? samples q = some x ∧ IsPercentile samples q x) ∧
      ∀ (q q' : Rat) (x x' : Float), 0 ≤ q → q ≤ q' → q' < 1 → nearestRank? samples q = some x →
        nearestRank? samples q' = some x' → x ≤ x') ∧
    ∀ (stale : Nat → Float) (e : Expr) (bindings : List (String × Distribution)) (trials : Value)
      (s after : Source) (summary : Summary),
      (simulateOver stale e bindings trials s).result = .ok (summary, after) →
        summary.Ranked := by
  refine ⟨fun samples ordered => ⟨fun q => ordered.exists_percentile, ?_⟩, ?_⟩
  · intro q q' x x' nonneg le belowOne isX isX'
    have rank := ordered.isPercentile nonneg (le.trans_lt belowOne) isX
    have rank' := ordered.isPercentile (nonneg.trans le) belowOne isX'
    exact ordered.percentile_le rank rank' le
  · intro stale e bindings trials s after summary done
    obtain ⟨kept, count, room, most, finite, made⟩ := kept_of_simulateOver done
    have some : ascending kept ≠ [] := by
      intro none
      rw [none] at made
      cases made
    have ordered := ordered_ascending finite some
    have few : (ascending kept).length < 2 ^ 45 := by
      rw [(perm_ascending kept).length_eq]
      exact Nat.lt_of_le_of_lt most (Machine.Lawful.lt_of_row room)
    obtain ⟨same, _⟩ := Summary.marks_of_ofSorted made
    rw [← same] at ordered made few
    exact Summary.ranked_of_ofSorted ordered made few

section

attribute [local instance] Machine.standard

/-- Samples of which two are the same, and a simulation of which two values are the same. -/
theorem nearestRank_spec_tied :
    Ordered [1, 1, 2] ∧ nearestRank? [(1 : Float), 1, 2] (1 / 2 : Rat) = some 1 ∧
      nearestRank? [(1 : Float), 1, 2] (2 / 3 : Rat) = some 2 ∧ IsPercentile [1, 1, 2] (1 / 2) 1 ∧
      (1 : Float) ≤ 2 ∧
      ∃ summary after, (simulateOver (fun _ => 7) (.var "x") [("x", .uniform 0 1)] (.int 3)
          (.listed [0.25, 0.5, 0.5])).result = .ok (summary, after) ∧
        summary.p5 = 0.25 ∧ summary.median = 0.5 ∧ summary.Ranked := by
  obtain ⟨exact, shown⟩ := nearestRank_spec
  have ordered : Ordered [1, 1, 2] := ⟨by decide, by decide +kernel, by decide +kernel⟩
  have half : nearestRank? [(1 : Float), 1, 2] (1 / 2 : Rat) = some 1 := by decide +kernel
  have more : nearestRank? [(1 : Float), 1, 2] (2 / 3 : Rat) = some 2 := by decide +kernel
  obtain ⟨ranks, mono⟩ := exact _ ordered
  obtain ⟨x, found, rank⟩ := ranks (1 / 2) (by decide +kernel) (by decide +kernel)
  rw [half] at found
  cases found
  refine ⟨ordered, half, more, rank, ?_, ?_⟩
  · exact mono (1 / 2) (2 / 3) 1 2 (by decide +kernel) (by decide +kernel) (by decide +kernel)
      half more
  · obtain ⟨rows, drawn, values⟩ : ∃ rows,
        drawTrials? [("x", .uniform 0 1)] 3 (.listed [0.25, 0.5, 0.5]) = some (rows, .listed []) ∧
          rows.filterMap (finiteValue? (.var "x")) = [0.25, 0.5, 0.5] :=
      ⟨_, rfl, by decide +kernel⟩
    obtain ⟨summary, made, lowest, middle⟩ : ∃ summary, Summary.ofSorted [0.25, 0.5, 0.5] 3 =
        .ok summary ∧ summary.p5 = 0.25 ∧ summary.median = 0.5 := by
      refine ⟨_, rfl, ?_, ?_⟩ <;> decide +kernel
    have sorted : ascending [0.25, 0.5, 0.5] = [0.25, 0.5, 0.5] :=
      List.mergeSort_of_pairwise (by decide +kernel)
    have plain : (Expr.var "x").foreigns = [] := rfl
    have result := result_of_drawTrials? (fun _ => 7) plain (.whole 3) rfl drawn
    rw [values, sorted] at result
    have done := result.trans (congrArg (Except.map _) made)
    exact ⟨summary, _, done, lowest, middle, shown _ _ _ _ _ _ summary done⟩

end

end Simulation

end Reckon
