import Mathlib.Algebra.BigOperators.Group.List.Basic
import Mathlib.Tactic.SplitIfs
import Reckon.Proofs.Scalar.Exact
import Reckon.Proofs.Sorting
import Reckon.Simulation.Histogram

/-!
Histograms lose no sample and put each one into its bin.

Whatever the rounding, each sample is counted once. With exact arithmetic the counts are those of
the samples between the edges of the bins.
-/

set_option autoImplicit false

namespace Reckon

namespace Histogram

/-! ## Tallies -/

theorem length_tally (bins : Nat) (indexes : List Int) : (tally bins indexes).length = bins := by
  simp [tally]

theorem getElem?_tally {bins i : Nat} (inside : i < bins) (indexes : List Int) :
    (tally bins indexes)[i]? = some (indexes.count (i : Int)) := by
  simp [tally, inside]

theorem countP_below_succ (bins : Nat) (indexes : List Int) :
    indexes.countP (fun i => 0 ≤ i ∧ i < ((bins + 1 : Nat) : Int)) =
      indexes.countP (fun i => 0 ≤ i ∧ i < (bins : Int)) + indexes.count (bins : Int) := by
  induction indexes with
  | nil => rfl
  | cons i indexes ih =>
    rw [List.countP_cons, List.countP_cons, List.count_cons, ih]
    simp only [decide_eq_true_eq, beq_iff_eq]
    split_ifs <;> omega

theorem sum_tally (bins : Nat) (indexes : List Int) :
    (tally bins indexes).sum = indexes.countP fun i => 0 ≤ i ∧ i < (bins : Int) := by
  induction bins with
  | zero =>
    have none : indexes.countP (fun i => 0 ≤ i ∧ i < ((0 : Nat) : Int)) = 0 :=
      List.countP_eq_zero.mpr fun i _ => by simp
    rw [none]
    rfl
  | succ bins ih =>
    have last : tally (bins + 1) indexes = tally bins indexes ++ [indexes.count (bins : Int)] := by
      simp [tally, List.range_succ]
    rw [last, List.sum_append, ih, List.sum_singleton, countP_below_succ]

/-! ## Histograms in any arithmetic -/

/-- There can be so many bins: a double comes near their number, and there is room for the
counters. -/
structure HasRoom [Machine] (bins : Nat) : Prop where
  double : (Binary.ofInt? bins).isSome = true
  counters : Machine.row true bins = .ok ()

section

variable {R : Type} [Scalar R] {samples : List R} {low high : R} {bins : Nat}

theorem binOf_lt (low width : R) (bins : Nat) (x : R) : binOf low width bins x < bins := by
  rw [binOf]
  omega

theorem binOf_nonneg_of_floor {width x : R} (some : 1 ≤ bins)
    (nonneg : 0 ≤ Scalar.floor ((x - low) / width)) : 0 ≤ binOf low width bins x := by
  have last : (0 : Int) ≤ (bins : Int) - 1 := by omega
  exact le_min nonneg last

variable [Machine] (isLow : samples.head? = some low) (isHigh : samples.getLast? = some high)
  (anyBins : 1 ≤ bins)

include isLow isHigh anyBins

theorem ofSorted_eq :
    ofSorted samples bins =
      if (Binary.ofInt? bins).isNone then .error .overflow
      else do
        Machine.row true bins
        let width := width low high bins
        if isSpread width then
          let indexes := samples.map (binOf low width bins)
          if indexes.any (· < 0) then throw (.unsuitable .negativeBinIndex)
          else return { low, high, counts := tally bins indexes }
        else return { low, high, counts := samples.length :: List.replicate (bins - 1) 0 } := by
  have notZero : ((bins : Int) = 0) = False := by simp; omega
  have notNegative : ((bins : Int) < 0) = False := by simp
  simp only [ofSorted, isLow, isHigh, notZero, notNegative, if_false, Int.toNat_natCast]
  rfl

theorem ofSorted_beyond (beyond : Binary.ofInt? bins = none) :
    ofSorted samples bins = .error .overflow := by
  rw [ofSorted_eq isLow isHigh anyBins, beyond]
  rfl

theorem ofSorted_refused {refusal : Failure} (double : (Binary.ofInt? bins).isSome = true)
    (refused : Machine.row true bins = .error refusal) :
    ofSorted samples bins = .error refusal := by
  rw [ofSorted_eq isLow isHigh anyBins, Option.isNone_eq_false_iff.mpr double, refused]
  rfl

variable (room : HasRoom bins)

include room

theorem ofSorted_flat (flat : isSpread (width low high bins) = false) :
    ofSorted samples bins =
      .ok ⟨low, high, samples.length :: List.replicate (bins - 1) 0⟩ := by
  rw [ofSorted_eq isLow isHigh anyBins, Option.isNone_eq_false_iff.mpr room.double, room.counters]
  simp only [flat, Bool.false_eq_true, if_false]
  rfl

theorem ofSorted_spread (spread : isSpread (width low high bins) = true)
    (nonneg : ∀ x ∈ samples, 0 ≤ binOf low (width low high bins) bins x) :
    ofSorted samples bins =
      .ok ⟨low, high, tally bins (samples.map (binOf low (width low high bins) bins))⟩ := by
  have inside : (samples.map (binOf low (width low high bins) bins)).any (· < 0) = false := by
    rw [List.any_eq_false]
    intro index member
    obtain ⟨x, isSample, rfl⟩ := List.mem_map.mp member
    rw [decide_eq_true_eq]
    exact not_lt.mpr (nonneg x isSample)
  rw [ofSorted_eq isLow isHigh anyBins, Option.isNone_eq_false_iff.mpr room.double, room.counters]
  simp only [spread, if_true, inside, Bool.false_eq_true, if_false]
  rfl

/-- Every sample is counted once, if none is put below the first bin. -/
theorem exists_counts (nonneg : isSpread (width low high bins) = true →
      ∀ x ∈ samples, 0 ≤ binOf low (width low high bins) bins x) :
    ∃ h, ofSorted samples bins = .ok h ∧ h.low = low ∧ h.high = high ∧ h.counts.length = bins ∧
      h.counts.sum = samples.length := by
  cases spread : isSpread (width low high bins) with
  | true =>
    have made := ofSorted_spread isLow isHigh anyBins room spread (nonneg spread)
    refine ⟨_, made, rfl, rfl, length_tally _ _, ?_⟩
    rw [sum_tally, List.countP_eq_length.mpr, List.length_map]
    intro index member
    obtain ⟨x, isSample, rfl⟩ := List.mem_map.mp member
    exact decide_eq_true ⟨nonneg spread x isSample, binOf_lt _ _ _ x⟩
  | false =>
    refine ⟨_, ofSorted_flat isLow isHigh anyBins room spread, rfl, rfl, ?_, ?_⟩
    · rw [List.length_cons, List.length_replicate]
      omega
    · simp

end

/-! ## Exact histograms -/

/-- The edge with the given index among those of as many bins, from the least sample to the greatest
one. -/
def edge (low high : Rat) (bins i : Nat) : Rat :=
  low + i * (high - low) / bins

/-- The sample is in the bin with the given index: from its lower edge up to its upper edge, which
only the last bin holds too. -/
def InBin (low high : Rat) (bins i : Nat) (x : Rat) : Prop :=
  edge low high bins i ≤ x ∧ (x < edge low high bins (i + 1) ∨ i + 1 = bins ∧ x = high)

instance (low high : Rat) (bins i : Nat) (x : Rat) : Decidable (InBin low high bins i x) :=
  inferInstanceAs (Decidable (_ ∧ _))

theorem edges_exact {h : Histogram Rat} {bins : Nat} (anyBins : 1 ≤ bins)
    (length : h.counts.length = bins) :
    h.edges = (List.range (bins + 1)).map (edge h.low h.high bins) := by
  rw [edges, length]
  exact Scalar.spaced_exact h.low h.high (by omega)

theorem width_exact (low high : Rat) (bins : Nat) : width low high bins = (high - low) / bins := rfl

theorem isSpread_exact (width : Rat) : isSpread width = true ↔ 0 < width := by
  rw [isSpread, Bool.and_eq_true, Scalar.lt_exact]
  exact and_iff_left rfl

theorem binOf_exact (low width : Rat) (bins : Nat) (x : Rat) :
    binOf low width bins x = min ⌊(x - low) / width⌋ ((bins : Int) - 1) := rfl

theorem edge_last (low high : Rat) {bins : Nat} (anyBins : 1 ≤ bins) :
    edge low high bins bins = high := by
  have steps : (bins : Rat) ≠ 0 := Nat.cast_ne_zero.mpr (by omega)
  rw [edge]
  field_simp
  ring

theorem isSpread_width_iff {low high : Rat} {bins : Nat} (anyBins : 1 ≤ bins) :
    isSpread (width low high bins) = true ↔ low < high := by
  have steps : (0 : Rat) < bins := by exact_mod_cast anyBins
  rw [isSpread_exact, width_exact, div_pos_iff_of_pos_right steps, sub_pos]

section

variable {low high x : Rat} {bins i : Nat} (anyBins : 1 ≤ bins)

include anyBins

/-- A sample is above an edge if it is as many widths above the least one. -/
theorem edge_le_iff (spread : low < high) :
    edge low high bins i ≤ x ↔ (i : Rat) ≤ (x - low) / width low high bins := by
  have wide : 0 < width low high bins :=
    (isSpread_exact _).mp ((isSpread_width_iff anyBins).mpr spread)
  rw [le_div_iff₀ wide, width_exact, edge, ← mul_div_assoc]
  constructor <;> intro le <;> linarith

theorem binOf_exact_nonneg (spread : low < high) (lower : low ≤ x) :
    0 ≤ binOf low (width low high bins) bins x := by
  refine binOf_nonneg_of_floor anyBins ?_
  have first : edge low high bins 0 = low := by simp [edge]
  have above : ((0 : Nat) : Rat) ≤ (x - low) / width low high bins := by
    rw [← edge_le_iff anyBins spread, first]
    exact lower
  exact Int.floor_nonneg.mpr (by exact_mod_cast above)

theorem binOf_eq_iff (spread : low < high) (upper : x ≤ high) (inside : i < bins) :
    binOf low (width low high bins) bins x = i ↔ InBin low high bins i x := by
  have above : edge low high bins i ≤ x ↔ (i : Int) ≤ ⌊(x - low) / width low high bins⌋ := by
    rw [edge_le_iff anyBins spread, Int.le_floor, Int.cast_natCast]
  have below : x < edge low high bins (i + 1) ↔
      ⌊(x - low) / width low high bins⌋ < ((i + 1 : Nat) : Int) := by
    rw [← not_le, edge_le_iff anyBins spread, Int.floor_lt, not_le, Int.cast_natCast]
  rw [binOf_exact, InBin, above]
  by_cases last : i + 1 = bins
  · -- whatever lies beyond is put into the last bin, and only the greatest sample does
    have held : x < edge low high bins (i + 1) ∨ i + 1 = bins ∧ x = high := by
      rw [last, edge_last low high anyBins]
      exact upper.lt_or_eq.imp_right fun same => ⟨rfl, same⟩
    have index : (bins : Int) - 1 = i := by omega
    rw [index, min_eq_right_iff, and_iff_left held]
  · rw [below]
    omega

end

/-- Samples in ascending order have an exact histogram, from the least one to the greatest one. -/
theorem exists_exact [Machine] {samples : List Rat} (nonempty : samples ≠ [])
    (ascending : samples.Pairwise (· ≤ ·)) {bins : Nat} (anyBins : 1 ≤ bins)
    (room : HasRoom bins) :
    ∃ h, ofSorted samples bins = .ok h ∧ samples.head? = some h.low ∧
      samples.getLast? = some h.high ∧ h.counts.length = bins ∧ h.counts.sum = samples.length ∧
      (h.low < h.high → ∀ i < bins,
        h.counts[i]? = some (samples.countP fun x => InBin h.low h.high bins i x)) ∧
      (h.low = h.high → h.counts = samples.length :: List.replicate (bins - 1) 0) := by
  have isLow := List.head?_eq_some_head nonempty
  have isHigh := List.getLast?_eq_some_getLast nonempty
  generalize samples.head nonempty = low at isLow
  generalize samples.getLast nonempty = high at isHigh
  have between (x : Rat) (member : x ∈ samples) : low ≤ x ∧ x ≤ high :=
    Sorting.bounds_of_mem (fun x _ => le_refl x) ascending isLow isHigh member
  have nonneg (spread : isSpread (width low high bins) = true) (x : Rat) (member : x ∈ samples) :
      0 ≤ binOf low (width low high bins) bins x :=
    binOf_exact_nonneg anyBins ((isSpread_width_iff anyBins).mp spread) (between x member).1
  obtain ⟨h, made, rfl, rfl, length, sum⟩ := exists_counts isLow isHigh anyBins room nonneg
  refine ⟨h, made, isLow, isHigh, length, sum, fun wide i inside => ?_, fun same => ?_⟩
  · have spread := (isSpread_width_iff anyBins).mpr wide
    rw [ofSorted_spread isLow isHigh anyBins room spread (nonneg spread)] at made
    have counts := congrArg Histogram.counts (Except.ok.inj made)
    rw [← counts, getElem?_tally inside, List.count, List.countP_map]
    refine congrArg some (List.countP_congr fun x member => ?_)
    rw [Function.comp_apply, beq_iff_eq, decide_eq_true_iff]
    exact binOf_eq_iff anyBins wide (between x member).2 inside
  · have flat : isSpread (width h.low h.high bins) = false := by
      rw [← Bool.not_eq_true, isSpread_width_iff anyBins, same]
      exact lt_irrefl _
    rw [ofSorted_flat isLow isHigh anyBins room flat] at made
    exact (congrArg Histogram.counts (Except.ok.inj made)).symm

/-- A histogram of some bins, of samples in ascending order. A number of bins that is beyond the
doubles is refused, and so is one that the machine has no room for. Otherwise there is a count for
each bin, and the counts add up to the samples. With exact arithmetic they are the counts of the
samples between the edges, and samples that are all the same are in the first bin; with any other
arithmetic they still add up if no quotient that puts a sample into a bin falls below zero. -/
theorem ofSorted_counts [Machine] {bins : Nat} (anyBins : 1 ≤ bins) :
    (∀ (R : Type) [Scalar R] (samples : List R), samples ≠ [] →
      (Binary.ofInt? bins = none → ofSorted samples bins = .error .overflow) ∧
      ∀ refusal, (Binary.ofInt? bins).isSome = true → Machine.row true bins = .error refusal →
        ofSorted samples bins = .error refusal) ∧
    (HasRoom bins →
      (∀ samples : List Rat, samples ≠ [] → samples.Pairwise (· ≤ ·) →
        ∃ h, ofSorted samples bins = .ok h ∧ samples.head? = some h.low ∧
          samples.getLast? = some h.high ∧ h.counts.length = bins ∧
          h.counts.sum = samples.length ∧
          h.edges = (List.range (bins + 1)).map (edge h.low h.high bins) ∧
          (h.low < h.high → ∀ i < bins,
            h.counts[i]? = some (samples.countP fun x => InBin h.low h.high bins i x)) ∧
          (h.low = h.high → h.counts = samples.length :: List.replicate (bins - 1) 0)) ∧
      (∀ (R : Type) [Scalar R] (samples : List R) (low high : R), samples.head? = some low →
        samples.getLast? = some high →
        (isSpread (width low high bins) = true →
          ∀ x ∈ samples, 0 ≤ Scalar.floor ((x - low) / width low high bins)) →
        ∃ h, ofSorted samples bins = .ok h ∧ h.counts.length = bins ∧
          h.counts.sum = samples.length)) := by
  refine ⟨fun R _ samples nonempty => ⟨?_, fun refusal => ?_⟩,
    fun room => ⟨fun samples nonempty ascending => ?_,
      fun R _ samples low high isLow isHigh nonneg => ?_⟩⟩
  · exact ofSorted_beyond (List.head?_eq_some_head nonempty)
      (List.getLast?_eq_some_getLast nonempty) anyBins
  · exact ofSorted_refused (List.head?_eq_some_head nonempty)
      (List.getLast?_eq_some_getLast nonempty) anyBins
  · obtain ⟨h, made, isLow, isHigh, length, sum, counts, flat⟩ :=
      exists_exact nonempty ascending anyBins room
    exact ⟨h, made, isLow, isHigh, length, sum, edges_exact anyBins length, counts, flat⟩
  · obtain ⟨h, made, _, _, length, sum⟩ := exists_counts isLow isHigh anyBins room
      fun spread x member => binOf_nonneg_of_floor anyBins (nonneg spread x member)
    exact ⟨h, made, length, sum⟩

section

attribute [local instance] Machine.standard

/-- A sample on the last edge, doubles whose quotients are rounded, and more bins than a double comes
near and than a row has. -/
theorem ofSorted_counts_tied :
    [(1 : Rat), 1, 2].Pairwise (· ≤ ·) ∧
    (∃ h, ofSorted [(1 : Rat), 1, 2] (4 : Nat) = .ok h ∧ h.counts.sum = 3 ∧
      h.counts[0]? = some 2 ∧ h.counts[3]? = some 1) ∧
    (∃ h, ofSorted [(0.1 : Float), 0.2, 0.7] (3 : Nat) = .ok h ∧ h.counts.length = 3 ∧
      h.counts.sum = 3) ∧
    ofSorted [(1 : Rat)] (Binary.twoPow 1024) = .error .overflow ∧
    ofSorted [(1 : Rat)] (Binary.twoPow 63) = .error (.unsuitable .beyondCount) := by
  have ascending : [(1 : Rat), 1, 2].Pairwise (· ≤ ·) := by decide +kernel
  obtain ⟨exact, _⟩ := (ofSorted_counts (by decide : 1 ≤ 4)).2 ⟨by decide +kernel, rfl⟩
  obtain ⟨_, rounded⟩ := (ofSorted_counts (by decide : 1 ≤ 3)).2 ⟨by decide +kernel, rfl⟩
  have some (n : Nat) : 1 ≤ Binary.twoPow n := Nat.one_le_two_pow
  obtain ⟨beyond, _⟩ := (ofSorted_counts (some 1024)).1 Rat [1] (by decide)
  obtain ⟨_, refused⟩ := (ofSorted_counts (some 63)).1 Rat [1] (by decide)
  obtain ⟨h, made, isLow, isHigh, _, sum, _, counts, _⟩ := exact [1, 1, 2] (by decide) ascending
  have low : h.low = 1 := (Option.some.inj isLow).symm
  have high : h.high = 2 := (Option.some.inj isHigh).symm
  rw [low, high] at counts
  have wide : (1 : Rat) < 2 := by decide +kernel
  refine ⟨ascending, ⟨h, made, sum, ?_, ?_⟩,
    rounded Float _ 0.1 0.7 rfl rfl fun _ => by decide +kernel, beyond (by decide +kernel),
    refused _ (by decide +kernel) rfl⟩
  · rw [counts wide 0 (by decide)]
    decide +kernel
  · rw [counts wide 3 (by decide)]
    decide +kernel

/-- More bins than can be counted are refused, although a single sample needs one of them only. -/
theorem ofSorted_beyondCount :
    ¬∀ bins : Nat, 1 ≤ bins → ∀ samples : List Rat, samples ≠ [] → samples.Pairwise (· ≤ ·) →
      ∃ h, ofSorted samples bins = .ok h ∧ h.counts.length = bins := by
  intro always
  obtain ⟨h, made, _⟩ := always (2 ^ 63) (by decide) [1] (by decide) (by decide)
  rw [ofSorted_refused rfl rfl (by decide) (by decide +kernel) rfl] at made
  cases made

end

end Histogram

end Reckon
