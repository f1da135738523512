import Reckon.Proofs.Scalar.Share
import Reckon.Proofs.Simulation.Histogram
import Reckon.Simulation.Summary

/-!
Summaries of finite samples in ascending order never fail.

A share below one of a count never rounds up to the count, and no sample is put below the first bin,
although the differences and quotients that lead there are rounded.
-/

set_option autoImplicit false

namespace Reckon

open Double

/-! ## Shares -/

namespace Summary

section

variable {samples : List Float} {q : Float} (share : Scalar.isShare q = true)

include share

theorem nearestRank?_double :
    nearestRank? samples q = samples[(Scalar.doubleShare samples.length q).toNat]? :=
  if_pos share

theorem atShare_ok (nonempty : samples ≠ []) : ∃ x ∈ samples, atShare samples q = .ok x := by
  have some := List.length_pos_of_ne_nil nonempty
  obtain ⟨nonneg, below⟩ := Scalar.doubleShare_lt share some
  have index : (Scalar.doubleShare samples.length q).toNat < samples.length := by omega
  have found : nearestRank? samples q = _ := nearestRank?_double share
  rw [List.getElem?_eq_getElem index] at found
  refine ⟨_, List.getElem_mem index, ?_⟩
  rw [atShare, found]

end

end Summary

/-! ## Bins -/

namespace Histogram

theorem magnitude_bins :
    magnitude (Scalar.ofInt standardBins) = 60 * 2 ^ unitBits := by
  have parts : Binary.parts (Scalar.ofInt standardBins) = (60 * 2 ^ 47, -47) := by decide +kernel
  have bits : unitBits = 47 + (-47 + 1074 : Int).toNat := unitBits_eq
  rw [magnitude, parts, bits, Nat.pow_add, ← Nat.mul_assoc]

theorem sub_of_le {low x : Float} (finiteLow : field low ≠ 2047) (finiteX : field x ≠ 2047)
    (le : units low ≤ units x) (finite : field (x - low) ≠ 2047) :
    units (x - low) = Binary.roundBits 53 (units x - units low).toNat := by
  obtain ⟨within, beyond⟩ := sub_roundsTo finiteX finiteLow
  have size : (units x - units low).natAbs = (units x - units low).toNat := by omega
  rcases Nat.lt_or_ge (Binary.roundBits 53 (units x - units low).natAbs) overflow with less | more
  · obtain ⟨_, unitsIs⟩ := within less
    rw [unitsIs, roundedUnits, size]
    rcases Int.lt_or_eq_of_le (Int.sub_nonneg.mpr le) with positive | zero
    · rw [Int.sign_eq_one_of_pos positive, Int.one_mul]
    · rw [← zero]
      rfl
  · have infinite := beyond more
    rw [(isFinite_iff _).mpr finite] at infinite
    exact absurd infinite (by decide)

/-- What lies between two doubles is no farther from the lower one than the upper one is. -/
theorem sub_between {low high x : Float} (finiteLow : field low ≠ 2047)
    (finiteHigh : field high ≠ 2047) (finiteX : field x ≠ 2047)
    (finiteD : field (high - low) ≠ 2047) (lower : units low ≤ units x)
    (upper : units x ≤ units high) :
    field (x - low) ≠ 2047 ∧ 0 ≤ units (x - low) ∧ units (x - low) ≤ units (high - low) := by
  have mono : Binary.roundBits 53 (units x - units low).toNat ≤
      Binary.roundBits 53 (units high - units low).toNat :=
    Binary.roundBits_mono (by decide) (by omega)
  have unitsD := sub_of_le finiteLow finiteHigh (lower.trans upper) finiteD
  have finiteS : field (x - low) ≠ 2047 := by
    have within : Binary.roundBits 53 (units x - units low).natAbs < overflow := by
      have small := magnitude_lt_overflow finiteD
      have sizeD := magnitude_of_nonneg (x := high - low) (by omega)
      have same : (units x - units low).natAbs = (units x - units low).toNat := by omega
      rw [same]
      omega
    exact ((sub_roundsTo finiteX finiteLow).finite within).1
  have unitsS := sub_of_le finiteLow finiteX lower finiteS
  exact ⟨finiteS, by omega, by omega⟩

section

variable {low high : Float} (spread : isSpread (width low high standardBins) = true)

include spread

theorem width_finite : field (width low high standardBins) ≠ 2047 := by
  rw [isSpread, Bool.and_eq_true] at spread
  exact (isFinite_iff _).mp spread.2

theorem width_positive : 0 < units (width low high standardBins) := by
  have finite := width_finite spread
  have finiteZero : field (Scalar.ofInt 0) ≠ 2047 := by decide +kernel
  have order := lt_iff finiteZero finite
  rw [Scalar.units_zero] at order
  rw [isSpread, Bool.and_eq_true] at spread
  exact order.mp (of_decide_eq_true spread.1)

theorem difference_finite : field (high - low) ≠ 2047 := by
  intro all
  have finiteBins : field (Scalar.ofInt standardBins) ≠ 2047 := by decide +kernel
  have infinite := div_not_finite all finiteBins
  rw [isSpread, Bool.and_eq_true] at spread
  have finite : (width low high standardBins).isFinite = true := spread.2
  rw [width, infinite] at finite
  exact absurd finite (by decide)

theorem difference_lt_width :
    magnitude (high - low) < 120 * magnitude (width low high standardBins) := by
  have finite := width_finite spread
  have positive := width_positive spread
  have finiteD := difference_finite spread
  have finiteBins : field (Scalar.ofInt standardBins) ≠ 2047 := by decide +kernel
  have size := magnitude_of_nonneg positive.le
  have some : 0 < magnitude (width low high standardBins) := by omega
  have scale : 0 < 2 ^ unitBits := Nat.two_pow_pos _
  have positiveBins : 0 < magnitude (Scalar.ofInt standardBins) := by
    rw [magnitude_bins]
    omega
  rcases Nat.eq_zero_or_pos (magnitude (high - low)) with zero | positiveD
  · omega
  · have bound := magnitude_dividend_lt finiteD finiteBins positiveD positiveBins
      ((isFinite_iff _).mpr finite) some
    rw [magnitude_bins] at bound
    refine Nat.lt_of_mul_lt_mul_right (a := 2 ^ unitBits) (bound.trans_eq ?_)
    change 2 * magnitude (width low high standardBins) * _ = _
    ring

/-- No sample between the least and the greatest one is put below the first bin. -/
theorem binOf_nonneg {x : Float} (finiteLow : field low ≠ 2047) (finiteHigh : field high ≠ 2047)
    (finiteX : field x ≠ 2047) (lower : units low ≤ units x) (upper : units x ≤ units high) :
    0 ≤ binOf low (width low high standardBins) standardBins x := by
  have finite := width_finite spread
  have positive := width_positive spread
  have finiteD := difference_finite spread
  have narrow := difference_lt_width spread
  obtain ⟨finiteS, nonnegS, near⟩ := sub_between finiteLow finiteHigh finiteX finiteD lower upper
  have comparable : magnitude (x - low) ≤ 2 ^ 50 * magnitude (width low high standardBins) := by
    have sizeS := magnitude_of_nonneg nonnegS
    have sizeD := magnitude_of_nonneg (nonnegS.trans near)
    omega
  obtain ⟨finiteQ, nonnegQ, fraction⟩ :=
    div_bounded finiteS finite nonnegS positive comparable
  have floor : 0 ≤ Scalar.floor ((x - low) / width low high standardBins) :=
    floor_nonneg finiteQ nonnegQ fraction
  have bins : (0 : Int) ≤ (standardBins : Int) - 1 := by decide
  exact le_min floor bins

end

section

variable {samples : List Float} (nonempty : samples ≠ [])
  (ascending : samples.Pairwise fun x y => Binary.rank x ≤ Binary.rank y)

include ascending

/-- The first sample is the least one and the last sample is the greatest one. -/
theorem bounds_of_ascending {x : Float} (member : x ∈ samples) :
    units (samples.head nonempty) ≤ units x ∧ units x ≤ units (samples.getLast nonempty) := by
  rw [← rank_le_iff, ← rank_le_iff]
  exact Sorting.bounds_of_mem (fun x _ => le_refl (Binary.rank x)) ascending
    (List.head?_eq_some_head nonempty) (List.getLast?_eq_some_getLast nonempty) member

include nonempty in
/-- Finite samples in ascending order have a histogram, from the first one to the last one, that
counts each of them once. -/
theorem ofSorted_ok [Machine] (counters : Machine.row true standardBins = .ok ())
    (finite : ∀ x ∈ samples, x.isFinite = true) :
    ∃ h, ofSorted samples standardBins = .ok h ∧ h.low = samples.head nonempty ∧
      h.high = samples.getLast nonempty ∧ h.counts.length = standardBins ∧
      h.counts.sum = samples.length := by
  have finiteField (x : Float) (member : x ∈ samples) : field x ≠ 2047 :=
    (isFinite_iff x).mp (finite x member)
  refine exists_counts (List.head?_eq_some_head nonempty) (List.getLast?_eq_some_getLast nonempty)
    (by decide) ⟨by decide +kernel, counters⟩ fun spread x member => ?_
  -- only bins with a width ask for the place of each sample
  obtain ⟨lower, upper⟩ := bounds_of_ascending nonempty ascending member
  exact binOf_nonneg spread (finiteField _ (List.head_mem nonempty))
    (finiteField _ (List.getLast_mem nonempty)) (finiteField x member) lower upper

end

end Histogram

namespace Summary

/-- What a chart takes for granted: as many bins as a histogram has, finite ends, and percentiles
between them. -/
structure Charted (s : Summary) : Prop where
  bins : s.histogram.counts.length = Histogram.standardBins
  low : field s.histogram.low ≠ 2047
  high : field s.histogram.high ≠ 2047
  marks : ∀ x ∈ [s.p10, s.p90],
    field x ≠ 2047 ∧ units s.histogram.low ≤ units x ∧ units x ≤ units s.histogram.high

section

variable [Machine] {samples : List Float} (trials : Int) (nonempty : samples ≠ [])

include nonempty

theorem exists_ofSorted :
    ∃ p5 p10 median p90 p95, p10 ∈ samples ∧ p90 ∈ samples ∧
      ofSorted samples trials = do
        let histogram ← Histogram.ofSorted samples Histogram.standardBins
        return {
          samples, mean := Scalar.mean samples, median, p5, p10, p90, p95, histogram, trials } := by
  have some : samples.isEmpty = false := by
    cases samples with
    | nil => exact absurd rfl nonempty
    | cons => rfl
  have share (q : Float) (inside : Scalar.isShare q = true) :
      ∃ x ∈ samples, atShare samples q = .ok x := atShare_ok inside nonempty
  obtain ⟨p5, _, isP5⟩ := share 0.05 (by decide +kernel)
  obtain ⟨p10, member10, isP10⟩ := share 0.10 (by decide +kernel)
  obtain ⟨median, _, isMedian⟩ := share 0.5 (by decide +kernel)
  obtain ⟨p90, member90, isP90⟩ := share 0.90 (by decide +kernel)
  obtain ⟨p95, _, isP95⟩ := share 0.95 (by decide +kernel)
  refine ⟨p5, p10, median, p90, p95, member10, member90, ?_⟩
  rw [ofSorted, some, isP5, isP10, isMedian, isP90, isP95]
  rfl

theorem ofSorted_refused {refusal : Failure}
    (refused : Machine.row true Histogram.standardBins = .error refusal) :
    ofSorted samples trials = .error refusal := by
  obtain ⟨_, _, _, _, _, _, _, made⟩ := exists_ofSorted trials nonempty
  rw [made, Histogram.ofSorted_refused (List.head?_eq_some_head nonempty)
    (List.getLast?_eq_some_getLast nonempty) (by decide) (by decide +kernel) refused]
  rfl

theorem counters_of_ofSorted {summary : Summary}
    (made : ofSorted samples trials = .ok summary) :
    Machine.row true Histogram.standardBins = .ok () := by
  cases granted : Machine.row true Histogram.standardBins with
  | ok => rfl
  | error refusal =>
    rw [ofSorted_refused trials nonempty granted] at made
    cases made

variable (counters : Machine.row true Histogram.standardBins = .ok ())
  (ascending : samples.Pairwise fun x y => Binary.rank x ≤ Binary.rank y)
  (finite : ∀ x ∈ samples, x.isFinite = true)

include counters ascending finite

theorem ofSorted_charted :
    ∃ summary, ofSorted samples trials = .ok summary ∧ summary.samples = samples ∧
      summary.trials = trials ∧ summary.Charted := by
  obtain ⟨p5, p10, median, p90, p95, member10, member90, made⟩ := exists_ofSorted trials nonempty
  obtain ⟨histogram, isHistogram, isLow, isHigh, bins, _⟩ :=
    Histogram.ofSorted_ok nonempty ascending counters finite
  have finiteField (x : Float) (member : x ∈ samples) : field x ≠ 2047 :=
    (isFinite_iff x).mp (finite x member)
  have between (x : Float) (member : x ∈ samples) : field x ≠ 2047 ∧
      units histogram.low ≤ units x ∧ units x ≤ units histogram.high := by
    rw [isLow, isHigh]
    exact ⟨finiteField x member, Histogram.bounds_of_ascending nonempty ascending member⟩
  rw [made, isHistogram]
  refine ⟨_, rfl, rfl, rfl, bins, ?_, ?_, ?_⟩
  · change field histogram.low ≠ 2047
    rw [isLow]
    exact finiteField _ (List.head_mem nonempty)
  · change field histogram.high ≠ 2047
    rw [isHigh]
    exact finiteField _ (List.getLast_mem nonempty)
  · exact List.forall_mem_cons.mpr ⟨between p10 member10,
      List.forall_mem_cons.mpr ⟨between p90 member90, List.forall_mem_nil _⟩⟩

/-- Finite samples in ascending order are summed up, and the summary holds them as they are. -/
theorem ofSorted_ok :
    ∃ summary, ofSorted samples trials = .ok summary ∧ summary.samples = samples ∧
      summary.trials = trials := by
  obtain ⟨summary, done, samplesAre, trialsAre, _⟩ :=
    ofSorted_charted trials nonempty counters ascending finite
  exact ⟨summary, done, samplesAre, trialsAre⟩

end

end Summary

end Reckon
