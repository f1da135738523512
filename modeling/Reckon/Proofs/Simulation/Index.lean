import Reckon.Proofs.Double.Whole
import Reckon.Proofs.Scalar.Rounding
import Reckon.Proofs.Simulation.Percentile

/-!
The index of a percentile is inside the samples.

The product of a count and a share below one is rounded to 53 bits before its fraction is dropped.
The step of that rounding is less than twice what the share leaves of the count, so the rounded
product is still below the count, and its floor is the index of a sample.
-/

set_option autoImplicit false

namespace Reckon

open Double

namespace Scalar

/-! ## Rounding to 53 bits -/

/-- The step between numbers of 53 bits that are as large as the given one. -/
def bitStep (v : Rat) : Rat :=
  2 ^ (Int.log 2 v - 52)

/-- The second number is the one of 53 bits nearest to the first one; of two that are as near, it is
the even one. -/
def Rounds53 (v r : Rat) : Prop :=
  RoundsTo (bitStep v) v r

theorem bitStep_pos (v : Rat) : 0 < bitStep v :=
  zpow_pos (by norm_num) _

theorem bitStep_ratio {n : Nat} (positive : 0 < n) (scale : Nat) :
    bitStep ((n : Rat) / 2 ^ scale) = 2 ^ ((n.log2 : Int) - 52 - scale) := by
  have nonzero : n ≠ 0 := by omega
  have power : (0 : Rat) < 2 ^ scale := by positivity
  have size : (0 : Rat) < n / 2 ^ scale := div_pos (Nat.cast_pos.mpr positive) power
  have split (k : Int) : (2 : Rat) ^ (k - scale) * 2 ^ scale = 2 ^ k := by
    rw [← zpow_natCast, ← zpow_add₀ (by norm_num), sub_add_cancel]
  -- the ratio lies between the two powers that the number above lies between
  have least : (n.log2 : Int) - scale ≤ Int.log 2 ((n : Rat) / 2 ^ scale) := by
    rw [← Int.zpow_le_iff_le_log (by decide) size, le_div_iff₀ power, Nat.cast_ofNat, split]
    exact_mod_cast Nat.log2_self_le nonzero
  have below : Int.log 2 ((n : Rat) / 2 ^ scale) < (n.log2 + 1 : Nat) - (scale : Int) := by
    rw [← Int.lt_zpow_iff_log_lt (by decide) size, div_lt_iff₀ power, Nat.cast_ofNat, split]
    exact_mod_cast Nat.lt_log2_self (n := n)
  have log : Int.log 2 ((n : Rat) / 2 ^ scale) = n.log2 - scale := by omega
  rw [bitStep, log]
  congr 1
  ring

theorem rounds53_of_long {n : Nat} (long : 53 ≤ n.log2) (scale : Nat) :
    Rounds53 (n / 2 ^ scale) (Binary.roundBits 53 n / 2 ^ scale) := by
  have positive : 0 < n := by
    by_contra none
    obtain rfl : n = 0 := by omega
    rw [Nat.log2_zero] at long
    omega
  have step : bitStep ((n : Rat) / 2 ^ scale) = Binary.spacing 53 n / 2 ^ scale := by
    have exponent : (n.log2 : Int) - 52 - scale = (n.log2 + 1 - 53 : Nat) - (scale : Int) := by
      omega
    rw [bitStep_ratio positive, exponent, zpow_sub₀ two_ne_zero, zpow_natCast, zpow_natCast,
      Binary.spacing, Nat.cast_pow, Nat.cast_ofNat]
  have fine : (Binary.spacing 53 n : Rat) ≠ 0 := by
    exact_mod_cast (Binary.spacing_pos 53 n).ne'
  have value : (n : Rat) / Binary.spacing 53 n * bitStep (n / 2 ^ scale) = n / 2 ^ scale := by
    rw [step]
    field_simp
  have rounded : (Binary.divEven n (Binary.spacing 53 n) : Rat) * bitStep (n / 2 ^ scale) =
      Binary.roundBits 53 n / 2 ^ scale := by
    rw [step, Binary.roundBits_eq, Nat.cast_mul, mul_div_assoc]
  have scaled := (RoundsTo.of_divEven n (Binary.spacing_pos 53 n)).scale
    (bitStep_pos ((n : Rat) / 2 ^ scale))
  rwa [one_mul, value, rounded] at scaled

/-- A ratio with a power of two below is rounded to 53 bits by rounding what is above. -/
theorem rounds53_roundBits (n scale : Nat) :
    Rounds53 (n / 2 ^ scale) (Binary.roundBits 53 n / 2 ^ scale) := by
  rcases Nat.eq_zero_or_pos n with zero | positive
  · have none : Binary.roundBits 53 0 = 0 := rfl
    have same := RoundsTo.of_multiple (bitStep_pos ((0 : Rat) / 2 ^ scale)) 0
    rw [zero, none, Nat.cast_zero, Rounds53]
    simpa only [Int.cast_zero, zero_mul, zero_div] using same
  · -- more bits below the point change nothing, so there may be 53 of them
    have long : 53 ≤ (n * 2 ^ 53).log2 := by
      rw [log2_mul_two_pow positive]
      omega
    have shifted (m : Nat) : ((m * 2 ^ 53 : Nat) : Rat) / 2 ^ (scale + 53) = m / 2 ^ scale := by
      rw [Nat.cast_mul, Nat.cast_pow, Nat.cast_ofNat, pow_add,
        mul_div_mul_right _ _ (pow_ne_zero 53 two_ne_zero)]
    have rounded := rounds53_of_long long (scale + 53)
    rwa [roundBits_mul_pow, shifted, shifted] at rounded

/-- A count times a fraction of up to 53 bits, rounded to 53 bits, does not reach the count. -/
theorem rounded_lt_count {count mantissa scale : Nat} {r : Rat} (some : 1 ≤ count)
    (short : mantissa < 2 ^ 53) (below : mantissa < 2 ^ scale)
    (rounded : Rounds53 (count * (mantissa / 2 ^ scale)) r) : 0 ≤ r ∧ r < count := by
  have product : (count : Rat) * (mantissa / 2 ^ scale) = (count * mantissa : Nat) / 2 ^ scale := by
    rw [Nat.cast_mul, mul_div_assoc]
  have power : (0 : Rat) < 2 ^ scale := by positivity
  rw [product] at rounded
  rw [RoundsTo.unique (bitStep_pos _) rounded (rounds53_roundBits _ scale)]
  refine ⟨by positivity, ?_⟩
  rw [div_lt_iff₀ power]
  exact_mod_cast roundBits_mul_lt some short below

/-! ## Products of doubles -/

theorem toRat_of_share {q : Float} (share : isShare q = true) :
    Binary.toRat q = (magnitude q : Rat) / 2 ^ unitBits := by
  have size : units q = magnitude q := (magnitude_of_nonneg (units_of_isShare share).1).symm
  rw [toRat_eq, size]
  push_cast
  rfl

theorem fraction_of_isShare {q : Float} (share : isShare q = true) :
    ∃ mantissa scale : Nat, mantissa < 2 ^ 53 ∧ mantissa < 2 ^ scale ∧
      Binary.toRat q = mantissa / 2 ^ scale := by
  rcases Nat.eq_zero_or_pos (Binary.parts q).1 with zero | positive
  · refine ⟨0, 0, by decide, by decide, ?_⟩
    rw [toRat_of_share share, (magnitude_eq_zero_iff q).mpr zero]
    simp
  · obtain ⟨_, fraction, belowOne⟩ := fraction_of_share share positive
    refine ⟨_, _, (canonical_parts q).short, belowOne, ?_⟩
    rw [toRat_of_share share, magnitude, unitBits_of_fraction fraction, pow_add]
    push_cast
    field_simp

section

variable {count : Nat} (some : 1 ≤ count) (short : count ≤ 2 ^ 53)

include some short

theorem ofInt_whole :
    field (ofInt count) ≠ 2047 ∧ sign (ofInt count) = .positive ∧
      magnitude (ofInt count) = count * 2 ^ unitBits := by
  have whole : (ofInt count : Float) = Binary.ofRatio false count 1 := by
    change Binary.ofRatio (decide ((count : Int) < 0)) (count : Int).natAbs 1 = _
    rw [decide_eq_false (by omega), Int.natAbs_natCast]
  rw [whole]
  exact ofRatio_whole false some short

variable {q : Float} (share : isShare q = true)

include share

/-- The product of a count and a share as doubles is rounded once and not too large. -/
theorem units_product :
    field (ofInt count * q) ≠ 2047 ∧
      units (ofInt count * q) = Binary.roundBits 53 (count * magnitude q) := by
  obtain ⟨finiteCount, signCount, sizeCount⟩ := ofInt_whole some short
  -- not even a count of 54 bits is near the overflow
  have within : Binary.roundBits 53 (count * magnitude q) < overflow := by
    have bits := unitBits_eq
    have limit := overflowBits_eq
    calc Binary.roundBits 53 (count * magnitude q)
        < count * 2 ^ unitBits := roundBits_share_lt share some
      _ ≤ 2 ^ 53 * 2 ^ unitBits := Nat.mul_le_mul_right _ short
      _ = 2 ^ (53 + unitBits) := (Nat.pow_add _ _ _).symm
      _ ≤ 2 ^ overflowBits := Nat.pow_le_pow_right Nat.two_pos (by omega)
  obtain ⟨finite, signIs, size⟩ :=
    mul_rounded finiteCount (finite_of_isShare share) sizeCount within
  refine ⟨finite, ?_⟩
  -- a share of zero may have a minus sign, and so has its product then
  rcases Nat.eq_zero_or_pos (magnitude q) with zero | positive
  · have none : Binary.roundBits 53 0 = 0 := rfl
    rw [units, size, zero, Nat.mul_zero, none]
    exact apply_zero _
  · have signShare := sign_of_units positive (units_of_isShare share).1
    rw [signCount, signShare] at signIs
    rw [units_of_positive signIs, size]

theorem floor_product : Binary.floor (ofInt count * q) = doubleShare count q := by
  obtain ⟨finite, unitsAre⟩ := units_product some short share
  have nonneg : 0 ≤ units (ofInt count * q) := by
    rw [unitsAre]
    exact Int.natCast_nonneg _
  have size : magnitude (ofInt count * q) = Binary.roundBits 53 (count * magnitude q) := by
    have same := magnitude_of_nonneg nonneg
    omega
  have small : magnitude (ofInt count * q) < 2 ^ 63 * 2 ^ unitBits := by
    rw [size]
    refine (roundBits_share_lt share some).trans_le (Nat.mul_le_mul_right _ (short.trans ?_))
    decide
  rw [floor_of_lt finite nonneg small, size, doubleShare_eq share]

theorem product_rounded :
    Rounds53 (count * Binary.toRat q) (Binary.toRat (ofInt count * q)) := by
  obtain ⟨_, unitsAre⟩ := units_product some short share
  have product : (count : Rat) * Binary.toRat q = (count * magnitude q : Nat) / 2 ^ unitBits := by
    rw [toRat_of_share share, Nat.cast_mul, mul_div_assoc]
  have rounded := rounds53_roundBits (count * magnitude q) unitBits
  rw [product, toRat_eq, unitsAre, Int.cast_natCast, Nat.cast_pow, Nat.cast_ofNat]
  exact rounded

theorem product_lt : (ofInt count * q : Float) < ofInt count := by
  obtain ⟨finite, unitsAre⟩ := units_product some short share
  obtain ⟨finiteCount, signCount, sizeCount⟩ := ofInt_whole some short
  rw [lt_iff finite finiteCount, unitsAre, units_of_positive signCount, sizeCount]
  exact Int.ofNat_lt.mpr (roundBits_share_lt share some)

end

end Scalar

namespace Summary

/-! ## Indices -/

/-- The sample that the floor of the product of the count of samples and a share is the index of. -/
def PointsTo (samples : List Float) (q x : Float) : Prop :=
  ∃ index : Nat, Binary.floor (Scalar.ofInt samples.length * q) = index ∧ samples[index]? = some x

section

variable {samples : List Float} {q : Float} (nonempty : samples ≠ [])
  (few : samples.length ≤ 2 ^ 53)

include nonempty few

/-- There is such a sample at each share, and it is the one that is found. -/
theorem exists_pointsTo (share : Scalar.isShare q = true) :
    ∃ x, PointsTo samples q x ∧ atShare samples q = .ok x := by
  have some := List.length_pos_of_ne_nil nonempty
  obtain ⟨x, _, shown⟩ := atShare_ok share nonempty
  refine ⟨x, ⟨(Scalar.doubleShare samples.length q).toNat, ?_, ?_⟩, shown⟩
  · rw [Scalar.floor_product some few share,
      Int.toNat_of_nonneg (Scalar.doubleShare_lt share some).1]
  · rw [← nearestRank?_double share]
    exact atShare_eq_ok.mp shown

/-- A summary finds its five percentiles, so only its histogram can fail. -/
theorem ofSorted_eq [Machine] (trials : Int) :
    ∃ p5 p10 median p90 p95, PointsTo samples 0.05 p5 ∧ PointsTo samples 0.10 p10 ∧
      PointsTo samples 0.5 median ∧ PointsTo samples 0.90 p90 ∧ PointsTo samples 0.95 p95 ∧
      ofSorted samples trials =
        (Histogram.ofSorted samples Histogram.standardBins).map fun histogram =>
          { samples, mean := Scalar.mean samples, median, p5, p10, p90, p95, histogram,
            trials } := by
  have some : samples.isEmpty = false := by
    cases samples with
    | nil => exact absurd rfl nonempty
    | cons => rfl
  have share (q : Float) (inside : Scalar.isShare q = true) :
      ∃ x, PointsTo samples q x ∧ atShare samples q = .ok x := exists_pointsTo nonempty few inside
  obtain ⟨p5, at5, isP5⟩ := share 0.05 (by decide +kernel)
  obtain ⟨p10, at10, isP10⟩ := share 0.10 (by decide +kernel)
  obtain ⟨median, atMedian, isMedian⟩ := share 0.5 (by decide +kernel)
  obtain ⟨p90, at90, isP90⟩ := share 0.90 (by decide +kernel)
  obtain ⟨p95, at95, isP95⟩ := share 0.95 (by decide +kernel)
  refine ⟨p5, p10, median, p90, p95, at5, at10, atMedian, at90, at95, ?_⟩
  rw [ofSorted, some, isP5, isP10, isMedian, isP90, isP95]
  cases Histogram.ofSorted samples Histogram.standardBins <;> rfl

end

/-- A count times a share, rounded to 53 bits, is less than the count. That is what doubles compute,
so the floor of their product is the index of a sample: a percentile is always found, and so are the
five of a summary. -/
theorem percentile_inside [Machine] :
    (∀ (count mantissa scale : Nat) (r : Rat), 1 ≤ count → mantissa < 2 ^ 53 →
      mantissa < 2 ^ scale →
        Scalar.Rounds53 (count * (mantissa / 2 ^ scale)) r →
          0 ≤ r ∧ r < count ∧ ⌊r⌋ ≤ count - 1) ∧
    (∀ (count : Nat) (q : Float), 1 ≤ count → count ≤ 2 ^ 53 → 0 ≤ q → q < 1 →
      (∃ mantissa scale : Nat, mantissa < 2 ^ 53 ∧ mantissa < 2 ^ scale ∧
        Binary.toRat q = mantissa / 2 ^ scale) ∧
      (Scalar.ofInt count * q).isFinite = true ∧
      Scalar.Rounds53 (count * Binary.toRat q) (Binary.toRat (Scalar.ofInt count * q)) ∧
      Scalar.ofInt count * q < (Scalar.ofInt count : Float) ∧
      Scalar.share count q = Binary.floor (Scalar.ofInt count * q) ∧
      0 ≤ Scalar.share count q ∧ Scalar.share count q ≤ count - 1) ∧
    (∀ (s : Summary) (q : Float), s.samples ≠ [] → s.samples.length ≤ 2 ^ 53 → 0 ≤ q → q < 1 →
      ∃ x, PointsTo s.samples q x ∧ s.percentile q = .ok x) ∧
    ∀ (samples : List Float) (trials : Int), samples ≠ [] → samples.length ≤ 2 ^ 53 →
      ∃ p5 p10 median p90 p95, PointsTo samples 0.05 p5 ∧ PointsTo samples 0.10 p10 ∧
        PointsTo samples 0.5 median ∧ PointsTo samples 0.90 p90 ∧ PointsTo samples 0.95 p95 ∧
        ofSorted samples trials =
          (Histogram.ofSorted samples Histogram.standardBins).map fun histogram =>
            { samples, mean := Scalar.mean samples, median, p5, p10, p90, p95, histogram,
              trials } := by
  refine ⟨fun count mantissa scale r some short below rounded => ?_,
    fun count q some short nonneg belowOne => ?_,
    fun s q nonempty few nonneg belowOne => ?_, fun samples trials nonempty few => ?_⟩
  · obtain ⟨nonneg, less⟩ := Scalar.rounded_lt_count some short below rounded
    have floor : ⌊r⌋ < count := Int.floor_lt.mpr (by exact_mod_cast less)
    exact ⟨nonneg, less, by omega⟩
  · have share := Scalar.isShare_of_lt nonneg belowOne
    have finite := (isFinite_iff _).mpr (Scalar.units_product some short share).1
    obtain ⟨least, below⟩ := Scalar.doubleShare_lt share some
    exact ⟨Scalar.fraction_of_isShare share, finite, Scalar.product_rounded some short share,
      Scalar.product_lt some short share, (Scalar.floor_product some short share).symm, least,
      Int.le_sub_one_of_lt below⟩
  · obtain ⟨x, points, shown⟩ :=
      exists_pointsTo nonempty few (Scalar.isShare_of_lt nonneg belowOne)
    exact ⟨x, points, percentile_eq_ok.mpr (atShare_eq_ok.mp shown)⟩
  · exact ofSorted_eq nonempty few trials

section

attribute [local instance] Machine.standard

/-- Three samples and the greatest share below one: the product is not a number of 53 bits. -/
theorem percentile_inside_nearOne :
    (∃ r : Rat, Scalar.Rounds53 ((3 : Nat) * ((2 ^ 53 - 1 : Nat) / 2 ^ 53)) r ∧ r < (3 : Nat) ∧
      ⌊r⌋ ≤ (3 : Nat) - 1) ∧
    ((0 : Float) ≤ 0.9999999999999999 ∧ (0.9999999999999999 : Float) < 1) ∧
    (Scalar.ofInt (3 : Nat) * 0.9999999999999999 : Float) < Scalar.ofInt (3 : Nat) ∧
    Scalar.share 3 (0.9999999999999999 : Float) = 2 ∧
    ∃ s, ofSorted [1, 2, 3] 3 = .ok s ∧ s.p95 = 3 ∧ PointsTo [1, 2, 3] 0.95 s.p95 ∧
      PointsTo s.samples 0.9999999999999999 3 ∧ s.percentile 0.9999999999999999 = .ok 3 := by
  obtain ⟨exact, doubles, found, made⟩ := percentile_inside
  have nonneg : (0 : Float) ≤ 0.9999999999999999 := by decide +kernel
  have belowOne : (0.9999999999999999 : Float) < 1 := by decide +kernel
  obtain ⟨_, _, _, less, _⟩ := doubles 3 _ (by decide) (by decide) nonneg belowOne
  refine ⟨?_, ⟨nonneg, belowOne⟩, less, by decide +kernel, ?_⟩
  · have rounded := Scalar.rounds53_roundBits (3 * (2 ^ 53 - 1)) 53
    rw [Nat.cast_mul, mul_div_assoc] at rounded
    obtain ⟨_, below, floor⟩ :=
      exact 3 (2 ^ 53 - 1) 53 _ (by decide) (by decide) (by decide) rounded
    exact ⟨_, rounded, below, floor⟩
  · obtain ⟨p5, p10, median, p90, p95, _, _, _, _, at95, isSummary⟩ :=
      made [1, 2, 3] 3 (by decide) (by decide)
    obtain ⟨histogram, counted⟩ : ∃ h, Histogram.ofSorted [(1 : Float), 2, 3]
        Histogram.standardBins = .ok h := ⟨_, rfl⟩
    rw [counted] at isSummary
    refine ⟨_, isSummary, ?_, at95, ?_⟩
    · obtain ⟨index, floor, isP95⟩ := at95
      have two : Binary.floor (Scalar.ofInt ([(1 : Float), 2, 3].length : Nat) * 0.95) = 2 := by
        decide +kernel
      rw [two] at floor
      obtain rfl : index = 2 := by omega
      exact (Option.some.inj isP95).symm
    · obtain ⟨x, points, shown⟩ := found
        { samples := [1, 2, 3], mean := Scalar.mean [1, 2, 3], median, p5, p10, p90, p95, histogram,
          trials := 3 } _ (List.cons_ne_nil 1 [2, 3]) (by change 3 ≤ 2 ^ 53; decide) nonneg belowOne
      have last : nearestRank? [(1 : Float), 2, 3] (0.9999999999999999 : Float) = some 3 := by
        decide +kernel
      rw [percentile_eq_ok.mp shown] at last
      cases last
      exact ⟨points, shown⟩

end

end Summary

end Reckon
