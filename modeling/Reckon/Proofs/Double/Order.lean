import Reckon.Proofs.Double.Difference

/-!
The order of doubles, infinities among them.

Doubles that are numbers compare as their ranks do, so their order is that of whole numbers, and
negation turns it around. What is not a number compares with nothing.
-/

set_option autoImplicit false

namespace Reckon.Double

open Float.Model Float.Model.UnpackedFloat

def infiniteRank : Nat := 2047 * 2 ^ 52

theorem natAbs_rank (x : Float) : (Binary.rank x).natAbs = x.toBits.toNat % 2 ^ 63 := by
  rw [Binary.rank, Binary.twoPow_eq]
  split
  · rw [Int.natAbs_neg, Int.natAbs_natCast]
  · rw [Int.natAbs_natCast]

theorem natAbs_rank_lt {x : Float} (finite : field x ≠ 2047) :
    (Binary.rank x).natAbs < infiniteRank := by
  rw [natAbs_rank, infiniteRank]
  unfold field at finite
  omega

theorem rank_of_unpack {x : Float} {s : Sign} (infinite : x.toModel.unpack = .infinity s) :
    Binary.rank x = s.apply infiniteRank := by
  have all : field x = 2047 := by
    by_contra finite
    rcases unpack_cases finite with unpacked | ⟨_, unpacked⟩ <;>
      rw [unpacked] at infinite <;> cases infinite
  have set : @unpackExponent .binary64 x.toBits.toBitVec = -1#11 := (exponent_eq_iff x _).mpr all
  change UnpackedFloat.unpack .binary64 x.toBits.toBitVec = _ at infinite
  unfold UnpackedFloat.unpack at infinite
  dsimp only at infinite
  rw [if_pos set, ofBitVec_unpackSign] at infinite
  split at infinite
  · next none =>
    have size : x.toBits.toNat % 2 ^ 63 = infiniteRank := by
      have noFraction := (mantissa_eq_zero_iff x).mp none
      rw [infiniteRank]
      unfold fraction at noFraction
      unfold field at all
      omega
    cases infinite
    rw [Binary.rank, Binary.twoPow_eq, size, sign]
    split <;> rfl
  · cases infinite

theorem number_cases {x : Float} (number : x.isNaN = false) :
    field x ≠ 2047 ∨ ∃ s, x.toModel.unpack = .infinity s := by
  by_cases all : field x = 2047
  · rcases unpack_of_all all with unpacked | infinite
    · change x.toModel.unpack.isNaN = false at number
      rw [unpacked] at number
      cases number
    · exact .inr infinite
  · exact .inl all

theorem compare_infinity {x y : Float} (finite : field x ≠ 2047) {s : Sign}
    (infinite : y.toModel.unpack = .infinity s) :
    x.toModel.unpack.compare y.toModel.unpack = some (compare (Binary.rank x) (Binary.rank y)) ∧
      y.toModel.unpack.compare x.toModel.unpack =
        some (compare (Binary.rank y) (Binary.rank x)) := by
  have below := natAbs_rank_lt finite
  have rank := rank_of_unpack infinite
  cases s with
  | negative =>
    have less : Binary.rank y < Binary.rank x := by
      rw [rank]
      change -(infiniteRank : Int) < _
      omega
    rw [compare_gt_iff_gt.mpr less, compare_lt_iff_lt.mpr less, infinite]
    rcases unpack_cases finite with unpacked | ⟨_, unpacked⟩ <;> rw [unpacked] <;> exact ⟨rfl, rfl⟩
  | positive =>
    have less : Binary.rank x < Binary.rank y := by
      rw [rank]
      change _ < (infiniteRank : Int)
      omega
    rw [compare_gt_iff_gt.mpr less, compare_lt_iff_lt.mpr less, infinite]
    rcases unpack_cases finite with unpacked | ⟨_, unpacked⟩ <;> rw [unpacked] <;> exact ⟨rfl, rfl⟩

theorem compare_rank {x y : Float} (numberX : x.isNaN = false) (numberY : y.isNaN = false) :
    x.toModel.unpack.compare y.toModel.unpack =
      some (compare (Binary.rank x) (Binary.rank y)) := by
  rcases number_cases numberX with finiteX | ⟨s, infiniteX⟩
  · rcases number_cases numberY with finiteY | ⟨t, infiniteY⟩
    · have increasing : StrictMono unitsOfRank := fun _ _ => unitsOfRank_lt
      rw [compare_eq finiteX finiteY, units_eq, units_eq]
      rcases lt_trichotomy (Binary.rank x) (Binary.rank y) with less | same | greater
      · rw [compare_lt_iff_lt.mpr less, compare_lt_iff_lt.mpr (increasing less)]
      · rw [same, compare_eq_iff_eq.mpr rfl, compare_eq_iff_eq.mpr rfl]
      · rw [compare_gt_iff_gt.mpr greater, compare_gt_iff_gt.mpr (increasing greater)]
    · exact (compare_infinity finiteX infiniteY).1
  · rcases number_cases numberY with finiteY | ⟨t, infiniteY⟩
    · exact (compare_infinity finiteY infiniteX).2
    · rw [rank_of_unpack infiniteX, rank_of_unpack infiniteY, infiniteX, infiniteY]
      cases s <;> cases t <;> decide

theorem le_iff_rank {x y : Float} (numberX : x.isNaN = false) (numberY : y.isNaN = false) :
    x ≤ y ↔ Binary.rank x ≤ Binary.rank y := by
  change decide ((x.toModel.unpack.compare y.toModel.unpack).any (·.isLE) = true) = true ↔ _
  rw [compare_rank numberX numberY, Option.any_some, decide_eq_true_iff, ← compare_le_iff_le]
  cases compare (Binary.rank x) (Binary.rank y) <;> decide

theorem lt_iff_rank {x y : Float} (numberX : x.isNaN = false) (numberY : y.isNaN = false) :
    x < y ↔ Binary.rank x < Binary.rank y := by
  change decide ((x.toModel.unpack.compare y.toModel.unpack == some .lt) = true) = true ↔ _
  rw [compare_rank numberX numberY, decide_eq_true_iff, beq_iff_eq, Option.some_inj,
    compare_lt_iff_lt]

theorem numbers_of_compare {x y : Float} {order : Ordering}
    (comparable : x.toModel.unpack.compare y.toModel.unpack = some order) :
    x.isNaN = false ∧ y.isNaN = false := by
  change x.toModel.unpack.isNaN = false ∧ y.toModel.unpack.isNaN = false
  cases unpackedX : x.toModel.unpack with
  | notANumber =>
    rw [unpackedX] at comparable
    cases comparable
  | _ =>
    refine ⟨rfl, ?_⟩
    cases unpackedY : y.toModel.unpack with
    | notANumber =>
      rw [unpackedX, unpackedY] at comparable
      cases comparable
    | _ => rfl

theorem numbers_of_le {x y : Float} (le : x ≤ y) : x.isNaN = false ∧ y.isNaN = false := by
  have holds : (x.toModel.unpack.compare y.toModel.unpack).any (·.isLE) = true :=
    of_decide_eq_true le
  cases comparable : x.toModel.unpack.compare y.toModel.unpack with
  | none =>
    rw [comparable] at holds
    cases holds
  | some order => exact numbers_of_compare comparable

theorem numbers_of_lt {x y : Float} (lt : x < y) : x.isNaN = false ∧ y.isNaN = false := by
  have holds : (x.toModel.unpack.compare y.toModel.unpack == some .lt) = true :=
    of_decide_eq_true lt
  exact numbers_of_compare (eq_of_beq holds)

theorem le_trans {x y z : Float} (first : x ≤ y) (second : y ≤ z) : x ≤ z := by
  obtain ⟨numberX, numberY⟩ := numbers_of_le first
  have numberZ := (numbers_of_le second).2
  rw [le_iff_rank numberX numberY] at first
  rw [le_iff_rank numberY numberZ] at second
  exact (le_iff_rank numberX numberZ).mpr (first.trans second)

theorem lt_of_le_of_lt {x y z : Float} (le : x ≤ y) (lt : y < z) : x < z := by
  obtain ⟨numberX, numberY⟩ := numbers_of_le le
  have numberZ := (numbers_of_lt lt).2
  rw [le_iff_rank numberX numberY] at le
  rw [lt_iff_rank numberY numberZ] at lt
  exact (lt_iff_rank numberX numberZ).mpr (le.trans_lt lt)

theorem lt_of_lt_of_le {x y z : Float} (lt : x < y) (le : y ≤ z) : x < z := by
  obtain ⟨numberX, numberY⟩ := numbers_of_lt lt
  have numberZ := (numbers_of_le le).2
  rw [lt_iff_rank numberX numberY] at lt
  rw [le_iff_rank numberY numberZ] at le
  exact (lt_iff_rank numberX numberZ).mpr (lt.trans_le le)

theorem not_lt_of_le {x y : Float} (le : x ≤ y) : ¬y < x := by
  obtain ⟨numberX, numberY⟩ := numbers_of_le le
  rw [lt_iff_rank numberY numberX, not_lt]
  exact (le_iff_rank numberX numberY).mp le

/-! ## Negation -/

theorem unitsOfRank_neg (r : Int) : unitsOfRank (-r) = -unitsOfRank r := by
  have zero : unitsOfSize 0 = 0 := rfl
  unfold unitsOfRank
  rw [Int.natAbs_neg]
  rcases lt_trichotomy r 0 with negative | same | positive
  · rw [if_neg (by omega), if_pos negative, Int.neg_neg]
  · subst same
    rw [if_neg (by omega), if_neg (by omega), Int.natAbs_zero, zero]
    rfl
  · rw [if_pos (by omega), if_neg (by omega)]

theorem neg_eq (x : Float) : -x = packed x.toModel.unpack.neg := rfl

theorem units_neg {x : Float} (finite : field x ≠ 2047) :
    field (-x) ≠ 2047 ∧ units (-x) = -units x := by
  rw [neg_eq, units, units, ← apply_neg, magnitude, magnitude]
  rcases unpack_cases finite with unpacked | ⟨positive, unpacked⟩
  · have zero : (Binary.parts x).1 = 0 := by
      rw [unpack_of_field finite] at unpacked
      by_contra some
      rw [dif_neg some] at unpacked
      cases unpacked
    have negated : x.toModel.unpack.neg = .zero (-sign x) := by
      rw [unpacked]
      rfl
    obtain ⟨fieldIs, partsAre, signIs⟩ := packed_zero (-sign x)
    rw [negated, fieldIs, partsAre, signIs, zero, Nat.zero_mul, Nat.zero_mul]
    exact ⟨by decide, rfl⟩
  · have negated : x.toModel.unpack.neg =
        .finite (-sign x) (Binary.parts x).1 (Binary.parts x).2 positive := by
      rw [unpacked]
      rfl
    obtain ⟨fieldIs, partsAre, signIs⟩ :=
      packed_finite (s := -sign x) positive (canonical_parts x) (exponent_le finite)
    rw [negated, partsAre, signIs]
    exact ⟨fieldIs, rfl⟩

theorem rank_neg {x : Float} (number : x.isNaN = false) :
    (-x).isNaN = false ∧ Binary.rank (-x) = -Binary.rank x := by
  rcases number_cases number with finite | ⟨s, infinite⟩
  · obtain ⟨finiteNeg, unitsAre⟩ := units_neg finite
    have increasing : StrictMono unitsOfRank := fun _ _ => unitsOfRank_lt
    refine ⟨(not_special ((isFinite_iff _).mpr finiteNeg)).1, increasing.injective ?_⟩
    rw [← units_eq, unitsAre, unitsOfRank_neg, ← units_eq]
  · rw [neg_eq, rank_of_unpack infinite, infinite]
    cases s <;> decide +kernel

theorem neg_le_neg {x y : Float} (le : x ≤ y) : -y ≤ -x := by
  obtain ⟨numberX, numberY⟩ := numbers_of_le le
  obtain ⟨numberNegX, rankX⟩ := rank_neg numberX
  obtain ⟨numberNegY, rankY⟩ := rank_neg numberY
  rw [le_iff_rank numberX numberY] at le
  rw [le_iff_rank numberNegY numberNegX, rankX, rankY]
  omega

theorem isNaN_neg {x : Float} (nan : x.isNaN = true) : (-x).isNaN = true := by
  change x.toModel.unpack.isNaN = true at nan
  rw [neg_eq]
  cases unpacked : x.toModel.unpack with
  | notANumber => decide +kernel
  | _ =>
    rw [unpacked] at nan
    cases nan

end Reckon.Double
