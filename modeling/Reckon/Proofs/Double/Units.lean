import Mathlib.Order.Monotone.Basic
import Reckon.Proofs.Double.Packing

/-!
Finite doubles as whole numbers of the least one.

Every finite double is a whole multiple of 2^-1074. The multiple orders the doubles as their rank
does and as the comparison of doubles does.
-/

set_option autoImplicit false

namespace Reckon.Double

open Float.Model Float.Model.UnpackedFloat

/-- How many times the least double the size of a finite double is. -/
def magnitude (x : Float) : Nat :=
  (Binary.parts x).1 * 2 ^ ((Binary.parts x).2 + 1074).toNat

def units (x : Float) : Int :=
  (sign x).apply (magnitude x)

theorem natAbs_units (x : Float) : (units x).natAbs = magnitude x := by
  unfold units
  cases sign x <;> simp [Sign.apply]

theorem units_of_positive {x : Float} (positive : sign x = .positive) :
    units x = magnitude x := by
  rw [units, positive]
  rfl

/-! ## Rank -/

def unitsOfSize (size : Nat) : Nat :=
  if size / 2 ^ 52 = 0 then size else (size % 2 ^ 52 + 2 ^ 52) * 2 ^ (size / 2 ^ 52 - 1)

theorem unitsOfSize_low {size : Nat} (low : size / 2 ^ 52 = 0) : unitsOfSize size = size :=
  if_pos low

theorem unitsOfSize_high {size : Nat} (high : size / 2 ^ 52 ≠ 0) :
    unitsOfSize size = (size % 2 ^ 52 + 2 ^ 52) * 2 ^ (size / 2 ^ 52 - 1) :=
  if_neg high

theorem unitsOfSize_lt_succ (size : Nat) : unitsOfSize size < unitsOfSize (size + 1) := by
  by_cases last : size % 2 ^ 52 = 2 ^ 52 - 1
  · -- the exponent goes up by one and the mantissa starts again
    have nextField : (size + 1) / 2 ^ 52 = size / 2 ^ 52 + 1 := by omega
    have nextFraction : (size + 1) % 2 ^ 52 = 0 := by omega
    rw [unitsOfSize_high (by omega : (size + 1) / 2 ^ 52 ≠ 0), nextField, nextFraction]
    by_cases low : size / 2 ^ 52 = 0
    · rw [unitsOfSize_low low, low]
      omega
    · have double : 2 ^ (size / 2 ^ 52 + 1 - 1) = 2 * 2 ^ (size / 2 ^ 52 - 1) := by
        rw [← Nat.pow_succ']
        congr 1
        omega
      have positive : 0 < 2 ^ (size / 2 ^ 52 - 1) := Nat.two_pow_pos _
      rw [unitsOfSize_high low, last, double]
      omega
  · have nextField : (size + 1) / 2 ^ 52 = size / 2 ^ 52 := by omega
    have nextFraction : (size + 1) % 2 ^ 52 = size % 2 ^ 52 + 1 := by omega
    by_cases low : size / 2 ^ 52 = 0
    · rw [unitsOfSize_low low, unitsOfSize_low (nextField.trans low)]
      omega
    · rw [unitsOfSize_high low, unitsOfSize_high (nextField ▸ low), nextField, nextFraction]
      exact Nat.mul_lt_mul_of_pos_right (by omega) (Nat.two_pow_pos _)

theorem strictMono_unitsOfSize : StrictMono unitsOfSize :=
  strictMono_nat_of_lt_succ unitsOfSize_lt_succ

def unitsOfRank (rank : Int) : Int :=
  if rank < 0 then -(unitsOfSize rank.natAbs : Int) else unitsOfSize rank.natAbs

theorem unitsOfRank_lt {r s : Int} (less : r < s) : unitsOfRank r < unitsOfRank s := by
  have zero : unitsOfSize 0 = 0 := rfl
  unfold unitsOfRank
  by_cases negative : r < 0
  · have sizes : unitsOfSize 0 < unitsOfSize r.natAbs := strictMono_unitsOfSize (by omega)
    rw [if_pos negative]
    split
    · have reversed : unitsOfSize s.natAbs < unitsOfSize r.natAbs :=
        strictMono_unitsOfSize (by omega)
      omega
    · omega
  · have sizes : unitsOfSize r.natAbs < unitsOfSize s.natAbs := strictMono_unitsOfSize (by omega)
    rw [if_neg negative, if_neg (by omega)]
    omega

theorem magnitude_eq (x : Float) : magnitude x = unitsOfSize (x.toBits.toNat % 2 ^ 63) := by
  have fieldIs : x.toBits.toNat % 2 ^ 63 / 2 ^ 52 = field x := by
    unfold field
    omega
  have fractionIs : x.toBits.toNat % 2 ^ 63 % 2 ^ 52 = fraction x := by
    unfold fraction
    omega
  rw [magnitude, unitsOfSize, parts_eq, fieldIs, fractionIs]
  by_cases low : field x = 0
  · have size : x.toBits.toNat % 2 ^ 63 = fraction x := by omega
    rw [if_pos low, if_pos low, size]
    simp
  · have shift : ((field x : Int) - 1075 + 1074).toNat = field x - 1 := by omega
    rw [if_neg low, if_neg low]
    dsimp only
    rw [shift]

theorem units_eq (x : Float) : units x = unitsOfRank (Binary.rank x) := by
  have zero : unitsOfSize 0 = 0 := rfl
  rw [units, magnitude_eq, sign, Binary.rank, Binary.twoPow_eq]
  generalize x.toBits.toNat % 2 ^ 63 = size
  by_cases negative : Binary.isNegative x = true
  · rw [if_pos negative, if_pos negative, unitsOfRank, Int.natAbs_neg, Int.natAbs_natCast]
    split
    · rfl
    · obtain rfl : size = 0 := by omega
      rw [zero]
      rfl
  · rw [if_neg negative, if_neg negative, unitsOfRank, if_neg (by omega), Int.natAbs_natCast]
    rfl

theorem rank_le_iff (x y : Float) : Binary.rank x ≤ Binary.rank y ↔ units x ≤ units y := by
  have increasing : StrictMono unitsOfRank := fun _ _ => unitsOfRank_lt
  rw [units_eq, units_eq, increasing.le_iff_le]

/-! ## Comparison -/

theorem magnitude_eq_zero_iff (x : Float) : magnitude x = 0 ↔ (Binary.parts x).1 = 0 := by
  simp [magnitude]

theorem Canonical.mul_pow_lt {m n : Nat} {e f : Int} (left : Canonical m e) (right : Canonical n f)
    (exponents : e < f) : m * 2 ^ (e + 1074).toNat < n * 2 ^ (f + 1074).toNat := by
  have least := left.least
  have full : 2 ^ 52 ≤ n := right.full.resolve_right (by omega)
  calc m * 2 ^ (e + 1074).toNat
      < 2 ^ 53 * 2 ^ (e + 1074).toNat :=
        Nat.mul_lt_mul_of_pos_right left.short (Nat.two_pow_pos _)
    _ = 2 ^ 52 * 2 ^ ((e + 1074).toNat + 1) := by ring
    _ ≤ 2 ^ 52 * 2 ^ (f + 1074).toNat :=
        Nat.mul_le_mul_left _ (Nat.pow_le_pow_right Nat.two_pos (by omega))
    _ ≤ n * 2 ^ (f + 1074).toNat := Nat.mul_le_mul_right _ full

theorem Canonical.compare_eq {m n : Nat} {e f : Int} (left : Canonical m e)
    (right : Canonical n f) :
    (compare e f).then (compare m n) =
      compare (m * 2 ^ (e + 1074).toNat) (n * 2 ^ (f + 1074).toNat) := by
  rcases lt_trichotomy e f with less | same | greater
  · rw [compare_lt_iff_lt.mpr less, compare_lt_iff_lt.mpr (left.mul_pow_lt right less)]
    rfl
  · subst same
    have positive : 0 < 2 ^ (e + 1074).toNat := Nat.two_pow_pos _
    rw [compare_eq_iff_eq.mpr rfl]
    change compare m n = _
    rcases lt_trichotomy m n with less | same | greater
    · rw [compare_lt_iff_lt.mpr less,
        compare_lt_iff_lt.mpr (Nat.mul_lt_mul_of_pos_right less positive)]
    · rw [same, compare_eq_iff_eq.mpr rfl, compare_eq_iff_eq.mpr rfl]
    · rw [compare_gt_iff_gt.mpr greater,
        compare_gt_iff_gt.mpr (Nat.mul_lt_mul_of_pos_right greater positive)]
  · rw [compare_gt_iff_gt.mpr greater, compare_gt_iff_gt.mpr (right.mul_pow_lt left greater)]
    rfl

theorem compare_natCast (m n : Nat) : compare (m : Int) n = compare m n := by
  rcases lt_trichotomy m n with less | same | greater
  · rw [compare_lt_iff_lt.mpr less, compare_lt_iff_lt.mpr (Int.ofNat_lt.mpr less)]
  · rw [same, compare_eq_iff_eq.mpr rfl, compare_eq_iff_eq.mpr rfl]
  · rw [compare_gt_iff_gt.mpr greater, compare_gt_iff_gt.mpr (Int.ofNat_lt.mpr greater)]

theorem compare_neg (m n : Int) : compare (-m) (-n) = (compare m n).swap := by
  rcases lt_trichotomy m n with less | same | greater
  · rw [compare_lt_iff_lt.mpr less, compare_gt_iff_gt.mpr (Int.neg_lt_neg less)]
    rfl
  · rw [same, compare_eq_iff_eq.mpr rfl, compare_eq_iff_eq.mpr rfl]
    rfl
  · rw [compare_gt_iff_gt.mpr greater, compare_lt_iff_lt.mpr (Int.neg_lt_neg greater)]
    rfl

theorem apply_zero (s : Sign) : s.apply 0 = 0 := by
  cases s <;> rfl

theorem compare_eq {x y : Float} (finiteX : field x ≠ 2047) (finiteY : field y ≠ 2047) :
    x.toModel.unpack.compare y.toModel.unpack = some (compare (units x) (units y)) := by
  have order := (canonical_parts x).compare_eq (canonical_parts y)
  change _ = compare (magnitude x) (magnitude y) at order
  rw [unpack_of_field finiteX, unpack_of_field finiteY]
  -- the exponent of a zero says nothing, so the zeros are taken apart first
  by_cases zeroX : (Binary.parts x).1 = 0 <;> by_cases zeroY : (Binary.parts y).1 = 0
  · have sizeX := (magnitude_eq_zero_iff x).mpr zeroX
    have sizeY := (magnitude_eq_zero_iff y).mpr zeroY
    rw [dif_pos zeroX, dif_pos zeroY, units, units, sizeX, sizeY, Nat.cast_zero, apply_zero,
      apply_zero, compare_eq_iff_eq.mpr rfl]
    rfl
  · have sizeX := (magnitude_eq_zero_iff x).mpr zeroX
    have sizeY := Nat.pos_of_ne_zero (mt (magnitude_eq_zero_iff y).mp zeroY)
    rw [dif_pos zeroX, dif_neg zeroY, units, units, sizeX, Nat.cast_zero, apply_zero]
    cases sign y with
    | negative =>
      have greater : compare 0 (-(magnitude y : Int)) = .gt := compare_gt_iff_gt.mpr (by omega)
      exact congrArg some greater.symm
    | positive =>
      have less : compare 0 (magnitude y : Int) = .lt := compare_lt_iff_lt.mpr (by omega)
      exact congrArg some less.symm
  · have sizeX := Nat.pos_of_ne_zero (mt (magnitude_eq_zero_iff x).mp zeroX)
    have sizeY := (magnitude_eq_zero_iff y).mpr zeroY
    rw [dif_neg zeroX, dif_pos zeroY, units, units, sizeY, Nat.cast_zero, apply_zero]
    cases sign x with
    | negative =>
      have less : compare (-(magnitude x : Int)) 0 = .lt := compare_lt_iff_lt.mpr (by omega)
      exact congrArg some less.symm
    | positive =>
      have greater : compare (magnitude x : Int) 0 = .gt := compare_gt_iff_gt.mpr (by omega)
      exact congrArg some greater.symm
  · have sizeX := Nat.pos_of_ne_zero (mt (magnitude_eq_zero_iff x).mp zeroX)
    have sizeY := Nat.pos_of_ne_zero (mt (magnitude_eq_zero_iff y).mp zeroY)
    rw [dif_neg zeroX, dif_neg zeroY, units, units]
    cases sign x <;> cases sign y
    · have reversed := compare_neg (magnitude x) (magnitude y)
      rw [compare_natCast, ← order] at reversed
      exact congrArg some reversed.symm
    · have less : compare (-(magnitude x : Int)) (magnitude y) = .lt :=
        compare_lt_iff_lt.mpr (by omega)
      exact congrArg some less.symm
    · have greater : compare (magnitude x : Int) (-(magnitude y : Int)) = .gt :=
        compare_gt_iff_gt.mpr (by omega)
      exact congrArg some greater.symm
    · have same := compare_natCast (magnitude x) (magnitude y)
      rw [← order] at same
      exact congrArg some same.symm

theorem le_iff {x y : Float} (finiteX : field x ≠ 2047) (finiteY : field y ≠ 2047) :
    x ≤ y ↔ units x ≤ units y := by
  change decide ((x.toModel.unpack.compare y.toModel.unpack).any (·.isLE) = true) = true ↔ _
  rw [compare_eq finiteX finiteY, Option.any_some, decide_eq_true_iff, ← compare_le_iff_le]
  cases compare (units x) (units y) <;> decide

theorem lt_iff {x y : Float} (finiteX : field x ≠ 2047) (finiteY : field y ≠ 2047) :
    x < y ↔ units x < units y := by
  change decide ((x.toModel.unpack.compare y.toModel.unpack == some .lt) = true) = true ↔ _
  rw [compare_eq finiteX finiteY]
  simp [compare_lt_iff_lt]

end Reckon.Double
