import Mathlib.Algebra.Order.Field.Power
import Mathlib.Data.Int.Log
import Mathlib.Data.Rat.Floor
import Mathlib.Tactic.FieldSimp
import Mathlib.Tactic.Linarith
import Reckon.Proofs.Double.Nearest
import Reckon.Scalar.Basic

/-!
Numbers rounded to a count of significant digits.

The step of the rounding follows from the decade of a number, and rounding keeps the order also
across decades: what separates two decades is a multiple of the step in either of them.
-/

set_option autoImplicit false

namespace Reckon

/-- The number is a multiple of the step and nearest to the given one; of two that are as near it is
the even multiple. -/
structure RoundsTo (step v r : Rat) : Prop where
  near : 2 * |v - r| ≤ step
  multiple : ∃ k : Int, r = k * step ∧ (2 * |v - r| = step → Even k)

namespace RoundsTo

variable {step v w r s : Rat}

theorem neg (isR : RoundsTo step v r) : RoundsTo step (-v) (-r) := by
  have same : |-v - -r| = |v - r| := by
    rw [← neg_sub', abs_neg]
  obtain ⟨near, k, isMultiple, tie⟩ := isR
  refine ⟨same ▸ near, -k, ?_, fun half => (tie (same ▸ half)).neg⟩
  rw [isMultiple]
  push_cast
  ring

theorem scale {c : Rat} (positive : 0 < c) (isR : RoundsTo step v r) :
    RoundsTo (step * c) (v * c) (r * c) := by
  have distance : 2 * |v * c - r * c| = 2 * |v - r| * c := by
    rw [← sub_mul, abs_mul, abs_of_pos positive, mul_assoc]
  obtain ⟨near, k, isMultiple, tie⟩ := isR
  refine ⟨?_, k, ?_, fun half => tie ?_⟩
  · rw [distance]
    exact mul_le_mul_of_nonneg_right near positive.le
  · rw [isMultiple, mul_assoc]
  · rw [distance] at half
    exact mul_right_cancel₀ positive.ne' half

section

variable (positive : 0 < step)

include positive

theorem of_multiple (k : Int) : RoundsTo step (k * step) (k * step) := by
  refine ⟨?_, k, rfl, fun half => ?_⟩
  · rw [sub_self, abs_zero, mul_zero]
    exact positive.le
  · rw [sub_self, abs_zero, mul_zero] at half
    exact absurd half positive.ne

theorem mono (isR : RoundsTo step v r) (isS : RoundsTo step w s) (le : v ≤ w) : r ≤ s := by
  obtain ⟨nearR, k, rfl, tieR⟩ := isR
  obtain ⟨nearS, l, rfl, tieS⟩ := isS
  by_contra above
  have order : l < k := by
    rw [not_le] at above
    exact_mod_cast lt_of_mul_lt_mul_right above positive.le
  -- the two results are a step apart at least, and each is half a step from its number at most
  have apart : (l : Rat) * step + step ≤ k * step := by
    have next : ((l : Rat) + 1) * step ≤ k * step :=
      mul_le_mul_of_nonneg_right (by exact_mod_cast order) positive.le
    linarith
  have aboveV : k * step - v ≤ |v - k * step| := by
    rw [abs_sub_comm]
    exact le_abs_self _
  have belowW : w - l * step ≤ |w - l * step| := le_abs_self _
  -- so both are ties between the same two neighbours, of which one is odd
  have halfR : 2 * |v - k * step| = step := by linarith
  have halfS : 2 * |w - l * step| = step := by linarith
  have neighbours : k = l + 1 := by
    have same : (k : Rat) * step = ((l + 1 : Int) : Rat) * step := by
      push_cast
      linarith
    exact_mod_cast mul_right_cancel₀ positive.ne' same
  have evenR := tieR halfR
  rw [neighbours] at evenR
  exact Int.even_add_one.mp evenR (tieS halfS)

theorem unique (isR : RoundsTo step v r) (isS : RoundsTo step v s) : r = s :=
  le_antisymm (isR.mono positive isS le_rfl) (isS.mono positive isR le_rfl)

theorem le_of_le {k : Int} (isR : RoundsTo step v r) (le : v ≤ k * step) : r ≤ k * step :=
  isR.mono positive (of_multiple positive k) le

theorem le_of_ge {k : Int} (isR : RoundsTo step v r) (le : k * step ≤ v) : k * step ≤ r :=
  (of_multiple positive k).mono positive isR le

end

end RoundsTo

/-! ## Rounding of fractions -/

/-- What lies half way between two whole numbers goes to the even one. -/
theorem Binary.even_divEven {a b : Nat} (positive : 0 < b)
    (half : 2 * (divEven a b * b) = 2 * a + b ∨ 2 * a = 2 * (divEven a b * b) + b) :
    Even (divEven a b) := by
  have split := Nat.div_add_mod a b
  rw [Nat.mul_comm b] at split
  have rest := Nat.mod_lt a positive
  have up : (a / b + 1) * b = a / b * b + b := by ring
  unfold divEven at half ⊢
  dsimp only at half ⊢
  rw [Nat.even_iff]
  split_ifs at half ⊢ <;> omega

theorem RoundsTo.of_divEven (a : Nat) {b : Nat} (positive : 0 < b) :
    RoundsTo 1 (a / b) (Binary.divEven a b) := by
  have scale : (0 : Rat) < b := by exact_mod_cast positive
  have distance : 2 * |(a : Rat) / b - Binary.divEven a b| * b =
      |2 * (a : Rat) - 2 * (Binary.divEven a b * b)| := by
    rw [← mul_sub, abs_mul, abs_two, mul_assoc, ← abs_of_pos scale, ← abs_mul, abs_of_pos scale,
      sub_mul, div_mul_cancel₀ _ scale.ne']
  have upper : 2 * ((Binary.divEven a b : Rat) * b) ≤ 2 * a + b := by
    exact_mod_cast Binary.divEven_mul_le a b
  have lower : 2 * (a : Rat) ≤ 2 * (Binary.divEven a b * b) + b := by
    exact_mod_cast Binary.le_divEven_mul a positive
  refine ⟨?_, Binary.divEven a b, by simp, fun half => ?_⟩
  · refine le_of_mul_le_mul_right ?_ scale
    rw [distance, one_mul, abs_le]
    constructor <;> linarith
  · rw [Int.even_coe_nat]
    refine Binary.even_divEven positive ?_
    rw [half, one_mul] at distance
    rcases abs_cases (2 * (a : Rat) - 2 * (Binary.divEven a b * b)) with ⟨same, -⟩ | ⟨same, -⟩
    · refine .inr ?_
      have tie : 2 * (a : Rat) = 2 * (Binary.divEven a b * b) + b := by linarith
      exact_mod_cast tie
    · refine .inl ?_
      have tie : 2 * ((Binary.divEven a b : Rat) * b) = 2 * a + b := by linarith
      exact_mod_cast tie

namespace Scalar

theorem tenPow_pos (n : Nat) : 0 < Decimal.tenPow n :=
  Nat.pow_pos (by decide)

theorem cast_tenPow (n : Nat) : (Decimal.tenPow n : Rat) = 10 ^ (n : Int) := by
  rw [zpow_natCast]
  exact Nat.cast_pow 10 n

theorem tenPow_div_tenPow (exponent : Int) :
    (Decimal.tenPow exponent.toNat : Rat) / Decimal.tenPow (-exponent).toNat = 10 ^ exponent := by
  rw [cast_tenPow, cast_tenPow, ← zpow_sub₀ (by norm_num)]
  congr 1
  omega

theorem natAbs_div_den {size : Rat} (nonneg : 0 ≤ size) :
    (size.num.natAbs : Rat) / size.den = size := by
  rw [← Int.cast_natCast, Int.natAbs_of_nonneg (Rat.num_nonneg.mpr nonneg), Rat.num_div_den]

theorem roundsTo_divEven {size : Rat} (nonneg : 0 ≤ size) (places : Int) :
    RoundsTo (10 ^ (-places)) size
      (Binary.divEven (size.num.natAbs * Decimal.tenPow places.toNat)
        (size.den * Decimal.tenPow (-places).toNat) * 10 ^ (-places)) := by
  have positive : (0 : Rat) < 10 ^ (-places) := zpow_pos (by norm_num) _
  have fraction : size = ((size.num.natAbs * Decimal.tenPow places.toNat : Nat) : Rat) /
      (size.den * Decimal.tenPow (-places).toNat : Nat) * 10 ^ (-places) := by
    rw [Nat.cast_mul, Nat.cast_mul, mul_div_mul_comm, natAbs_div_den nonneg, tenPow_div_tenPow,
      mul_assoc, ← zpow_add₀ (by norm_num), add_neg_cancel, zpow_zero, mul_one]
  have rounded := (RoundsTo.of_divEven (size.num.natAbs * Decimal.tenPow places.toNat)
    (Nat.mul_pos size.den_pos (tenPow_pos (-places).toNat))).scale positive
  rwa [← fraction, one_mul] at rounded

theorem roundRat_of_nonneg {size : Rat} (nonneg : 0 ≤ size) (places : Int) :
    roundRat places size =
      Binary.divEven (size.num.natAbs * Decimal.tenPow places.toNat)
        (size.den * Decimal.tenPow (-places).toNat) * 10 ^ (-places) := by
  have unsigned : ¬size.num < 0 := not_lt.mpr (Rat.num_nonneg.mpr nonneg)
  have power := tenPow_div_tenPow (-places)
  rw [neg_neg] at power
  rw [roundRat, if_neg unsigned, ← power]
  split
  · next whole =>
    have one : (-places).toNat = 0 := by omega
    rw [Rat.mkRat_eq_div, one]
    simp [Decimal.tenPow, div_eq_mul_inv]
  · next whole =>
    have one : places.toNat = 0 := by omega
    rw [one]
    simp [Decimal.tenPow]

theorem roundRat_neg (places : Int) (x : Rat) : roundRat places (-x) = -roundRat places x := by
  have nothing : roundRat places 0 = 0 := by
    rw [roundRat_of_nonneg le_rfl]
    simp [Binary.divEven]
  have sizes : (-x).num.natAbs = x.num.natAbs := by rw [Rat.num_neg_eq_neg_num, Int.natAbs_neg]
  have dens : (-x).den = x.den := Rat.den_neg_eq_den x
  have sign : (-x).num < 0 ↔ 0 < x.num := by rw [Rat.num_neg_eq_neg_num, neg_lt_zero]
  rcases lt_trichotomy x.num 0 with negative | zero | positive
  · simp only [roundRat, sizes, dens, sign, not_lt.mpr negative.le, negative, if_true, if_false,
      neg_neg]
  · obtain rfl : x = 0 := Rat.num_eq_zero.mp zero
    rw [neg_zero, nothing, neg_zero]
  · simp only [roundRat, sizes, dens, sign, positive, not_lt.mpr positive.le, if_true, if_false]

theorem roundsTo_roundRat (places : Int) (x : Rat) :
    RoundsTo (10 ^ (-places)) x (roundRat places x) := by
  rcases le_total 0 x with nonneg | nonpos
  · rw [roundRat_of_nonneg nonneg]
    exact roundsTo_divEven nonneg places
  · have opposite := roundsTo_divEven (neg_nonneg.mpr nonpos) places
    rw [← roundRat_of_nonneg (neg_nonneg.mpr nonpos), roundRat_neg] at opposite
    have rounded := opposite.neg
    rwa [neg_neg, neg_neg] at rounded

end Scalar

/-! ## Significant digits -/

inductive Shown (digits : Nat) : Rat → Rat → Prop where
  | zero : Shown digits 0 0
  | inDecade {v r : Rat} (e : Int) (least : 10 ^ e ≤ |v|) (below : |v| < 10 ^ (e + 1))
      (rounded : RoundsTo (10 ^ (e - digits + 1)) v r) : Shown digits v r

namespace Shown

variable {digits : Nat} {v w r s : Rat} {e : Int}

theorem neg (shown : Shown digits v r) : Shown digits (-v) (-r) := by
  cases shown with
  | zero =>
    rw [neg_zero]
    exact .zero
  | inDecade e least below rounded =>
    rw [← abs_neg] at least below
    exact .inDecade e least below rounded.neg

theorem abs_pos_of_le (least : 10 ^ e ≤ |v|) : 0 < |v| :=
  (zpow_pos (by norm_num) e).trans_le least

theorem eq_zero (shown : Shown digits 0 r) : r = 0 := by
  cases shown with
  | zero => rfl
  | inDecade e least => exact (lt_irrefl _ (abs_zero (α := Rat) ▸ abs_pos_of_le least)).elim

/-! The ends of a decade are multiples of the step in it. -/

theorem multiple_pow (digits j : Nat) (e : Int) :
    (((10 ^ j : Nat) : Int) : Rat) * 10 ^ (e - digits + 1) = 10 ^ (e - digits + 1 + j) := by
  rw [Int.cast_natCast, Nat.cast_pow, Nat.cast_ofNat, ← zpow_natCast, ← zpow_add₀ (by norm_num),
    add_comm]

theorem last_multiple (digits : Nat) (e : Int) :
    (((10 ^ digits : Nat) : Int) : Rat) * 10 ^ (e - digits + 1) = 10 ^ (e + 1) := by
  rw [multiple_pow]
  congr 1
  omega

variable (some : 1 ≤ digits)

include some

theorem first_multiple (e : Int) :
    (((10 ^ (digits - 1) : Nat) : Int) : Rat) * 10 ^ (e - digits + 1) = 10 ^ e := by
  rw [multiple_pow]
  congr 1
  omega

/-- A positive number is shown within its decade, or as the first number after it. -/
theorem bounds (least : 10 ^ e ≤ v) (below : v < 10 ^ (e + 1))
    (rounded : RoundsTo (10 ^ (e - digits + 1)) v r) : 10 ^ e ≤ r ∧ r ≤ 10 ^ (e + 1) := by
  have step : (0 : Rat) < 10 ^ (e - digits + 1) := zpow_pos (by norm_num) _
  rw [← last_multiple digits e] at below ⊢
  rw [← first_multiple some e] at least ⊢
  exact ⟨rounded.le_of_ge step least, rounded.le_of_le step below.le⟩

theorem pos (shown : Shown digits v r) (positive : 0 < v) : 0 < r := by
  cases shown with
  | zero => exact positive
  | inDecade e least below rounded =>
    rw [abs_of_pos positive] at least below
    exact (zpow_pos (by norm_num) e).trans_le (bounds some least below rounded).1

theorem mono_of_pos (shown : Shown digits v r) (shown' : Shown digits w s) (positive : 0 < v)
    (le : v ≤ w) : r ≤ s := by
  have positive' := positive.trans_le le
  cases shown with
  | zero => exact (lt_irrefl _ positive).elim
  | inDecade e least below rounded =>
    cases shown' with
    | zero => exact (lt_irrefl _ positive').elim
    | inDecade f least' below' rounded' =>
      rw [abs_of_pos positive] at least below
      rw [abs_of_pos positive'] at least' below'
      have decades : e < f + 1 :=
        (zpow_lt_zpow_iff_right₀ (by norm_num)).mp (least.trans_lt (le.trans_lt below'))
      rcases eq_or_lt_of_le (Int.lt_add_one_iff.mp decades) with rfl | lower
      · exact rounded.mono (zpow_pos (by norm_num) _) rounded' le
      · -- the greater number is shown at or above the end of the decade of the smaller one
        calc r ≤ 10 ^ (e + 1) := (bounds some least below rounded).2
          _ ≤ 10 ^ f := zpow_le_zpow_right₀ (by norm_num) lower
          _ ≤ s := (bounds some least' below' rounded').1

theorem pos_iff (shown : Shown digits v r) : 0 < r ↔ 0 < v := by
  refine ⟨fun above => ?_, shown.pos some⟩
  rcases lt_trichotomy v 0 with negative | rfl | positive
  · have below := shown.neg.pos some (neg_pos.mpr negative)
    linarith
  · rw [shown.eq_zero] at above
    exact above
  · exact positive

theorem neg_iff (shown : Shown digits v r) : r < 0 ↔ v < 0 := by
  rw [← neg_pos, shown.neg.pos_iff some, neg_pos]

theorem mono (shown : Shown digits v r) (shown' : Shown digits w s) (le : v ≤ w) : r ≤ s := by
  rcases lt_or_ge 0 v with positive | nonpos
  · exact shown.mono_of_pos some shown' positive le
  · rcases lt_or_ge w 0 with negative' | nonneg'
    · exact neg_le_neg_iff.mp
        (shown'.neg.mono_of_pos some shown.neg (neg_pos.mpr negative') (neg_le_neg le))
    · -- zero, which is shown as it is, lies between the two
      have below : r ≤ 0 := not_lt.mp (mt (shown.pos_iff some).mp (not_lt.mpr nonpos))
      have above : 0 ≤ s := not_lt.mp (mt (shown'.neg_iff some).mp (not_lt.mpr nonneg'))
      exact below.trans above

theorem of_pow (e : Int) : Shown digits (10 ^ e) (10 ^ e) := by
  have positive : (0 : Rat) < 10 ^ e := zpow_pos (by norm_num) e
  have step : (0 : Rat) < 10 ^ (e - digits + 1) := zpow_pos (by norm_num) _
  have multiple := RoundsTo.of_multiple step ((10 ^ (digits - 1) : Nat) : Int)
  rw [first_multiple some e] at multiple
  refine .inDecade e ?_ ?_ multiple
  · rw [abs_of_pos positive]
  · rw [abs_of_pos positive]
    exact zpow_lt_zpow_right₀ (by norm_num) (lt_add_one e)

/-- Also with different counts of digits, numbers on both sides of what both counts show as it is
are shown in order. -/
theorem le_of_between {digits' : Nat} (some' : 1 ≤ digits') {p : Rat} (shown : Shown digits v r)
    (shown' : Shown digits' w s) (fixed : Shown digits p p) (fixed' : Shown digits' p p)
    (below : v ≤ p) (above : p ≤ w) : r ≤ s :=
  (shown.mono some fixed below).trans (fixed'.mono some' shown' above)

end Shown

end Reckon
