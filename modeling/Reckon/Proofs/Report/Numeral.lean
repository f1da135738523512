import Reckon.Proofs.Decimal.Exact
import Reckon.Proofs.Report.Figure
import Reckon.Proofs.Scalar.Exact

/-!
Numerals of exact numbers, read back.

Whether a number is written out or with an exponent, the same rounded number is read back from it.
-/

set_option autoImplicit false

namespace Reckon

theorem Scalar.abs_exact (x : Rat) : x.abs = |x| := by
  rcases le_total 0 x with nonneg | nonpos
  · rw [Rat.abs_of_nonneg nonneg, abs_of_nonneg nonneg]
  · rw [Rat.abs_of_nonpos nonpos, abs_of_nonpos nonpos]

/-! ## Numerals of exact numbers -/

namespace Figure

open Decimal

theorem decade_eq_log_abs {v : Rat} (nonzero : v ≠ 0) : Scalar.decade v = Int.log 10 |v| := by
  have decade := decade_exact (abs_pos.mpr nonzero)
  rw [Rat.num_abs_eq_abs_num, Int.natAbs_abs, Rat.den_abs_eq_den] at decade
  exact decade

/-- A size that has no more places than are asked for is not rounded again. -/
theorem divEven_of_whole {size : Rat} {places n : Nat} (whole : size * 10 ^ (places : Int) = n) :
    Binary.divEven (size.num.natAbs * tenPow places) size.den = n := by
  have power : (0 : Rat) < 10 ^ (places : Int) := zpow_pos (by norm_num) _
  have nonneg : 0 ≤ size := by
    refine le_of_mul_le_mul_right ?_ power
    rw [zero_mul, whole]
    exact Nat.cast_nonneg n
  have scale : (size.den : Rat) ≠ 0 := Nat.cast_ne_zero.mpr size.den_ne_zero
  have product : size.num.natAbs * tenPow places = n * size.den := by
    rw [← Scalar.natAbs_div_den nonneg, div_mul_eq_mul_div, div_eq_iff scale, ← Scalar.cast_tenPow]
      at whole
    exact_mod_cast whole
  rw [product, Binary.divEven_mul_right n size.den_pos]

/-- The number that is shown of another one, of as many digits. -/
def shown (digits : Nat) (v : Rat) : Rat :=
  Scalar.roundRat (digits - 1 - Int.log 10 |v|) v

theorem ite_neg_abs (r : Rat) : (if decide (r.num < 0) then -|r| else |r|) = r := by
  by_cases negative : r.num < 0
  · have below := Rat.num_neg.mp negative
    simp [negative, abs_of_neg below]
  · have nonneg := Rat.num_nonneg.mp (not_lt.mp negative)
    simp [negative, abs_of_nonneg nonneg]

variable {digits : Nat} {v : Rat}

theorem roundsTo_shown (digits : Nat) (v : Rat) :
    RoundsTo (10 ^ (Int.log 10 |v| - digits + 1)) v (shown digits v) := by
  have rounded := Scalar.roundsTo_roundRat (digits - 1 - Int.log 10 |v|) v
  have step : -((digits : Int) - 1 - Int.log 10 |v|) = Int.log 10 |v| - digits + 1 := by ring
  rwa [step] at rounded

section

variable (nonzero : v ≠ 0)

include nonzero

theorem shown_spec : Shown digits v (shown digits v) :=
  .inDecade (Int.log 10 |v|) (Int.zpow_log_le_self (by decide) (abs_pos.mpr nonzero))
    (Int.lt_zpow_succ_log_self (by decide) |v|) (roundsTo_shown digits v)

theorem exactValue?_writtenOut : exactValue? (writtenOut digits v) = some (shown digits v) := by
  obtain ⟨places, isPlaces⟩ : ∃ places : Int, places = digits - 1 - Int.log 10 |v| := ⟨_, rfl⟩
  have written : writtenOut digits v = String.ofList
      (if decide ((shown digits v).num < 0) then '-' :: fixed places.toNat |shown digits v|
        else fixed places.toNat |shown digits v|) := by
    unfold writtenOut
    rw [decade_eq_log_abs nonzero, isPlaces, ← Scalar.abs_exact (shown digits v)]
    rfl
  -- the number has no more places than are written
  obtain ⟨k, isMultiple, -⟩ := (roundsTo_shown digits v).multiple
  have whole : |shown digits v| * 10 ^ (places.toNat : Int) =
      (k.natAbs * 10 ^ (-places).toNat : Nat) := by
    have step : (0 : Rat) < 10 ^ (Int.log 10 |v| - digits + 1) := zpow_pos (by norm_num) _
    have place : Int.log 10 |v| - digits + 1 + (places.toNat : Int) = ((-places).toNat : Int) := by
      omega
    rw [isMultiple, abs_mul, abs_of_pos step, mul_assoc, ← zpow_add₀ (by norm_num), place,
      zpow_natCast, Nat.cast_mul, Nat.cast_pow, Nat.cast_ofNat, Nat.cast_natAbs, Int.cast_abs]
  have read := parts?_fixed places.toNat |shown digits v|
  rw [divEven_of_whole whole] at read
  rw [written, exactValue?_signed _ read, ← whole, mul_assoc, ← zpow_add₀ (by norm_num),
    add_neg_cancel, zpow_zero, mul_one, ite_neg_abs]

theorem exactValue?_withExponent {mark : Char} (isMark : mark = 'e' ∨ mark = 'E')
    (some : 1 ≤ digits) :
    exactValue? (withExponent mark digits v) = .some (shown digits v) := by
  have positive := abs_pos.mpr nonzero
  obtain ⟨count, rounded⟩ := significant_spec some positive
  have nonempty : (significant digits |v|).digits ≠ [] := by
    rw [← List.length_pos_iff, count]
    exact some
  have read := parts?_exponential isMark nonempty fun c => isAsciiDigit_of_mem_significant
  have step : (0 : Rat) < 10 ^ (Int.log 10 |v| - digits + 1) := zpow_pos (by norm_num) _
  have place : (significant digits |v|).exponent - ((digits - 1 : Nat) : Int) =
      (significant digits |v|).exponent - digits + 1 := by omega
  rw [count, place] at read
  have written : withExponent mark digits v = String.ofList
      (if decide (v.num < 0) then '-' :: (significant digits |v|).exponential mark
        else (significant digits |v|).exponential mark) := by
    rw [← Scalar.abs_exact]
    rfl
  -- the size is rounded and the sign is put in front, which is to round the number
  have isShown := roundsTo_shown digits v
  rw [written, exactValue?_signed _ read]
  generalize (digitsValue (significant digits |v|).digits : Rat) *
    10 ^ ((significant digits |v|).exponent - digits + 1) = size at rounded ⊢
  generalize Int.log 10 |v| = e at rounded isShown step
  refine congrArg Option.some ?_
  by_cases negative : v.num < 0
  · rw [abs_of_neg (Rat.num_neg.mp negative)] at rounded
    have opposite := rounded.neg
    rw [neg_neg] at opposite
    rw [if_pos (decide_eq_true negative)]
    exact opposite.unique step isShown
  · rw [abs_of_nonneg (Rat.num_nonneg.mp (not_lt.mp negative))] at rounded
    rw [if_neg (mt of_decide_eq_true negative)]
    exact rounded.unique step isShown

end

end Figure

end Reckon
