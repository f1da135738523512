import Reckon.Proofs.Decimal.Digits
import Reckon.Proofs.Scalar.Rounding

/-!
The digits of a rounded number.

There are as many as were asked for, also where the rounding reaches the next decade, and with the
exponent they write the rounded number.
-/

set_option autoImplicit false

namespace Reckon.Decimal

open Scalar (cast_tenPow natAbs_div_den tenPow_div_tenPow tenPow_pos)

/-! ## Counting digits -/

theorem length_digitsBefore {fuel n : Nat} (enough : n < 2 ^ (fuel + 1)) (rest : List Char) :
    (digitsBefore (fuel + 1) n rest).length = Nat.log 10 n + 1 + rest.length := by
  induction fuel generalizing n rest with
  | zero =>
    have small : n < 10 := by omega
    rw [digitsBefore, if_pos small, Nat.log_of_lt small, List.length_cons]
    omega
  | succ fuel ih =>
    rw [digitsBefore]
    split
    · next small =>
      rw [Nat.log_of_lt small, List.length_cons]
      omega
    · next large =>
      have fewer : n / 10 < 2 ^ (fuel + 1) := by
        rw [Nat.pow_succ] at enough
        omega
      rw [ih fewer, List.length_cons, Nat.log_div_base]
      have some : 1 ≤ Nat.log 10 n := Nat.log_pos (by decide) (by omega)
      omega

theorem length_digits (n : Nat) : (digits n).length = Nat.log 10 n + 1 :=
  length_digitsBefore Nat.lt_log2_self []

/-- The test for a decade compares whole numbers: the zeros of the power are put on one of them. -/
theorem reaches_iff {num den : Nat} (positive : 0 < num) (divides : 0 < den) (guess : Int) :
    (if 0 ≤ guess then den * tenPow guess.toNat ≤ num else den ≤ num * tenPow (-guess).toNat) ↔
      guess ≤ Int.log 10 ((num : Rat) / den) := by
  have scale : (0 : Rat) < den := by exact_mod_cast divides
  have quotient : (0 : Rat) < num / den := div_pos (by exact_mod_cast positive) scale
  have powers := tenPow_pos (-guess).toNat
  rw [← Int.zpow_le_iff_le_log (by decide) quotient, Nat.cast_ofNat, ← tenPow_div_tenPow,
    div_le_div_iff₀ (by exact_mod_cast powers) scale, mul_comm (tenPow guess.toNat : Rat)]
  split
  · next whole =>
    have one : (-guess).toNat = 0 := by omega
    rw [one]
    simp [tenPow]
    norm_cast
  · next fraction =>
    have one : guess.toNat = 0 := by omega
    rw [one]
    simp [tenPow]
    norm_cast

theorem zpow_log_le {n : Nat} (some : 0 < n) : (10 : Rat) ^ (Nat.log 10 n : Int) ≤ n := by
  rw [zpow_natCast]
  exact_mod_cast Nat.pow_log_le_self 10 some.ne'

theorem lt_zpow_succ_log (n : Nat) : (n : Rat) < 10 ^ ((Nat.log 10 n : Int) + 1) := by
  rw [← Nat.cast_succ, zpow_natCast]
  exact_mod_cast Nat.lt_pow_succ_log_self (by decide) n

/-- The digits of two numbers tell the decade of their quotient up to one. -/
theorem log_div_bounds {num den : Nat} (positive : 0 < num) (divides : 0 < den) :
    (Nat.log 10 num : Int) - Nat.log 10 den - 1 ≤ Int.log 10 ((num : Rat) / den) ∧
      Int.log 10 ((num : Rat) / den) < (Nat.log 10 num : Int) - Nat.log 10 den + 1 := by
  have scale : (0 : Rat) < den := by exact_mod_cast divides
  have quotient : (0 : Rat) < num / den := div_pos (by exact_mod_cast positive) scale
  constructor
  · rw [← Int.zpow_le_iff_le_log (by decide) quotient, le_div_iff₀ scale, Nat.cast_ofNat]
    calc (10 : Rat) ^ ((Nat.log 10 num : Int) - Nat.log 10 den - 1) * den
        ≤ 10 ^ ((Nat.log 10 num : Int) - Nat.log 10 den - 1) * 10 ^ ((Nat.log 10 den : Int) + 1) :=
          mul_le_mul_of_nonneg_left (lt_zpow_succ_log den).le (zpow_nonneg (by norm_num) _)
      _ = 10 ^ (Nat.log 10 num : Int) := by
          rw [← zpow_add₀ (by norm_num)]
          congr 1
          ring
      _ ≤ num := zpow_log_le positive
  · rw [← Int.lt_zpow_iff_log_lt (by decide) quotient, div_lt_iff₀ scale, Nat.cast_ofNat]
    calc (num : Rat) < 10 ^ ((Nat.log 10 num : Int) + 1) := lt_zpow_succ_log num
      _ = 10 ^ ((Nat.log 10 num : Int) - Nat.log 10 den + 1) * 10 ^ (Nat.log 10 den : Int) := by
          rw [← zpow_add₀ (by norm_num)]
          congr 1
          ring
      _ ≤ 10 ^ ((Nat.log 10 num : Int) - Nat.log 10 den + 1) * den :=
          mul_le_mul_of_nonneg_left (zpow_log_le divides) (zpow_nonneg (by norm_num) _)

theorem decade_eq_log {num den : Nat} (positive : 0 < num) (divides : 0 < den) :
    decade num den = Int.log 10 ((num : Rat) / den) := by
  obtain ⟨atLeast, below⟩ := log_div_bounds positive divides
  have reaches := reaches_iff positive divides
  rw [decade, digitCount, digitCount, length_digits, length_digits]
  by_cases reached : ((Nat.log 10 num + 1 : Nat) : Int) - (Nat.log 10 den + 1 : Nat) ≤
      Int.log 10 ((num : Rat) / den)
  · rw [if_pos ((reaches _).mpr reached)]
    omega
  · rw [if_neg (mt (reaches _).mp reached)]
    omega

/-! ## Significant digits -/

theorem radixDigit?_of_digit {c : Char} (digit : Text.isAsciiDigit c = true) :
    radixDigit? 10 c = some (c.toNat - 48) := by
  have bound : c.toNat - 48 < 10 := by
    simp only [Text.isAsciiDigit, Bool.and_eq_true, decide_eq_true_eq, Char.le_def,
      UInt32.le_iff_toNat_le] at digit
    have high : c.toNat ≤ 57 := digit.2
    omega
  simp [radixDigit?, digit, bound]

theorem digitsValue_eq_radixValue {cs : List Char} (digits : ∀ c ∈ cs, Text.isAsciiDigit c = true) :
    digitsValue cs = radixValue 10 cs := by
  rw [digitsValue, radixValue]
  refine List.foldl_ext _ _ 0 fun n c member => ?_
  rw [radixDigit?_of_digit (digits c member), Option.getD_some]

theorem digitsValue_digits (n : Nat) : digitsValue (digits n) = n := by
  rw [digitsValue_eq_radixValue fun c => isAsciiDigit_of_mem_digits, radixValue_digits]

theorem decade_exact {size : Rat} (positive : 0 < size) :
    decade size.num.natAbs size.den = Int.log 10 size := by
  have some : 0 < size.num.natAbs := Int.natAbs_pos.mpr (Rat.num_pos.mpr positive).ne'
  rw [decade_eq_log some size.den_pos, natAbs_div_den positive.le]

/-- The digits of a size as a whole number, rounded at the given place. -/
def roundedAt (place : Int) (size : Rat) : Nat :=
  Binary.divEven (size.num.natAbs * tenPow (-place).toNat) (size.den * tenPow place.toNat)

theorem roundsTo_roundedAt {size : Rat} (nonneg : 0 ≤ size) (place : Int) :
    RoundsTo (10 ^ place) size (roundedAt place size * 10 ^ place) := by
  have rounded := Scalar.roundsTo_divEven nonneg (-place)
  rwa [neg_neg] at rounded

theorem significant_eq {count : Nat} {size : Rat} (positive : 0 < size) :
    significant count size =
      if roundedAt (Int.log 10 size - count + 1) size < 10 ^ count then
        { digits := digits (roundedAt (Int.log 10 size - count + 1) size)
          exponent := Int.log 10 size }
      else
        { digits := digits (roundedAt (Int.log 10 size - count + 1) size / 10)
          exponent := Int.log 10 size + 1 } := by
  have some : ¬size.num = 0 := (Rat.num_pos.mpr positive).ne'
  have place : Int.log 10 size - ((count : Int) - 1) = Int.log 10 size - count + 1 := by ring
  have rounded (place : Int) :
      (if 0 ≤ place then Binary.divEven size.num.natAbs (size.den * tenPow place.toNat)
        else Binary.divEven (size.num.natAbs * tenPow (-place).toNat) size.den) =
      roundedAt place size := by
    rw [roundedAt]
    split
    · next whole =>
      have one : (-place).toNat = 0 := by omega
      rw [one]
      simp [tenPow]
    · next fraction =>
      have one : place.toNat = 0 := by omega
      rw [one]
      simp [tenPow]
  rw [significant, if_neg some]
  dsimp only
  rw [decade_exact positive, place, rounded]
  rfl

theorem significant_spec {count : Nat} (some : 1 ≤ count) {size : Rat} (positive : 0 < size) :
    (significant count size).digits.length = count ∧
    RoundsTo (10 ^ (Int.log 10 size - count + 1)) size
      (digitsValue (significant count size).digits *
        10 ^ ((significant count size).exponent - count + 1)) := by
  have least : 10 ^ Int.log 10 size ≤ size := Int.zpow_log_le_self (by decide) positive
  have below : size < 10 ^ (Int.log 10 size + 1) := Int.lt_zpow_succ_log_self (by decide) size
  have rounded := roundsTo_roundedAt positive.le (Int.log 10 size - count + 1)
  obtain ⟨first, last⟩ := Shown.bounds some least below rounded
  have step : (0 : Rat) < 10 ^ (Int.log 10 size - count + 1) := zpow_pos (by norm_num) _
  rw [significant_eq positive]
  generalize roundedAt (Int.log 10 size - count + 1) size = m at rounded first last ⊢
  generalize Int.log 10 size = top at rounded first last step ⊢
  rw [← Shown.first_multiple some top] at first
  rw [← Shown.last_multiple count top] at last
  have many : 10 ^ (count - 1) ≤ m := by exact_mod_cast le_of_mul_le_mul_right first step
  have few : m ≤ 10 ^ count := by exact_mod_cast le_of_mul_le_mul_right last step
  have power : 10 ^ count = 10 ^ (count - 1) * 10 := by
    rw [← Nat.pow_succ]
    congr 1
    omega
  split
  · next inside =>
    refine ⟨?_, ?_⟩
    · have log : Nat.log 10 m = count - 1 := by
        refine Nat.log_eq_of_pow_le_of_lt_pow many ?_
        rwa [Nat.pow_succ, ← power]
      rw [length_digits, log]
      omega
    · rw [digitsValue_digits]
      exact rounded
  · next beyond =>
    -- the rounding reaches the next decade
    obtain rfl : m = 10 ^ count := le_antisymm few (not_lt.mp beyond)
    have tenth : 10 ^ count / 10 = 10 ^ (count - 1) := by
      rw [power, Nat.mul_div_cancel _ (by decide)]
    refine ⟨?_, ?_⟩
    · rw [tenth, length_digits, Nat.log_pow (by decide)]
      omega
    · have same : ((10 ^ (count - 1) : Nat) : Rat) * 10 ^ (top + 1 - count + 1) =
          (10 ^ count : Nat) * 10 ^ (top - count + 1) := by
        rw [power, Nat.cast_mul, mul_assoc, Nat.cast_ofNat, ← zpow_one_add₀ (by norm_num)]
        congr 2
        ring
      rw [tenth, digitsValue_digits, same]
      exact rounded

end Reckon.Decimal
