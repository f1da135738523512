import Reckon.Proofs.Double.Quotient

/-!
Products of doubles that are not too large are finite.
-/

set_option autoImplicit false

namespace Reckon.Double

open Float.Model Float.Model.UnpackedFloat

/-- A product has bits enough for the rounding: one of the mantissas has all of them unless both
exponents are the least one. -/
theorem sum_le_target {m₁ m₂ : Nat} {e₁ e₂ : Int} (first : Canonical m₁ e₁)
    (second : Canonical m₂ e₂)
    (positive₁ : 0 < m₁) (positive₂ : 0 < m₂) : e₁ + e₂ ≤ target (m₁ * m₂) (e₁ + e₂) := by
  have full (m : Nat) (some : m₁ * m₂ ≠ 0) (le : m ≤ m₁ * m₂) (bits : 2 ^ 52 ≤ m) :
      e₁ + e₂ ≤ target (m₁ * m₂) (e₁ + e₂) := by
    have long := (Nat.le_log2 some).mpr (bits.trans le)
    unfold target
    omega
  have some : m₁ * m₂ ≠ 0 := (Nat.mul_pos positive₁ positive₂).ne'
  rcases first.full with bits | least₁
  · exact full m₁ some (Nat.le_mul_of_pos_right m₁ positive₂) bits
  · rcases second.full with bits | least₂
    · exact full m₂ some (Nat.le_mul_of_pos_left m₂ positive₁) bits
    · unfold target
      omega

theorem log2_mul_lt {m₁ m₂ : Nat} (short₁ : m₁ < 2 ^ 53) (short₂ : m₂ < 2 ^ 53)
    (some : m₁ * m₂ ≠ 0) : (m₁ * m₂).log2 < 106 := by
  rw [Nat.log2_lt some]
  calc m₁ * m₂
      < 2 ^ 53 * 2 ^ 53 := Nat.mul_lt_mul'' short₁ short₂
    _ = 2 ^ 106 := by decide

theorem mul_eq {x y : Float} (finiteX : field x ≠ 2047) (finiteY : field y ≠ 2047)
    (positiveX : 0 < (Binary.parts x).1) (positiveY : 0 < (Binary.parts y).1) :
    x * y = packed (carried (sign x * sign y)
      (roundedAt ((Binary.parts x).1 * (Binary.parts y).1)
        ((Binary.parts x).2 + (Binary.parts y).2) .exact)
      (target ((Binary.parts x).1 * (Binary.parts y).1)
        ((Binary.parts x).2 + (Binary.parts y).2))) := by
  have fine := sum_le_target (canonical_parts x) (canonical_parts y) positiveX positiveY
  have opened : x * y = packed (UnpackedFloat.mul .binary64 x.toModel.unpack y.toModel.unpack) := rfl
  rw [opened, unpack_of_field finiteX, unpack_of_field finiteY, dif_neg (by omega),
    dif_neg (by omega)]
  exact congrArg packed (roundWithAccuracy_eq _ fine _)

theorem mul_zero_eq {x y : Float} (finiteX : field x ≠ 2047) (finiteY : field y ≠ 2047)
    (zero : (Binary.parts x).1 = 0 ∨ (Binary.parts y).1 = 0) :
    x * y = packed (.zero (sign x * sign y)) := by
  have opened : x * y = packed (UnpackedFloat.mul .binary64 x.toModel.unpack y.toModel.unpack) := rfl
  rw [opened, unpack_of_field finiteX, unpack_of_field finiteY]
  by_cases zeroX : (Binary.parts x).1 = 0
  · rw [dif_pos zeroX]
    by_cases zeroY : (Binary.parts y).1 = 0
    · rw [dif_pos zeroY]
      rfl
    · rw [dif_neg zeroY]
      rfl
  · rw [dif_neg zeroX, dif_pos (zero.resolve_left zeroX)]
    rfl

theorem mul_zero_cases (x : Float) : (x * 0).isNaN = true ∨ x * 0 ≤ 0 := by
  have opened : x * 0 = packed (UnpackedFloat.mul .binary64 x.toModel.unpack (.zero .positive)) := rfl
  have zeros (s : Sign) : packed (.zero s) ≤ 0 := by
    cases s <;> decide +kernel
  have undefined : (packed .notANumber).isNaN = true := by decide +kernel
  rw [opened]
  cases x.toModel.unpack with
  | infinity | notANumber => exact .inl undefined
  | zero s | finite s => exact .inr (zeros _)

theorem mul_finite {x y : Float} (finiteX : field x ≠ 2047) (finiteY : field y ≠ 2047)
    (small : (Binary.parts x).2 + (Binary.parts y).2 ≤ 0) : field (x * y) ≠ 2047 := by
  by_cases zero : (Binary.parts x).1 = 0 ∨ (Binary.parts y).1 = 0
  · rw [mul_zero_eq finiteX finiteY zero, (packed_zero _).1]
    decide
  · have positiveX : 0 < (Binary.parts x).1 := by omega
    have positiveY : 0 < (Binary.parts y).1 := by omega
    have fine := sum_le_target (canonical_parts x) (canonical_parts y) positiveX positiveY
    have shifted := canonical_shifted fine
    have long := log2_mul_lt (canonical_parts x).short (canonical_parts y).short
      (Nat.mul_pos positiveX positiveY).ne'
    have carry := (roundedAt_le _ _ .exact).trans shifted.short
    have bits := overflowBits_eq
    have least := shifted.least
    have low : target ((Binary.parts x).1 * (Binary.parts y).1)
        ((Binary.parts x).2 + (Binary.parts y).2) ≤ 53 := by
      unfold target
      omega
    -- 106 bits at an exponent up to zero are far from the overflow, also after a carry
    rw [mul_eq finiteX finiteY positiveX positiveY]
    refine (packed_carried carry least ?_ ?_).1
    · exact shifted.full.imp_left fun full => full.trans (roundedAt_ge _ _ _)
    · have short : _ < 2 ^ 54 := carry.trans_lt (by decide)
      exact mul_lt_overflow short (by omega)

end Reckon.Double
