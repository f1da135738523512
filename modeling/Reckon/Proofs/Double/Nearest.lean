import Mathlib.Algebra.Order.Group.Nat
import Mathlib.Data.Nat.Log
import Mathlib.Tactic.Ring
import Mathlib.Tactic.SplitIfs
import Reckon.Binary

/-!
Rounding to the nearest whole number and to a number of significant bits.

A number between two neighbours of the grid goes to one of them, so rounding keeps the order and
never moves a number by more than half of a step.
-/

set_option autoImplicit false

namespace Reckon.Binary

theorem twoPow_eq (n : Nat) : twoPow n = 2 ^ n := rfl

/-! ## Nearest whole numbers -/

theorem div_le_divEven (a b : Nat) : a / b ≤ divEven a b := by
  unfold divEven
  dsimp only
  split
  · exact Nat.le_refl _
  · split
    · exact Nat.le_succ _
    · split
      · exact Nat.le_refl _
      · exact Nat.le_succ _

theorem divEven_le_succ (a b : Nat) : divEven a b ≤ a / b + 1 := by
  unfold divEven
  dsimp only
  split
  · exact Nat.le_succ _
  · split
    · exact Nat.le_refl _
    · split
      · exact Nat.le_succ _
      · exact Nat.le_refl _

theorem divEven_mul_right {b : Nat} (q : Nat) (positive : 0 < b) : divEven (q * b) b = q := by
  have quotient : q * b / b = q := Nat.mul_div_cancel q positive
  have rest : q * b % b = 0 := Nat.mul_mod_left q b
  simp only [divEven, quotient, rest]
  rw [if_pos (by omega)]

theorem divEven_one (n : Nat) : divEven n 1 = n := by
  simpa using divEven_mul_right n Nat.one_pos

theorem divEven_mul_of_dvd {a b : Nat} (positive : 0 < b) (multiple : b ∣ a) :
    divEven a b * b = a := by
  obtain ⟨q, rfl⟩ := multiple
  rw [Nat.mul_comm b q, divEven_mul_right q positive]

theorem divEven_scale {c : Nat} (a b : Nat) (positive : 0 < c) :
    divEven (c * a) (c * b) = divEven a b := by
  have quotient : c * a / (c * b) = a / b := Nat.mul_div_mul_left a b positive
  have rest : c * a % (c * b) = c * (a % b) := Nat.mul_mod_mul_left c a b
  have below : 2 * (c * (a % b)) < c * b ↔ 2 * (a % b) < b := by
    rw [Nat.mul_left_comm]
    exact Nat.mul_lt_mul_left positive
  have above : c * b < 2 * (c * (a % b)) ↔ b < 2 * (a % b) := by
    rw [Nat.mul_left_comm]
    exact Nat.mul_lt_mul_left positive
  simp only [divEven, quotient, rest, below, above]

theorem divEven_mono {a a' b : Nat} (le : a ≤ a') : divEven a b ≤ divEven a' b := by
  have quotients : a / b ≤ a' / b := Nat.div_le_div_right le
  rcases Nat.lt_or_eq_of_le quotients with apart | same
  · exact (divEven_le_succ a b).trans (Nat.le_trans apart (div_le_divEven a' b))
  · have rests : a % b ≤ a' % b := by
      have split := Nat.div_add_mod a b
      have split' := Nat.div_add_mod a' b
      rw [same] at split
      omega
    unfold divEven
    simp only [same]
    split_ifs <;> omega

theorem divEven_mul_le (a b : Nat) : 2 * (divEven a b * b) ≤ 2 * a + b := by
  have split := Nat.div_add_mod a b
  rw [Nat.mul_comm b] at split
  unfold divEven
  dsimp only
  have up : (a / b + 1) * b = a / b * b + b := by ring
  split
  · omega
  · split
    · omega
    · split <;> omega

theorem le_divEven_mul (a : Nat) {b : Nat} (positive : 0 < b) :
    2 * a ≤ 2 * (divEven a b * b) + b := by
  have split := Nat.div_add_mod a b
  rw [Nat.mul_comm b] at split
  have rest := Nat.mod_lt a positive
  have up : (a / b + 1) * b = a / b * b + b := by ring
  unfold divEven
  dsimp only
  split_ifs <;> omega

/-! ## Significant bits -/

/-- The step between neighbours of as many bits as the number. -/
def spacing (bits n : Nat) : Nat :=
  2 ^ (n.log2 + 1 - bits)

theorem spacing_pos (bits n : Nat) : 0 < spacing bits n :=
  Nat.two_pow_pos _

/-- A number has no more bits before its step than it is rounded to. -/
theorem lt_spacing_mul (bits n : Nat) : n < spacing bits n * 2 ^ bits := by
  rw [spacing, ← Nat.pow_add]
  exact Nat.lt_of_lt_of_le Nat.lt_log2_self (Nat.pow_le_pow_right Nat.two_pos (by omega))

theorem roundBits_eq (bits n : Nat) :
    roundBits bits n = divEven n (spacing bits n) * spacing bits n := rfl

theorem roundBits_le_half (bits n : Nat) : 2 * roundBits bits n ≤ 2 * n + spacing bits n :=
  divEven_mul_le n _

theorem roundBits_of_dvd {bits n : Nat} (onGrid : spacing bits n ∣ n) : roundBits bits n = n :=
  divEven_mul_of_dvd (spacing_pos bits n) onGrid

/-- A number is not rounded below a point of the grid that is less than half a step above it. -/
theorem le_roundBits {bits n x : Nat} (onGrid : spacing bits n ∣ x)
    (near : 2 * x < 2 * n + spacing bits n) : x ≤ roundBits bits n := by
  have half := le_divEven_mul n (spacing_pos bits n)
  rw [roundBits_eq]
  obtain ⟨c, rfl⟩ := onGrid
  rw [Nat.mul_comm (spacing bits n) c] at near ⊢
  refine Nat.mul_le_mul_right _ (Nat.le_of_lt_succ ?_)
  refine Nat.lt_of_mul_lt_mul_right (a := spacing bits n) ?_
  rw [Nat.succ_mul]
  omega

/-- A power of two on the grid bounds the numbers on either side of it. -/
theorem divEven_spacing_pow {bits n exponent : Nat} (fine : n.log2 + 1 - bits ≤ exponent) :
    divEven (2 ^ exponent) (spacing bits n) * spacing bits n = 2 ^ exponent := by
  have whole : 2 ^ exponent = 2 ^ (exponent - (n.log2 + 1 - bits)) * spacing bits n :=
    (pow_sub_mul_pow 2 fine).symm
  rw [whole, divEven_mul_right _ (spacing_pos bits n)]

theorem roundBits_le_pow {bits n exponent : Nat} (fine : n.log2 + 1 - bits ≤ exponent)
    (le : n ≤ 2 ^ exponent) : roundBits bits n ≤ 2 ^ exponent := by
  rw [roundBits_eq, ← divEven_spacing_pow fine]
  exact Nat.mul_le_mul_right _ (divEven_mono le)

theorem pow_le_roundBits {bits n exponent : Nat} (fine : n.log2 + 1 - bits ≤ exponent)
    (le : 2 ^ exponent ≤ n) : 2 ^ exponent ≤ roundBits bits n := by
  rw [roundBits_eq]
  conv_lhs => rw [← divEven_spacing_pow fine]
  exact Nat.mul_le_mul_right _ (divEven_mono le)

theorem roundBits_mono {bits n n' : Nat} (anyBits : 1 ≤ bits) (le : n ≤ n') :
    roundBits bits n ≤ roundBits bits n' := by
  rcases Nat.eq_zero_or_pos n with zero | positive
  · subst zero
    have rounded : roundBits bits 0 = 0 := by simp [roundBits_eq, divEven, spacing_pos]
    rw [rounded]
    exact Nat.zero_le _
  · have logs : n.log2 ≤ n'.log2 :=
      (Nat.le_log2 (by omega)).mpr ((Nat.log2_self_le (by omega)).trans le)
    rcases Nat.lt_or_eq_of_le logs with apart | same
    · -- a power of two stands between the numbers, and it is on both grids
      have below : roundBits bits n ≤ 2 ^ (n.log2 + 1) :=
        roundBits_le_pow (by omega) (Nat.le_of_lt Nat.lt_log2_self)
      have above : 2 ^ n'.log2 ≤ roundBits bits n' :=
        pow_le_roundBits (by omega) (Nat.log2_self_le (by omega))
      exact below.trans ((Nat.pow_le_pow_right Nat.two_pos apart).trans above)
    · have spacings : spacing bits n = spacing bits n' := by rw [spacing, spacing, same]
      rw [roundBits_eq, roundBits_eq, spacings]
      exact Nat.mul_le_mul_right _ (divEven_mono le)

theorem spacing_of_log2_lt {bits n : Nat} (short : n.log2 < bits) : spacing bits n = 1 := by
  have none : n.log2 + 1 - bits = 0 := by omega
  rw [spacing, none, Nat.pow_zero]

end Reckon.Binary
