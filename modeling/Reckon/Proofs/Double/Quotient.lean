import Reckon.Proofs.Double.Difference

/-!
Bounds on quotients of doubles.

A quotient that is neither large nor lost keeps its sign and a floor that a counter holds, and the
dividend is bounded by the quotient and the divisor.
-/

set_option autoImplicit false

namespace Reckon.Double

open Float.Model Float.Model.UnpackedFloat

/-- The bits of the least double that is a whole number, which is one. -/
@[irreducible] def unitBits : Nat := 1074

theorem unitBits_eq : unitBits = 1074 := by
  rw [unitBits]

/-! ## The whole quotient before the rounding -/

def quotientExponent (m₁ : Nat) (e₁ : Int) (m₂ : Nat) (e₂ : Int) : Int :=
  min (e₁ - e₂) (max (m₁.log2 + 1 + e₁ - (m₂.log2 + 1 + e₂) - 53) (-1074))

def quotient (m₁ : Nat) (e₁ : Int) (m₂ : Nat) (e₂ : Int) : Nat :=
  m₁ * 2 ^ (e₁ - e₂ - quotientExponent m₁ e₁ m₂ e₂).toNat / m₂

def quotientAccuracy (m₁ : Nat) (e₁ : Int) (m₂ : Nat) (e₂ : Int) : Accuracy :=
  accuracyOfFraction (m₁ * 2 ^ (e₁ - e₂ - quotientExponent m₁ e₁ m₂ e₂).toNat % m₂) m₂

theorem divCore_eq (m₁ : Nat) (e₁ : Int) (m₂ : Nat) (e₂ : Int) :
    divCore .binary64 m₁ e₁ m₂ e₂ =
      (quotient m₁ e₁ m₂ e₂, quotientExponent m₁ e₁ m₂ e₂, quotientAccuracy m₁ e₁ m₂ e₂) := by
  simp only [divCore, Nat.shiftLeft_eq]
  rfl

theorem quotientExponent_le_target {m₁ m₂ : Nat} (e₁ e₂ : Int) (positive₁ : 0 < m₁)
    (positive₂ : 0 < m₂) :
    quotientExponent m₁ e₁ m₂ e₂ ≤
      target (quotient m₁ e₁ m₂ e₂) (quotientExponent m₁ e₁ m₂ e₂) := by
  by_cases low : quotientExponent m₁ e₁ m₂ e₂ ≤ -1074
  · exact low.trans (le_max_right _ _)
  · -- the dividend is shifted until it is 52 bits longer than the divisor
    have long : m₂.log2 + 1 + 52 ≤
        m₁.log2 + (e₁ - e₂ - quotientExponent m₁ e₁ m₂ e₂).toNat := by
      unfold quotientExponent at low ⊢
      omega
    have full : 2 ^ 52 ≤ quotient m₁ e₁ m₂ e₂ := by
      rw [quotient, Nat.le_div_iff_mul_le positive₂]
      calc 2 ^ 52 * m₂
          ≤ 2 ^ 52 * 2 ^ (m₂.log2 + 1) := Nat.mul_le_mul_left _ Nat.lt_log2_self.le
        _ = 2 ^ (m₂.log2 + 1 + 52) := by ring
        _ ≤ 2 ^ (m₁.log2 + (e₁ - e₂ - quotientExponent m₁ e₁ m₂ e₂).toNat) :=
            Nat.pow_le_pow_right Nat.two_pos long
        _ = 2 ^ m₁.log2 * 2 ^ (e₁ - e₂ - quotientExponent m₁ e₁ m₂ e₂).toNat := Nat.pow_add _ _ _
        _ ≤ m₁ * 2 ^ (e₁ - e₂ - quotientExponent m₁ e₁ m₂ e₂).toNat :=
            Nat.mul_le_mul_right _ (Nat.log2_self_le (by omega))
    have bits := (Nat.le_log2 (by omega : quotient m₁ e₁ m₂ e₂ ≠ 0)).mpr full
    unfold target
    omega

theorem log2_quotient_le {m₁ m₂ bound : Nat} {e₁ e₂ : Int} (least₁ : -1074 ≤ e₁)
    (least₂ : -1074 ≤ e₂) (positive : 0 < m₂) (some : 0 < quotient m₁ e₁ m₂ e₂)
    (small : m₁ * 2 ^ (e₁ + 1074).toNat ≤ 2 ^ bound * (m₂ * 2 ^ (e₂ + 1074).toNat)) :
    (quotient m₁ e₁ m₂ e₂).log2 + quotientExponent m₁ e₁ m₂ e₂ ≤ bound := by
  generalize t : quotientExponent m₁ e₁ m₂ e₂ = te at *
  have lower : te ≤ e₁ - e₂ := by
    rw [← t]
    exact min_le_left _ _
  have whole : 2 ^ (quotient m₁ e₁ m₂ e₂).log2 * m₂ ≤ m₁ * 2 ^ (e₁ - e₂ - te).toNat := by
    refine (Nat.mul_le_mul_right _ (Nat.log2_self_le (by omega))).trans ?_
    rw [quotient, t]
    exact Nat.div_mul_le_self _ _
  -- both sides are scaled by a power of two so that no exponent is negative
  have scaled : 2 ^ ((quotient m₁ e₁ m₂ e₂).log2 + te.toNat) * (m₂ * 2 ^ (e₂ + 1074).toNat) ≤
      2 ^ (bound + (-te).toNat) * (m₂ * 2 ^ (e₂ + 1074).toNat) := by
    calc 2 ^ ((quotient m₁ e₁ m₂ e₂).log2 + te.toNat) * (m₂ * 2 ^ (e₂ + 1074).toNat)
        = 2 ^ (quotient m₁ e₁ m₂ e₂).log2 * m₂ * 2 ^ (te.toNat + (e₂ + 1074).toNat) := by
          rw [Nat.pow_add, Nat.pow_add]
          ring
      _ ≤ m₁ * 2 ^ (e₁ - e₂ - te).toNat * 2 ^ (te.toNat + (e₂ + 1074).toNat) :=
          Nat.mul_le_mul_right _ whole
      _ = m₁ * 2 ^ (e₁ + 1074).toNat * 2 ^ (-te).toNat := by
          have exponents : (e₁ - e₂ - te).toNat + (te.toNat + (e₂ + 1074).toNat) =
              (e₁ + 1074).toNat + (-te).toNat := by omega
          rw [Nat.mul_assoc, ← Nat.pow_add, exponents, Nat.pow_add, Nat.mul_assoc]
      _ ≤ 2 ^ bound * (m₂ * 2 ^ (e₂ + 1074).toNat) * 2 ^ (-te).toNat :=
          Nat.mul_le_mul_right _ small
      _ = 2 ^ (bound + (-te).toNat) * (m₂ * 2 ^ (e₂ + 1074).toNat) := by
          rw [Nat.pow_add]
          ring
  have divisor : 0 < m₂ * 2 ^ (e₂ + 1074).toNat := by positivity
  have powers := Nat.le_of_mul_le_mul_right scaled divisor
  have exponents := (Nat.pow_le_pow_iff_right (by decide)).mp powers
  omega

/-! ## The rounded quotient -/

def wholeQuotient (x y : Float) : Nat :=
  quotient (Binary.parts x).1 (Binary.parts x).2 (Binary.parts y).1 (Binary.parts y).2

def wholeExponent (x y : Float) : Int :=
  quotientExponent (Binary.parts x).1 (Binary.parts x).2 (Binary.parts y).1 (Binary.parts y).2

def roundedQuotient (x y : Float) : Nat :=
  roundedAt (wholeQuotient x y) (wholeExponent x y)
    (quotientAccuracy (Binary.parts x).1 (Binary.parts x).2 (Binary.parts y).1 (Binary.parts y).2)

def roundedExponent (x y : Float) : Int :=
  target (wholeQuotient x y) (wholeExponent x y)

section

variable {x y : Float} (positiveX : 0 < (Binary.parts x).1) (positiveY : 0 < (Binary.parts y).1)

include positiveX positiveY

theorem wholeExponent_le : wholeExponent x y ≤ roundedExponent x y :=
  quotientExponent_le_target _ _ positiveX positiveY

theorem roundedQuotient_bounds :
    roundedQuotient x y ≤ 2 ^ 53 ∧ -1074 ≤ roundedExponent x y ∧
      (2 ^ 52 ≤ roundedQuotient x y ∨ roundedExponent x y = -1074) := by
  have shifted := canonical_shifted (wholeExponent_le positiveX positiveY)
  refine ⟨(roundedAt_le _ _ _).trans shifted.short, shifted.least, ?_⟩
  exact shifted.full.imp_left fun full => full.trans (roundedAt_ge _ _ _)

theorem div_eq (finiteX : field x ≠ 2047) (finiteY : field y ≠ 2047) :
    x / y = packed (carried (sign x / sign y) (roundedQuotient x y) (roundedExponent x y)) := by
  have fine := wholeExponent_le positiveX positiveY
  have opened : x / y = packed (UnpackedFloat.div .binary64 x.toModel.unpack y.toModel.unpack) := rfl
  rw [opened, unpack_of_field finiteX, unpack_of_field finiteY, dif_neg (by omega),
    dif_neg (by omega)]
  change packed (match divCore .binary64 (Binary.parts x).1 (Binary.parts x).2 (Binary.parts y).1
    (Binary.parts y).2 with | (m, e, accuracy) => roundWithAccuracy .binary64 _ m e accuracy) = _
  rw [divCore_eq]
  exact congrArg packed (roundWithAccuracy_eq _ fine _)

theorem roundedExponent_lt (small : magnitude x ≤ 2 ^ 50 * magnitude y) :
    roundedExponent x y < -1 := by
  have fine := wholeExponent_le positiveX positiveY
  rcases Nat.eq_zero_or_pos (wholeQuotient x y) with zero | positive
  · rw [roundedExponent, zero, target, Nat.log2_zero] at fine ⊢
    omega
  · have leastX := (canonical_parts x).least
    have leastY := (canonical_parts y).least
    have bits : ((wholeQuotient x y).log2 : Int) + wholeExponent x y ≤ 50 :=
      log2_quotient_le leastX leastY positiveY positive small
    unfold roundedExponent target
    omega

theorem magnitude_mul_lt (some : 0 < roundedQuotient x y) :
    magnitude x * 2 ^ unitBits <
      2 * (roundedQuotient x y * 2 ^ (roundedExponent x y + 1074).toNat) * magnitude y := by
  have fine := wholeExponent_le positiveX positiveY
  have leastX := (canonical_parts x).least
  have leastY := (canonical_parts y).least
  have leastT : -1074 ≤ roundedExponent x y := le_max_right _ _
  have bits := unitBits_eq
  have lower : wholeExponent x y ≤ (Binary.parts x).2 - (Binary.parts y).2 := min_le_left _ _
  obtain ⟨shift, shiftIs⟩ : ∃ shift, shift =
    ((Binary.parts x).2 - (Binary.parts y).2 - wholeExponent x y).toNat := ⟨_, rfl⟩
  obtain ⟨k, kIs⟩ : ∃ k, k = (roundedExponent x y - wholeExponent x y).toNat := ⟨_, rfl⟩
  have kept : wholeQuotient x y / 2 ^ k ≤ roundedQuotient x y := by
    rw [kIs]
    exact roundedAt_ge _ _ _
  have quotientLt : wholeQuotient x y < (roundedQuotient x y + 1) * 2 ^ k :=
    (Nat.div_lt_iff_lt_mul (Nat.two_pow_pos k)).mp (Nat.lt_succ_of_le kept)
  have dividendLt :
      (Binary.parts x).1 * 2 ^ shift < (wholeQuotient x y + 1) * (Binary.parts y).1 := by
    rw [shiftIs]
    exact (Nat.div_lt_iff_lt_mul positiveY).mp (Nat.lt_succ_self _)
  -- a mantissa that is not zero loses less than half of the quotient
  have doubled : wholeQuotient x y + 1 ≤ 2 * roundedQuotient x y * 2 ^ k :=
    Nat.le_trans quotientLt (Nat.mul_le_mul_right _ (by omega))
  have exponents : shift + (((Binary.parts y).2 + 1074).toNat +
      (roundedExponent x y + 1074).toNat) = ((Binary.parts x).2 + 1074).toNat + unitBits + k := by
    omega
  refine Nat.lt_of_mul_lt_mul_right (a := 2 ^ k) ?_
  calc magnitude x * 2 ^ unitBits * 2 ^ k
      = (Binary.parts x).1 * 2 ^ shift *
          2 ^ (((Binary.parts y).2 + 1074).toNat + (roundedExponent x y + 1074).toNat) := by
        rw [magnitude, Nat.mul_assoc _ (2 ^ shift), ← Nat.pow_add, exponents, Nat.pow_add,
          Nat.pow_add]
        ring
    _ < 2 * roundedQuotient x y * 2 ^ k * (Binary.parts y).1 *
          2 ^ (((Binary.parts y).2 + 1074).toNat + (roundedExponent x y + 1074).toNat) := by
        refine Nat.mul_lt_mul_of_pos_right ?_ (Nat.two_pow_pos _)
        exact Nat.lt_of_lt_of_le dividendLt (Nat.mul_le_mul_right _ doubled)
    _ = 2 * (roundedQuotient x y * 2 ^ (roundedExponent x y + 1074).toNat) * magnitude y *
          2 ^ k := by
        rw [magnitude, Nat.pow_add]
        ring

end

/-! ## Dividing -/

theorem magnitude_pos_iff (x : Float) : 0 < magnitude x ↔ 0 < (Binary.parts x).1 := by
  have zero := magnitude_eq_zero_iff x
  omega

theorem sign_of_units {x : Float} (some : 0 < magnitude x) (nonneg : 0 ≤ units x) :
    sign x = .positive := by
  cases signIs : sign x with
  | positive => rfl
  | negative =>
    rw [units, signIs, Sign.apply] at nonneg
    omega

theorem magnitude_of_nonneg {x : Float} (nonneg : 0 ≤ units x) : (magnitude x : Int) = units x := by
  rw [← natAbs_units, Int.natAbs_of_nonneg nonneg]

/-- An infinity or what is not a number stays such when a finite double divides it. -/
theorem div_not_finite {x y : Float} (all : field x = 2047) (finiteY : field y ≠ 2047) :
    (x / y).isFinite = false := by
  have opened : x / y = packed (UnpackedFloat.div .binary64 x.toModel.unpack y.toModel.unpack) := rfl
  rw [opened]
  obtain undefined | ⟨s, infinite⟩ := unpack_of_all all
  · rw [undefined]
    exact packed_notANumber
  · obtain divisor | ⟨positive, divisor⟩ := unpack_cases finiteY <;>
      rw [infinite, divisor] <;> exact packed_infinity _

theorem magnitude_dividend_lt {x y : Float} (finiteX : field x ≠ 2047) (finiteY : field y ≠ 2047)
    (positiveX : 0 < magnitude x) (positiveY : 0 < magnitude y)
    (finite : (x / y).isFinite = true) (some : 0 < magnitude (x / y)) :
    magnitude x * 2 ^ unitBits < 2 * magnitude (x / y) * magnitude y := by
  rw [magnitude_pos_iff] at positiveX positiveY
  obtain ⟨carry, least, full⟩ := roundedQuotient_bounds positiveX positiveY
  have quotientIs := div_eq positiveX positiveY finiteX finiteY
  rcases Nat.lt_or_ge (roundedQuotient x y * 2 ^ (roundedExponent x y + 1074).toNat) overflow
    with within | beyond
  · obtain ⟨_, _, sizeIs, _⟩ := packed_carried (s := sign x / sign y) carry least full within
    rw [← quotientIs] at sizeIs
    rw [sizeIs] at some ⊢
    exact magnitude_mul_lt positiveX positiveY (Nat.pos_of_mul_pos_right some)
  · have infinite := packed_carried_overflow (s := sign x / sign y) carry least beyond
    rw [← quotientIs, finite] at infinite
    exact absurd infinite (by decide)

/-- The quotient of comparable sizes with no minus sign is finite and has a fraction. -/
theorem div_bounded {x y : Float} (finiteX : field x ≠ 2047) (finiteY : field y ≠ 2047)
    (nonneg : 0 ≤ units x) (positive : 0 < units y)
    (comparable : magnitude x ≤ 2 ^ 50 * magnitude y) :
    field (x / y) ≠ 2047 ∧ 0 ≤ units (x / y) ∧ (Binary.parts (x / y)).2 < 0 := by
  have positiveY : 0 < magnitude y := by
    have size := magnitude_of_nonneg positive.le
    omega
  have signY := sign_of_units positiveY positive.le
  rw [magnitude_pos_iff] at positiveY
  by_cases zero : (Binary.parts x).1 = 0
  · have quotientIs : x / y = packed (.zero (sign x / sign y)) := by
      have opened : x / y =
          packed (UnpackedFloat.div .binary64 x.toModel.unpack y.toModel.unpack) := rfl
      rw [opened, unpack_of_field finiteX, unpack_of_field finiteY, dif_pos zero,
        dif_neg (by omega)]
      rfl
    obtain ⟨fieldIs, partsAre, _⟩ := packed_zero (sign x / sign y)
    rw [← quotientIs] at fieldIs partsAre
    refine ⟨by omega, ?_, ?_⟩
    · rw [units, magnitude, partsAre, Nat.zero_mul, Nat.cast_zero, apply_zero]
    · rw [partsAre]
      decide
  · have positiveX : 0 < (Binary.parts x).1 := Nat.pos_of_ne_zero zero
    have signX := sign_of_units ((magnitude_pos_iff x).mpr positiveX) nonneg
    have signs : sign x / sign y = .positive := by
      rw [signX, signY]
      rfl
    obtain ⟨carry, least, full⟩ := roundedQuotient_bounds positiveX positiveY
    have small := roundedExponent_lt positiveX positiveY comparable
    have bits := overflowBits_eq
    have within : roundedQuotient x y * 2 ^ (roundedExponent x y + 1074).toNat < overflow := by
      have short : roundedQuotient x y < 2 ^ 54 := by omega
      exact mul_lt_overflow short (by omega)
    obtain ⟨fieldIs, signIs, _, exponentIs⟩ :=
      packed_carried (s := sign x / sign y) carry least full within
    rw [← div_eq positiveX positiveY finiteX finiteY] at fieldIs signIs exponentIs
    refine ⟨fieldIs, ?_, by omega⟩
    rw [units_of_positive (signIs.trans signs)]
    exact Int.natCast_nonneg _

/-! ## Whole parts -/

/-- The bits of a fraction and the room that is left before them make up the bits of a unit. -/
theorem unitBits_of_fraction {x : Float} (fraction : (Binary.parts x).2 < 0) :
    unitBits = (-(Binary.parts x).2).toNat + ((Binary.parts x).2 + 1074).toNat := by
  have bits := unitBits_eq
  have least := (canonical_parts x).least
  omega

theorem signedParts_mul (x : Float) :
    (Binary.signedParts x).1 * (2 ^ ((Binary.parts x).2 + 1074).toNat : Nat) = units x := by
  rw [units, magnitude, sign]
  change (if Binary.isNegative x = true then -((Binary.parts x).1 : Int) else (Binary.parts x).1) *
    _ = _
  split
  · change _ = -(((Binary.parts x).1 * 2 ^ ((Binary.parts x).2 + 1074).toNat : Nat) : Int)
    rw [Nat.cast_mul, Int.neg_mul]
  · exact (Nat.cast_mul _ _).symm

theorem floorExact_eq (x : Float) : Binary.floorExact x = units x / (2 ^ unitBits : Nat) := by
  have bits := unitBits_eq
  have least := (canonical_parts x).least
  have exponent : (Binary.signedParts x).2 = (Binary.parts x).2 := rfl
  have power (n : Nat) : (0 : Int) < (2 ^ n : Nat) := Int.natCast_pos.mpr (Nat.two_pow_pos n)
  rw [← signedParts_mul]
  simp only [Binary.floorExact, exponent, Binary.twoPow_eq]
  split
  · have exponents : ((Binary.parts x).2 + 1074).toNat = (Binary.parts x).2.toNat + unitBits := by
      omega
    rw [exponents, Nat.pow_add, Nat.cast_mul, ← Int.mul_assoc,
      Int.mul_ediv_cancel _ (power unitBits).ne']
  · conv_rhs => rw [unitBits_of_fraction (by omega : (Binary.parts x).2 < 0)]
    rw [Int.fdiv_eq_ediv_of_nonneg _ (power _).le, Nat.pow_add, Nat.cast_mul,
      Int.mul_ediv_mul_of_pos_left _ _ (power _)]

/-- A counter holds the whole part of a double that is not too large. -/
theorem floor_of_lt {x : Float} (finite : field x ≠ 2047) (nonneg : 0 ≤ units x)
    (small : magnitude x < 2 ^ 63 * 2 ^ unitBits) :
    Binary.floor x = (magnitude x / 2 ^ unitBits : Nat) := by
  have whole : Binary.floorExact x = (magnitude x / 2 ^ unitBits : Nat) := by
    rw [floorExact_eq, ← magnitude_of_nonneg nonneg]
    rfl
  have below := (Nat.div_lt_iff_lt_mul (Nat.two_pow_pos unitBits)).mpr small
  have range : Binary.leastCounter = -2 ^ 63 := rfl
  rw [Binary.floor, if_pos ((isFinite_iff x).mpr finite), whole]
  generalize magnitude x / 2 ^ unitBits = size at below
  rw [Binary.toCounter, if_pos (by omega)]

/-- The whole part of a double with a fraction is held by a counter. -/
theorem floor_nonneg {x : Float} (finite : field x ≠ 2047) (nonneg : 0 ≤ units x)
    (fraction : (Binary.parts x).2 < 0) : 0 ≤ Binary.floor x := by
  have bits := unitBits_eq
  have small : magnitude x < 2 ^ 63 * 2 ^ unitBits := by
    rw [magnitude]
    exact Nat.mul_lt_mul_of_lt_of_le ((canonical_parts x).short.trans (by decide))
      (Nat.pow_le_pow_right Nat.two_pos (by omega)) (Nat.two_pow_pos _)
  rw [floor_of_lt finite nonneg small]
  exact Int.natCast_nonneg _

end Reckon.Double
