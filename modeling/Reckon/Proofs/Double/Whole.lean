import Mathlib.Tactic.FieldSimp
import Reckon.Proofs.Double.Product

/-!
Exact values of doubles, whole numbers as doubles, and products with them.

A finite double is a whole number of units. A whole number of up to 53 bits is a double, and its
product with a double is the exact one rounded to 53 bits, unless that is beyond the doubles.
-/

set_option autoImplicit false

namespace Reckon.Double

open Float.Model Float.Model.UnpackedFloat

/-! ## Exact values -/

theorem toRat_eq (x : Float) : Binary.toRat x = units x / (2 ^ unitBits : Nat) := by
  have bits := unitBits_eq
  have least := (canonical_parts x).least
  have exponent : (Binary.signedParts x).2 = (Binary.parts x).2 := rfl
  rw [← signedParts_mul]
  simp only [Binary.toRat, exponent, Binary.twoPow_eq]
  split
  · have exponents : ((Binary.parts x).2 + 1074).toNat = (Binary.parts x).2.toNat + unitBits := by
      omega
    rw [exponents]
    push_cast
    rw [pow_add]
    field_simp
  · conv_rhs => rw [unitBits_of_fraction (by omega : (Binary.parts x).2 < 0)]
    rw [Rat.mkRat_eq_div]
    push_cast
    rw [pow_add]
    field_simp

/-! ## Whole numbers -/

def signOf (negative : Bool) : Sign :=
  if negative then .negative else .positive

def signBit (negative : Bool) : Nat :=
  if negative then 2 ^ 63 else 0

/-- Bits whose exponent is not the greatest are those of a double, which is only packed again. -/
theorem exists_toBits {bits : Nat} (range : bits < 2 ^ 64) (finite : bits / 2 ^ 52 % 2 ^ 11 < 2047) :
    ∃ x : Float, x.toBits = bits.toUInt64 ∧
      Float.ofBits bits.toUInt64 = packed x.toModel.unpack := by
  have word : bits.toUInt64.toNat = bits := Nat.mod_eq_of_lt range
  have exponent : (@unpackExponent .binary64 bits.toUInt64.toBitVec).toNat =
      bits / 2 ^ 52 % 2 ^ 11 := by
    rw [toNat_unpackExponent]
    change bits.toUInt64.toNat / 2 ^ 52 % 2 ^ 11 = _
    rw [word]
  have valid : Format.binary64.Valid bits.toUInt64.toBitVec := by
    refine ⟨fun set => absurd set fun same => ?_⟩
    rw [same] at exponent
    change 2047 = _ at exponent
    omega
  exact ⟨.ofModel ⟨_, valid⟩, rfl, rfl⟩

/-- The double of a sign and of bits whose exponent is neither the least nor the greatest. -/
theorem ofBits_normal (negative : Bool) {bits : Nat} (low : 2 ^ 52 ≤ bits)
    (high : bits < 2047 * 2 ^ 52) :
    field (Float.ofBits (signBit negative + bits).toUInt64) ≠ 2047 ∧
      sign (Float.ofBits (signBit negative + bits).toUInt64) = signOf negative ∧
      Binary.parts (Float.ofBits (signBit negative + bits).toUInt64) =
        (bits % 2 ^ 52 + 2 ^ 52, ((bits / 2 ^ 52 : Nat) : Int) - 1075) := by
  obtain ⟨all, isAll⟩ : ∃ all, all = signBit negative + bits := ⟨_, rfl⟩
  have top : signBit negative = if negative then 2 ^ 63 else 0 := rfl
  have range : all < 2 ^ 64 := by
    rw [isAll, top]
    split <;> omega
  have word : all.toUInt64.toNat = all := Nat.mod_eq_of_lt range
  have exponentBits : all / 2 ^ 52 % 2 ^ 11 = bits / 2 ^ 52 := by
    rw [isAll, top]
    split <;> omega
  have fractionBits : all % 2 ^ 52 = bits % 2 ^ 52 := by
    rw [isAll, top]
    split <;> omega
  obtain ⟨x, isX, packs⟩ := exists_toBits range (by omega)
  have fieldIs : field x = bits / 2 ^ 52 := by rw [field, isX, word, exponentBits]
  have signIs : sign x = signOf negative := by
    rw [sign, Binary.isNegative, isX, word, Binary.twoPow_eq, isAll, top]
    cases negative with
    | false =>
      have first : (0 + bits) / 2 ^ 63 = 0 := by omega
      simp only [Bool.false_eq_true, if_false, first]
      rfl
    | true =>
      have first : (2 ^ 63 + bits) / 2 ^ 63 = 1 := by omega
      simp only [if_true, first]
      rfl
  have partsAre : Binary.parts x =
      (bits % 2 ^ 52 + 2 ^ 52, ((bits / 2 ^ 52 : Nat) : Int) - 1075) := by
    rw [parts_eq, if_neg (by omega), fieldIs, fraction, isX, word, fractionBits]
  have finite : field x ≠ 2047 := by omega
  have positive : 0 < (Binary.parts x).1 := by
    rw [partsAre]
    omega
  obtain ⟨fieldIs, same, signIs'⟩ :=
    packed_finite (s := sign x) positive (canonical_parts x) (exponent_le finite)
  rw [← isAll, packs, unpack_of_field finite, dif_neg positive.ne']
  exact ⟨fieldIs, signIs'.trans signIs, same.trans partsAre⟩

/-- The mantissa and the exponent that a whole number is rounded to, of 53 bits or one carried
over. -/
structure MantissaOf (n mantissa : Nat) (exponent : Int) : Prop where
  place : exponent = n.log2 - 52
  full : 2 ^ 52 ≤ mantissa
  short : mantissa ≤ 2 ^ 53
  value : mantissa * 2 ^ (exponent + 1074).toNat = Binary.roundBits 53 n * 2 ^ unitBits
  quotient : (if 0 ≤ exponent then Binary.divEven n (1 * Binary.twoPow exponent.toNat)
    else Binary.divEven (n * Binary.twoPow (-exponent).toNat) 1) = mantissa

theorem mantissaOf_of_short {n : Nat} (some : 1 ≤ n) (short : n.log2 < 53) :
    MantissaOf n (n * 2 ^ (52 - n.log2)) (n.log2 - 52) := by
  have units := unitBits_eq
  have first : 2 ^ n.log2 ≤ n := Nat.log2_self_le (by omega)
  have below : n < 2 ^ (n.log2 + 1) := Nat.lt_log2_self
  have next : n.log2 + 1 + (52 - n.log2) = 53 := by omega
  have place : 52 - n.log2 + ((n.log2 : Int) - 52 + 1074).toNat = unitBits := by omega
  have exact : Binary.roundBits 53 n = n := by
    refine Binary.roundBits_of_dvd ?_
    rw [Binary.spacing_of_log2_lt short]
    exact Nat.one_dvd n
  refine ⟨rfl, ?_, ?_, ?_, ?_⟩
  · calc 2 ^ 52 = 2 ^ n.log2 * 2 ^ (52 - n.log2) := (pow_mul_pow_sub 2 (by omega)).symm
      _ ≤ n * 2 ^ (52 - n.log2) := Nat.mul_le_mul_right _ first
  · calc n * 2 ^ (52 - n.log2) ≤ 2 ^ (n.log2 + 1) * 2 ^ (52 - n.log2) :=
          Nat.mul_le_mul_right _ below.le
      _ = 2 ^ 53 := by rw [← Nat.pow_add, next]
  · rw [exact, Nat.mul_assoc, ← Nat.pow_add, place]
  · split
    · have last : n.log2 = 52 := by omega
      rw [last]
      simpa [Binary.twoPow_eq] using Binary.divEven_one n
    · have shift : (-((n.log2 : Int) - 52)).toNat = 52 - n.log2 := by omega
      rw [Binary.divEven_one, shift, Binary.twoPow_eq]

/-- The bits after the first 53 are rounded away. -/
theorem mantissaOf_of_long {n : Nat} (long : 53 ≤ n.log2) :
    MantissaOf n (Binary.divEven n (2 ^ (n.log2 - 52))) (n.log2 - 52) := by
  have power := Nat.two_pow_pos (n.log2 - 52)
  have first : 2 ^ n.log2 ≤ n := by
    refine Nat.log2_self_le ?_
    rintro rfl
    exact absurd long (by decide)
  have below : n < 2 ^ (n.log2 + 1) := Nat.lt_log2_self
  have next : 53 + (n.log2 - 52) = n.log2 + 1 := by omega
  have place : ((n.log2 : Int) - 52 + 1074).toNat = n.log2 - 52 + unitBits := by
    have units := unitBits_eq
    omega
  have spacing : Binary.spacing 53 n = 2 ^ (n.log2 - 52) := by
    rw [Binary.spacing]
    congr 1
  refine ⟨rfl, ?_, ?_, ?_, ?_⟩
  · rw [← pow_mul_pow_sub 2 (by omega : 52 ≤ n.log2)] at first
    exact Binary.divEven_mul_right (2 ^ 52) power ▸ Binary.divEven_mono first
  · rw [← next, Nat.pow_add] at below
    exact Binary.divEven_mul_right (2 ^ 53) power ▸ Binary.divEven_mono below.le
  · rw [Binary.roundBits_eq, spacing, place, Nat.pow_add, Nat.mul_assoc]
  · have shift : ((n.log2 : Int) - 52).toNat = n.log2 - 52 := by omega
    rw [if_pos (by omega), Nat.one_mul, shift, Binary.twoPow_eq]

theorem exists_mantissaOf {n : Nat} (some : 1 ≤ n) :
    ∃ mantissa exponent, MantissaOf n mantissa exponent := by
  rcases Nat.lt_or_ge n.log2 53 with short | long
  · exact ⟨_, _, mantissaOf_of_short some short⟩
  · exact ⟨_, _, mantissaOf_of_long long⟩

theorem ofRatio_rounds (negative : Bool) {n : Nat} (some : 1 ≤ n) (within : n.log2 < 1023) :
    field (Binary.ofRatio negative n 1) ≠ 2047 ∧
      sign (Binary.ofRatio negative n 1) = signOf negative ∧
      magnitude (Binary.ofRatio negative n 1) = Binary.roundBits 53 n * 2 ^ unitBits := by
  obtain ⟨mantissa, exponent, isExponent, full, short, value, isMantissa⟩ := exists_mantissaOf some
  have reached : if 0 ≤ (n.log2 : Int) then 1 * Binary.twoPow (n.log2 : Int).toNat ≤ n
      else 1 ≤ n * Binary.twoPow (-(n.log2 : Int)).toNat := by
    rw [if_pos (by omega), Int.toNat_natCast, Nat.one_mul]
    exact Nat.log2_self_le (by omega)
  have one : ((Nat.log2 1 : Nat) : Int) = 0 := rfl
  have top : max ((n.log2 : Int) - 52) (-1074) = exponent := by omega
  have small : (exponent + 1075).toNat * 2 ^ 52 + (mantissa - 2 ^ 52) ≤ 2047 * 2 ^ 52 := by omega
  have same : Binary.ofRatio negative n 1 = Float.ofBits (signBit negative +
      ((exponent + 1075).toNat * 2 ^ 52 + (mantissa - 2 ^ 52))).toUInt64 := by
    unfold Binary.ofRatio
    rw [if_neg (by omega)]
    dsimp only
    have notShort : ¬mantissa < Binary.twoPow 52 := not_lt.mpr full
    rw [one, sub_zero, if_pos reached, top, isMantissa, if_neg notShort]
    simp only [Binary.twoPow_eq]
    rw [min_eq_left small]
    rfl
  have low : 2 ^ 52 ≤ (exponent + 1075).toNat * 2 ^ 52 + (mantissa - 2 ^ 52) := by omega
  obtain ⟨fieldIs, signIs, partsAre⟩ := ofBits_normal negative low (by omega)
  rw [← same] at fieldIs signIs partsAre
  refine ⟨fieldIs, signIs, ?_⟩
  rw [magnitude, partsAre, ← value]
  rcases Nat.lt_or_eq_of_le short with inside | carry
  · have first : ((exponent + 1075).toNat * 2 ^ 52 + (mantissa - 2 ^ 52)) % 2 ^ 52 + 2 ^ 52 =
        mantissa := by omega
    have last : ((((exponent + 1075).toNat * 2 ^ 52 + (mantissa - 2 ^ 52)) / 2 ^ 52 : Nat) : Int) -
        1075 = exponent := by omega
    rw [first, last]
  · have first : ((exponent + 1075).toNat * 2 ^ 52 + (mantissa - 2 ^ 52)) % 2 ^ 52 + 2 ^ 52 =
        2 ^ 52 := by omega
    have last : ((((exponent + 1075).toNat * 2 ^ 52 + (mantissa - 2 ^ 52)) / 2 ^ 52 : Nat) : Int) -
        1075 = exponent + 1 := by omega
    rw [first, last, carry]
    exact carry_mul exponent (by omega)

theorem log2_le_of_le {n : Nat} (short : n ≤ 2 ^ 54) : n.log2 ≤ 54 := by
  rcases Nat.eq_zero_or_pos n with zero | positive
  · simp [zero]
  · have below := (Nat.log2_lt positive.ne' (k := 55)).mpr (by omega)
    omega

theorem roundBits_of_le {n : Nat} (short : n ≤ 2 ^ 53) : Binary.roundBits 53 n = n := by
  rcases Nat.lt_or_eq_of_le short with inside | rfl
  · refine Binary.roundBits_of_dvd ?_
    rw [Binary.spacing_of_log2_lt (by have := log2_le_of_lt inside; omega)]
    exact Nat.one_dvd n
  · decide

theorem ofRatio_whole (negative : Bool) {n : Nat} (some : 1 ≤ n) (short : n ≤ 2 ^ 53) :
    field (Binary.ofRatio negative n 1) ≠ 2047 ∧
      sign (Binary.ofRatio negative n 1) = signOf negative ∧
      magnitude (Binary.ofRatio negative n 1) = n * 2 ^ unitBits := by
  have log := log2_le_of_le (by omega : n ≤ 2 ^ 54)
  have rounded := ofRatio_rounds negative some (by omega)
  rwa [roundBits_of_le short] at rounded

/-! ## Products -/

theorem roundedAt_units {m u k l : Nat} {e : Int} (positive : 0 < m) (same : m * 2 ^ k = u * 2 ^ l)
    (exponent : e + 1074 = k - l) (fine : e ≤ target m e) :
    roundedAt m e .exact * 2 ^ (target m e + 1074).toNat = Binary.roundBits 53 u := by
  have some : 0 < u := by
    by_contra none
    obtain rfl : u = 0 := by omega
    rw [Nat.zero_mul] at same
    have power := Nat.two_pow_pos k
    exact absurd same (Nat.mul_pos positive power).ne'
  have logs : m.log2 + k = u.log2 + l := by
    rw [← log2_mul_two_pow positive, same, log2_mul_two_pow some]
  have spacing : (target m e + 1074).toNat = u.log2 + 1 - 53 := by
    unfold target
    omega
  have least : -1074 ≤ target m e := le_max_right _ _
  -- both roundings drop the same bits, counted from different places
  have steps : (target m e - e).toNat + k = u.log2 + 1 - 53 + l := by omega
  rw [roundedAt_exact, Binary.roundBits_eq, Binary.spacing, spacing,
    ← Binary.divEven_scale m _ (Nat.two_pow_pos k), Nat.mul_comm (2 ^ k) m, same,
    ← Nat.pow_add, Nat.add_comm k, steps, Nat.pow_add, Nat.mul_comm u, Nat.mul_comm (2 ^ _) (2 ^ l),
    Binary.divEven_scale _ _ (Nat.two_pow_pos l)]

/-- The product of two doubles whose exact product is a multiple of the least double is the exact
one rounded to 53 bits, unless that is beyond the doubles. -/
theorem mul_rounded {x y : Float} {n : Nat} (finiteX : field x ≠ 2047) (finiteY : field y ≠ 2047)
    (whole : magnitude x = n * 2 ^ unitBits)
    (within : Binary.roundBits 53 (n * magnitude y) < overflow) :
    field (x * y) ≠ 2047 ∧ sign (x * y) = sign x * sign y ∧
      magnitude (x * y) = Binary.roundBits 53 (n * magnitude y) := by
  have bits := unitBits_eq
  by_cases zero : (Binary.parts x).1 = 0 ∨ (Binary.parts y).1 = 0
  · have none : n * magnitude y = 0 := by
      rcases zero with zeroX | zeroY
      · rw [(magnitude_eq_zero_iff x).mpr zeroX] at whole
        have power := Nat.two_pow_pos unitBits
        rw [(Nat.mul_eq_zero.mp whole.symm).resolve_right power.ne', Nat.zero_mul]
      · rw [(magnitude_eq_zero_iff y).mpr zeroY, Nat.mul_zero]
    obtain ⟨fieldIs, partsAre, signIs⟩ := packed_zero (sign x * sign y)
    rw [mul_zero_eq finiteX finiteY zero, none, magnitude, partsAre, Nat.zero_mul]
    exact ⟨by omega, signIs, rfl⟩
  · have positiveX : 0 < (Binary.parts x).1 := by omega
    have positiveY : 0 < (Binary.parts y).1 := by omega
    have leastX := (canonical_parts x).least
    have leastY := (canonical_parts y).least
    have fine := sum_le_target (canonical_parts x) (canonical_parts y) positiveX positiveY
    have shifted := canonical_shifted fine
    have carry := (roundedAt_le _ _ .exact).trans shifted.short
    -- both mantissas count from the least double, of which the exact product is a multiple
    have same : (Binary.parts x).1 * (Binary.parts y).1 *
        2 ^ (((Binary.parts x).2 + 1074).toNat + ((Binary.parts y).2 + 1074).toNat) =
          n * magnitude y * 2 ^ unitBits := by
      calc _ = magnitude x * magnitude y := by
            rw [magnitude, magnitude, Nat.pow_add]
            ring
        _ = n * magnitude y * 2 ^ unitBits := by
            rw [whole]
            ring
    have rounded := roundedAt_units (Nat.mul_pos positiveX positiveY) same (by omega) fine
    obtain ⟨fieldIs, signIs, magnitudeIs, _⟩ := packed_carried (s := sign x * sign y) carry
      shifted.least (shifted.full.imp_left fun full => full.trans (roundedAt_ge _ _ _))
      (rounded ▸ within)
    rw [mul_eq finiteX finiteY positiveX positiveY]
    exact ⟨fieldIs, signIs, magnitudeIs.trans rounded⟩

end Reckon.Double
