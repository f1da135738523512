import Mathlib.Tactic.Positivity
import Reckon.Proofs.Double.Rounding

/-!
The bits of doubles and what they stand for.

A finite double is a canonical mantissa and exponent with a sign, read from its bits and packed into
them again; an exponent that does not fit gives an infinity.
-/

set_option autoImplicit false

namespace Reckon.Double

open Float.Model Float.Model.UnpackedFloat

/-! ## Fields of the bits -/

theorem toNat_unpackMantissa (b : BitVec Format.binary64.numBits) :
    (unpackMantissa b).toNat = b.toNat % 2 ^ 52 := by
  simp [unpackMantissa]

theorem toNat_unpackExponent (b : BitVec Format.binary64.numBits) :
    (unpackExponent b).toNat = b.toNat / 2 ^ 52 % 2 ^ 11 := by
  simp [unpackExponent, Nat.shiftRight_eq_div_pow]

theorem toNat_unpackSign (b : BitVec Format.binary64.numBits) :
    (unpackSign b).toNat = b.toNat / 2 ^ 63 % 2 := by
  unfold unpackSign
  simp [Nat.shiftRight_eq_div_pow]

theorem toNat_append {w v : Nat} (x : BitVec w) (y : BitVec v) :
    (x ++ y).toNat = x.toNat * 2 ^ v + y.toNat := by
  rw [BitVec.toNat_append, ← Nat.shiftLeft_add_eq_or_of_lt y.isLt, Nat.shiftLeft_eq]

theorem toNat_packComponents (sign : Sign) (exponent : BitVec 11) (mantissa : BitVec 52) :
    (packComponents .binary64 sign exponent mantissa).toNat =
      sign.toBitVec.toNat * 2 ^ 63 + exponent.toNat * 2 ^ 52 + mantissa.toNat := by
  change (sign.toBitVec ++ exponent ++ mantissa).toNat = _
  rw [toNat_append, toNat_append]
  ring

def field (x : Float) : Nat :=
  x.toBits.toNat / 2 ^ 52 % 2 ^ 11

def fraction (x : Float) : Nat :=
  x.toBits.toNat % 2 ^ 52

def sign (x : Float) : Sign :=
  if Binary.isNegative x then .negative else .positive

theorem toBits_toNat_lt (x : Float) : x.toBits.toNat < 2 ^ 64 :=
  x.toBits.toNat_lt

theorem fraction_lt (x : Float) : fraction x < 2 ^ 52 :=
  Nat.mod_lt _ (Nat.two_pow_pos 52)

theorem parts_eq (x : Float) :
    Binary.parts x =
      if field x = 0 then (fraction x, -1074) else (fraction x + 2 ^ 52, (field x : Int) - 1075) :=
  rfl

/-! ## Reading the bits -/

theorem ofBitVec_unpackSign (x : Float) :
    Sign.ofBitVec (@unpackSign .binary64 x.toBits.toBitVec) = sign x := by
  have bit : (@unpackSign .binary64 x.toBits.toBitVec).toNat = x.toBits.toNat / 2 ^ 63 % 2 :=
    toNat_unpackSign _
  have range := toBits_toNat_lt x
  by_cases negative : x.toBits.toNat / 2 ^ 63 = 1
  · have one : @unpackSign .binary64 x.toBits.toBitVec ≠ 0#1 := by
      intro zero
      rw [zero, negative] at bit
      cases bit
    rw [Sign.ofBitVec, if_neg one, sign, Binary.isNegative, Binary.twoPow_eq, negative]
    rfl
  · have zero : @unpackSign .binary64 x.toBits.toBitVec = 0#1 := by
      apply BitVec.eq_of_toNat_eq
      rw [bit]
      change _ = 0
      omega
    have differs : (x.toBits.toNat / 2 ^ 63 == 1) = false := by simpa using negative
    rw [Sign.ofBitVec, if_pos zero, sign, Binary.isNegative, Binary.twoPow_eq, differs]
    rfl

theorem toNat_exponent (x : Float) :
    (@unpackExponent .binary64 x.toBits.toBitVec).toNat = field x :=
  toNat_unpackExponent _

theorem toNat_mantissa (x : Float) :
    (@unpackMantissa .binary64 x.toBits.toBitVec).toNat = fraction x :=
  toNat_unpackMantissa _

theorem exponent_eq_iff (x : Float) (v : BitVec 11) :
    @unpackExponent .binary64 x.toBits.toBitVec = v ↔ field x = v.toNat := by
  rw [← toNat_exponent]
  exact BitVec.toNat_inj.symm

theorem mantissa_eq_zero_iff (x : Float) :
    @unpackMantissa .binary64 x.toBits.toBitVec = 0#52 ↔ fraction x = 0 := by
  rw [← toNat_mantissa]
  exact BitVec.toNat_inj.symm

theorem finite_congr (sign : Sign) {m m' : Nat} {e e' : Int} (positive : 0 < m)
    (positive' : 0 < m') (mantissas : m = m') (exponents : e = e') :
    UnpackedFloat.finite sign m e positive = .finite sign m' e' positive' := by
  subst mantissas exponents
  rfl

/-- A double whose exponent bits are not all set is the number made of its parts. -/
theorem unpack_of_field {x : Float} (ordinary : field x ≠ 2047) :
    x.toModel.unpack =
      if zero : (Binary.parts x).1 = 0 then .zero (sign x)
      else .finite (sign x) (Binary.parts x).1 (Binary.parts x).2 (Nat.pos_of_ne_zero zero) := by
  have notAll : @unpackExponent .binary64 x.toBits.toBitVec ≠ -1#11 := by
    rw [Ne, exponent_eq_iff]
    exact ordinary
  have bias : (Format.binary64.exponentBias : Int) = 1023 := rfl
  change UnpackedFloat.unpack .binary64 x.toBits.toBitVec = _
  unfold UnpackedFloat.unpack
  dsimp only
  rw [if_neg notAll, ofBitVec_unpackSign]
  -- without exponent bits there is no leading bit either
  by_cases low : field x = 0
  · have parts : Binary.parts x = (fraction x, -1074) := by rw [parts_eq, if_pos low]
    rw [if_pos ((exponent_eq_iff x 0#11).mpr low)]
    by_cases none : fraction x = 0
    · rw [dif_pos ((mantissa_eq_zero_iff x).mpr none), dif_pos (by rw [parts, none])]
    · rw [dif_neg (mt (mantissa_eq_zero_iff x).mp none), dif_neg (by rw [parts]; exact none)]
      refine finite_congr _ _ _ ?_ ?_
      · rw [parts, toNat_mantissa]
      · rw [parts, toNat_exponent, low, bias]
        rfl
  · have parts : Binary.parts x = (fraction x + 2 ^ 52, (field x : Int) - 1075) := by
      rw [parts_eq, if_neg low]
    have some : @unpackExponent .binary64 x.toBits.toBitVec ≠ 0#11 := by
      rw [Ne, exponent_eq_iff]
      exact low
    rw [if_neg some, dif_neg (by rw [parts]; exact Nat.ne_of_gt (by positivity))]
    refine finite_congr _ _ _ ?_ ?_
    · rw [parts, toNat_append, toNat_mantissa, Nat.add_comm]
      rfl
    · rw [parts, toNat_exponent, bias]
      rfl

theorem unpack_cases {x : Float} (ordinary : field x ≠ 2047) :
    x.toModel.unpack = .zero (sign x) ∨
      ∃ positive, x.toModel.unpack =
        .finite (sign x) (Binary.parts x).1 (Binary.parts x).2 positive := by
  rw [unpack_of_field ordinary]
  by_cases zero : (Binary.parts x).1 = 0
  · exact .inl (dif_pos zero)
  · exact .inr ⟨Nat.pos_of_ne_zero zero, dif_neg zero⟩

theorem unpack_of_all {x : Float} (all : field x = 2047) :
    x.toModel.unpack = .notANumber ∨ ∃ s, x.toModel.unpack = .infinity s := by
  have set : @unpackExponent .binary64 x.toBits.toBitVec = -1#11 := (exponent_eq_iff x _).mpr all
  change UnpackedFloat.unpack .binary64 x.toBits.toBitVec = _ ∨ ∃ s,
    UnpackedFloat.unpack .binary64 x.toBits.toBitVec = _
  unfold UnpackedFloat.unpack
  dsimp only
  rw [if_pos set]
  by_cases zero : @unpackMantissa .binary64 x.toBits.toBitVec = 0#52
  · exact .inr ⟨_, if_pos zero⟩
  · exact .inl (if_neg zero)

theorem isFinite_iff (x : Float) : x.isFinite = true ↔ field x ≠ 2047 := by
  change x.toModel.unpack.isFinite = true ↔ _
  by_cases all : field x = 2047
  · obtain unpacked | ⟨s, unpacked⟩ := unpack_of_all all <;>
      rw [unpacked] <;> exact ⟨(fun finite => nomatch finite), fun ordinary => absurd all ordinary⟩
  · obtain unpacked | ⟨positive, unpacked⟩ := unpack_cases all <;>
      rw [unpacked] <;> exact ⟨fun _ => all, fun _ => rfl⟩

theorem not_special {x : Float} (finite : x.isFinite = true) :
    x.isNaN = false ∧ x.isInf = false := by
  change x.toModel.unpack.isNaN = false ∧ x.toModel.unpack.isInf = false
  obtain unpacked | ⟨positive, unpacked⟩ := unpack_cases ((isFinite_iff x).mp finite) <;>
    rw [unpacked] <;> exact ⟨rfl, rfl⟩

theorem not_finite_of_all {x : Float} (all : field x = 2047) : x.isFinite = false := by
  have finite := (isFinite_iff x).not
  simpa [all] using finite

theorem canonical_parts (x : Float) : Canonical (Binary.parts x).1 (Binary.parts x).2 := by
  have short := fraction_lt x
  rw [parts_eq]
  split
  · exact ⟨by omega, by omega, .inr rfl⟩
  · exact ⟨by omega, by omega, .inl (by omega)⟩

/-! ## Packing into bits -/

def packed (u : UnpackedFloat) : Float :=
  .ofModel (Float.Model.pack u)

theorem toBits_packed (u : UnpackedFloat) :
    (packed u).toBits.toNat = (UnpackedFloat.pack .binary64 u).toNat := rfl

section

variable {u : UnpackedFloat} {s : Sign} {e : BitVec 11} {m : BitVec 52}
  (components : UnpackedFloat.pack .binary64 u = packComponents .binary64 s e m)

include components

theorem toBits_of_components :
    (packed u).toBits.toNat = s.toBitVec.toNat * 2 ^ 63 + e.toNat * 2 ^ 52 + m.toNat := by
  rw [toBits_packed, components, toNat_packComponents]

theorem field_of_components : field (packed u) = e.toNat := by
  have signBit : s.toBitVec.toNat < 2 := s.toBitVec.isLt
  have exponentBits : e.toNat < 2 ^ 11 := e.isLt
  have mantissaBits : m.toNat < 2 ^ 52 := m.isLt
  rw [field, toBits_of_components components]
  omega

theorem fraction_of_components : fraction (packed u) = m.toNat := by
  have signBit : s.toBitVec.toNat < 2 := s.toBitVec.isLt
  have exponentBits : e.toNat < 2 ^ 11 := e.isLt
  have mantissaBits : m.toNat < 2 ^ 52 := m.isLt
  rw [fraction, toBits_of_components components]
  omega

theorem sign_of_components : sign (packed u) = s := by
  have exponentBits : e.toNat < 2 ^ 11 := e.isLt
  have mantissaBits : m.toNat < 2 ^ 52 := m.isLt
  have bit : (packed u).toBits.toNat / 2 ^ 63 = s.toBitVec.toNat := by
    rw [toBits_of_components components]
    omega
  rw [sign, Binary.isNegative, Binary.twoPow_eq, bit]
  cases s <;> rfl

end

theorem log2_eq_of_full {m : Nat} (full : 2 ^ 52 ≤ m) (short : m < 2 ^ 53) : m.log2 = 52 := by
  have below := log2_le_of_lt short
  have above := (Nat.le_log2 (by omega : m ≠ 0)).mpr full
  omega

theorem pack_finite (s : Sign) {m : Nat} (e : Int) (positive : 0 < m) :
    UnpackedFloat.pack .binary64 (.finite s m e positive) =
      if 2 ^ 11 ≤ (e + 1023 + 52).toNat + 1 then packComponents .binary64 s (-1#11) 0
      else if m.log2 + 1 = 53 then
        packComponents .binary64 s (BitVec.ofNat 11 (e + 1023 + 52).toNat) (BitVec.ofNat 52 m)
      else packComponents .binary64 s 0#11 (BitVec.ofNat 52 m) := rfl

/-- A canonical number whose exponent fits is packed without a loss. -/
theorem packed_finite {s : Sign} {m : Nat} {e : Int} (positive : 0 < m) (canonical : Canonical m e)
    (fits : e ≤ 971) :
    field (packed (.finite s m e positive)) ≠ 2047 ∧
      Binary.parts (packed (.finite s m e positive)) = (m, e) ∧
      sign (packed (.finite s m e positive)) = s := by
  obtain ⟨short, least, full⟩ := canonical
  have room : ¬2 ^ 11 ≤ (e + 1023 + 52).toNat + 1 := by omega
  by_cases normal : 2 ^ 52 ≤ m
  · have log := log2_eq_of_full normal short
    have components : UnpackedFloat.pack .binary64 (.finite s m e positive) =
        packComponents .binary64 s (BitVec.ofNat 11 (e + 1023 + 52).toNat) (BitVec.ofNat 52 m) := by
      rw [pack_finite, if_neg room, if_pos (by rw [log])]
    have fieldIs := field_of_components components
    have fractionIs := fraction_of_components components
    rw [BitVec.toNat_ofNat] at fieldIs fractionIs
    refine ⟨by omega, ?_, sign_of_components components⟩
    rw [parts_eq, if_neg (by omega), fieldIs, fractionIs]
    refine Prod.ext ?_ ?_ <;> dsimp only <;> omega
  · have log : m.log2 < 52 := (Nat.log2_lt (by omega)).mpr (by omega)
    have components : UnpackedFloat.pack .binary64 (.finite s m e positive) =
        packComponents .binary64 s 0#11 (BitVec.ofNat 52 m) := by
      rw [pack_finite, if_neg room, if_neg (by omega)]
    have fieldIs : field (packed (.finite s m e positive)) = 0 := field_of_components components
    have fractionIs := fraction_of_components components
    rw [BitVec.toNat_ofNat] at fractionIs
    refine ⟨by omega, ?_, sign_of_components components⟩
    rw [parts_eq, if_pos fieldIs, fractionIs]
    refine Prod.ext ?_ ?_ <;> dsimp only <;> omega

theorem packed_overflow {s : Sign} {m : Nat} {e : Int} (positive : 0 < m) (large : 972 ≤ e) :
    (packed (.finite s m e positive)).isFinite = false := by
  have components : UnpackedFloat.pack .binary64 (.finite s m e positive) =
      packComponents .binary64 s (-1#11) 0 := by
    have outside : 2 ^ 11 ≤ (e + 1023 + 52).toNat + 1 := by omega
    rw [pack_finite, if_pos outside]
  exact not_finite_of_all (field_of_components components)

theorem packed_zero (s : Sign) :
    field (packed (.zero s)) = 0 ∧ Binary.parts (packed (.zero s)) = (0, -1074) ∧
      sign (packed (.zero s)) = s := by
  have components : UnpackedFloat.pack .binary64 (.zero s) = packComponents .binary64 s 0#11 0#52 :=
    rfl
  have fieldIs : field (packed (.zero s)) = 0 := field_of_components components
  have fractionIs : fraction (packed (.zero s)) = 0 := fraction_of_components components
  refine ⟨fieldIs, ?_, sign_of_components components⟩
  rw [parts_eq, if_pos fieldIs, fractionIs]

theorem packed_infinity (s : Sign) : (packed (.infinity s)).isFinite = false := by
  have components :
      UnpackedFloat.pack .binary64 (.infinity s) = packComponents .binary64 s (-1#11) 0 := rfl
  exact not_finite_of_all (field_of_components components)

theorem packed_notANumber : (packed .notANumber).isFinite = false := by
  have components : UnpackedFloat.pack .binary64 .notANumber =
      packComponents .binary64 .positive (-1#11) (1#52 <<< 51) := rfl
  exact not_finite_of_all (field_of_components components)

end Reckon.Double
