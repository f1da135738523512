import Reckon.Proofs.Decimal.Significant
import Reckon.Proofs.Decimal.Whole
import Reckon.Proofs.Formula.Tokens

/-!
Numerals write the numbers they were made of.

What a numeral writes is known exactly before it is rounded to a double. Read in this way, a fixed
count of places and an exponent both give back the rounded number.
-/

set_option autoImplicit false

namespace Reckon.Decimal

open Formula (AreDigits Fraction Exponent IsMark Stops fraction_append exponent?_eq_some
  isAsciiDigit_of_isMark)

/-! ## Exact reading -/

/-- The mantissa and the exponent of the unsigned numeral at the front of the characters, and what
follows it. -/
def parts? (cs : List Char) : Option (Nat × Int × List Char) :=
  let (units, cs) := spanDigits cs
  let (places, cs) := fraction cs
  if units.isEmpty && places.isEmpty then none
  else
    match exponent? cs with
    | some (exponent, rest) =>
      some (digitsValue (units ++ places), exponent - places.length, rest)
    | none => some (digitsValue (units ++ places), -(places.length : Int), cs)

/-- The number that a text writes with a sign, a point and an exponent. -/
def exactValue? (s : String) : Option Rat :=
  let (negative, body) := splitSign s.toList
  match parts? body with
  | some (mantissa, exponent, []) =>
    let size : Rat := mantissa * 10 ^ exponent
    some (if negative then -size else size)
  | _ => none

theorem parts?_append {units fraction places exponent : List Char} {power : Int}
    (nonempty : units ≠ []) (areDigits : AreDigits units) (isFraction : Fraction fraction places)
    (isExponent : Exponent exponent power) :
    parts? (units ++ fraction ++ exponent) =
      some (digitsValue (units ++ places), power - places.length, []) := by
  have afterUnits : Stops Text.isAsciiDigit (fraction ++ exponent) :=
    (isFraction.stops rfl).append (isExponent.stops fun _ => isAsciiDigit_of_isMark)
  have some : units.isEmpty = false := by simpa using nonempty
  simp only [parts?, spanDigits, List.append_assoc, afterUnits.takeWhile areDigits,
    afterUnits.dropWhile areDigits, fraction_append isFraction isExponent, some]
  by_cases absent : exponent = []
  · subst absent
    cases isExponent
    simp [exponent?]
  · simp [exponent?_eq_some isExponent absent]

theorem exactValue?_signed (negative : Bool) {body : List Char} {mantissa : Nat} {exponent : Int}
    (read : parts? body = some (mantissa, exponent, [])) :
    exactValue? (String.ofList (if negative then '-' :: body else body)) =
      some (if negative then -((mantissa : Rat) * 10 ^ exponent)
        else (mantissa : Rat) * 10 ^ exponent) := by
  -- what reads as a numeral without a sign does not begin with one
  have unsigned : splitSign body = (false, body) := by
    unfold splitSign
    split
    · cases read
    · cases read
    · rfl
  have split : splitSign (if negative then '-' :: body else body) = (negative, body) := by
    cases negative
    · exact unsigned
    · rfl
  rw [exactValue?, String.toList_ofList, split]
  dsimp only
  rw [read]

theorem exactValue?_zero : exactValue? "0" = some 0 := by
  decide +kernel

/-! ## Fixed places -/

theorem digitsValue_zeros (count : Nat) (cs : List Char) :
    digitsValue (List.replicate count '0' ++ cs) = digitsValue cs := by
  induction count with
  | zero => rfl
  | succ count ih => exact ih

theorem areDigits_zeros (count : Nat) : AreDigits (List.replicate count '0') := by
  intro c member
  rw [List.eq_of_mem_replicate member]
  decide

theorem areDigits_digits (n : Nat) : AreDigits (digits n) :=
  fun _ => isAsciiDigit_of_mem_digits

theorem areDigits_append {cs ds : List Char} (first : AreDigits cs) (second : AreDigits ds) :
    AreDigits (cs ++ ds) :=
  fun c member => (List.mem_append.mp member).elim (first c) (second c)

/-- A size in a fixed count of places reads back as it was rounded to them. -/
theorem parts?_fixed (places : Nat) (size : Rat) :
    parts? (fixed places size) =
      some (Binary.divEven (size.num.natAbs * tenPow places) size.den, -(places : Int), []) := by
  unfold fixed
  dsimp only
  generalize Binary.divEven (size.num.natAbs * tenPow places) size.den = scaled
  have areDigits : AreDigits
      (List.replicate (places + 1 - (digits scaled).length) '0' ++ digits scaled) :=
    areDigits_append (areDigits_zeros _) (areDigits_digits scaled)
  have value : digitsValue
      (List.replicate (places + 1 - (digits scaled).length) '0' ++ digits scaled) = scaled := by
    rw [digitsValue_zeros, digitsValue_digits]
  -- the zeros in front leave a digit before the point
  have long : places <
      (List.replicate (places + 1 - (digits scaled).length) '0' ++ digits scaled).length := by
    rw [List.length_append, List.length_replicate]
    omega
  generalize List.replicate (places + 1 - (digits scaled).length) '0' ++ digits scaled = run
    at areDigits value long ⊢
  have units : run.take (run.length - places) ≠ [] := by
    rw [ne_eq, List.take_eq_nil_iff]
    rintro (none | rfl)
    · omega
    · cases long
  have areUnits : AreDigits (run.take (run.length - places)) :=
    fun c member => areDigits c (List.mem_of_mem_take member)
  split
  · next whole =>
    have read := parts?_append units areUnits .absent .absent
    have all : run.take (run.length - places) = run := by
      rw [whole, Nat.sub_zero, List.take_length]
    rw [List.append_nil, List.append_nil, all, value] at read
    rw [all, read, whole]
    rfl
  · have arePlaces : AreDigits (run.drop (run.length - places)) :=
      fun c member => areDigits c (List.mem_of_mem_drop member)
    have read := parts?_append units areUnits (.point arePlaces) .absent
    have count : (run.drop (run.length - places)).length = places := by
      rw [List.length_drop]
      omega
    rw [List.append_nil, List.take_append_drop, value, count] at read
    rw [read, zero_sub]

/-! ## Exponents -/

theorem exponent_written {mark : Char} (isMark : IsMark mark) (power : Int) {digits : List Char}
    (some : digits ≠ []) (areDigits : AreDigits digits)
    (value : digitsValue digits = power.natAbs) :
    Exponent (mark :: (if power < 0 then '-' else '+') :: digits) power := by
  split
  · next negative =>
    have written := Exponent.minus isMark some areDigits
    rwa [value, ← Int.eq_neg_natAbs_of_nonpos negative.le] at written
  · next nonneg =>
    have written := Exponent.plus isMark some areDigits
    rwa [value, Int.natAbs_of_nonneg (not_lt.mp nonneg)] at written

/-- The digits of an exponent, a zero standing before a single one. -/
def exponentDigits (size : Nat) : List Char :=
  if (digits size).length < 2 then '0' :: digits size else digits size

theorem exponentDigits_spec (size : Nat) :
    exponentDigits size ≠ [] ∧ AreDigits (exponentDigits size) ∧
      digitsValue (exponentDigits size) = size := by
  rw [exponentDigits]
  split
  · refine ⟨List.cons_ne_nil _ _, areDigits_append (areDigits_zeros 1) (areDigits_digits _), ?_⟩
    exact (digitsValue_zeros 1 _).trans (digitsValue_digits _)
  · exact ⟨digits_ne_nil _, areDigits_digits _, digitsValue_digits _⟩

/-- A numeral with an exponent reads back as its digits with their place. -/
theorem parts?_exponential {n : Numeral} {mark : Char} (isMark : IsMark mark)
    (some : n.digits ≠ []) (areDigits : AreDigits n.digits) :
    parts? (n.exponential mark) =
      .some (digitsValue n.digits, n.exponent - (n.digits.length - 1 : Nat), []) := by
  obtain ⟨nonempty, areSize, value⟩ := exponentDigits_spec n.exponent.natAbs
  have isExponent := exponent_written isMark n.exponent nonempty areSize value
  obtain ⟨digits, exponent⟩ := n
  cases digits with
  | nil => exact absurd rfl some
  | cons first rest =>
    have isFirst : AreDigits [first] := fun c member =>
      areDigits c (List.mem_cons.mpr (.inl (List.mem_singleton.mp member)))
    cases rest with
    | nil => exact parts?_append (List.cons_ne_nil first []) isFirst .absent isExponent
    | cons second rest =>
      have arePlaces : AreDigits (second :: rest) := fun c member =>
        areDigits c (List.mem_cons_of_mem first member)
      exact parts?_append (List.cons_ne_nil first []) isFirst (.point arePlaces) isExponent

end Reckon.Decimal
