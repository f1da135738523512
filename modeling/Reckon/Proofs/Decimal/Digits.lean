import Mathlib.Algebra.Group.Nat.Defs
import Reckon.Decimal.Rounded
import Reckon.Decimal.Whole

/-!
The digits of a number read back as it, and numerals hold nothing but digits, a point and an
exponent.
-/

set_option autoImplicit false

namespace Reckon.Decimal

theorem radixDigit?_digitChar {n : Nat} (small : n < 10) :
    radixDigit? 10 (digitChar n) = some n := by
  decide +revert

theorem isAsciiDigit_digitChar {n : Nat} (small : n < 10) :
    Text.isAsciiDigit (digitChar n) = true := by
  decide +revert

theorem mem_digitsBefore {fuel n : Nat} {rest : List Char} {c : Char}
    (member : c ∈ digitsBefore fuel n rest) : Text.isAsciiDigit c = true ∨ c ∈ rest := by
  induction fuel generalizing n rest with
  | zero => exact .inr member
  | succ fuel ih =>
    rw [digitsBefore] at member
    split at member
    · next small =>
      rcases List.mem_cons.mp member with rfl | later
      · exact .inl (isAsciiDigit_digitChar small)
      · exact .inr later
    · rcases ih member with digit | later
      · exact .inl digit
      · rcases List.mem_cons.mp later with rfl | later
        · exact .inl (isAsciiDigit_digitChar (Nat.mod_lt n (by decide)))
        · exact .inr later

theorem isAsciiDigit_of_mem_digits {n : Nat} {c : Char} (member : c ∈ digits n) :
    Text.isAsciiDigit c = true :=
  (mem_digitsBefore member).resolve_right List.not_mem_nil

/-- What the digits written so far come to goes on with the digits after them. -/
theorem foldl_digitsBefore {fuel n : Nat} (enough : n < 2 ^ fuel) (rest : List Char) :
    (digitsBefore fuel n rest).foldl (fun n c => 10 * n + (radixDigit? 10 c).getD 0) 0 =
      rest.foldl (fun n c => 10 * n + (radixDigit? 10 c).getD 0) n := by
  induction fuel generalizing n rest with
  | zero =>
    obtain rfl : n = 0 := by simpa using enough
    rfl
  | succ fuel ih =>
    rw [digitsBefore]
    split
    · next small => simp [radixDigit?_digitChar small]
    · have fewer : n / 10 < 2 ^ fuel := by
        rw [Nat.pow_succ] at enough
        omega
      have last : n % 10 < 10 := Nat.mod_lt n (by decide)
      rw [ih fewer, List.foldl_cons, radixDigit?_digitChar last, Option.getD_some, Nat.div_add_mod]

theorem radixValue_digits (n : Nat) : radixValue 10 (digits n) = n :=
  foldl_digitsBefore Nat.lt_log2_self []

theorem digits_injective {m n : Nat} (same : digits m = digits n) : m = n := by
  rw [← radixValue_digits m, same, radixValue_digits]

theorem whole_natCast (n : Nat) : (whole n).toList = digits n := by
  have sign : ¬((n : Int) < 0) := by omega
  rw [whole, if_neg sign, Int.natAbs_natCast, String.toList_ofList]

/-! ## Numerals -/

theorem mem_fixed {places : Nat} {size : Rat} {c : Char} (member : c ∈ fixed places size) :
    Text.isAsciiDigit c = true ∨ c = '.' := by
  -- zeros may stand before the digits, and the point splits the run of both
  have padded {count n : Nat} {d : Char} (inRun : d ∈ List.replicate count '0' ++ digits n) :
      Text.isAsciiDigit d = true := by
    rcases List.mem_append.mp inRun with zero | digit
    · rw [List.eq_of_mem_replicate zero]
      decide
    · exact isAsciiDigit_of_mem_digits digit
  unfold fixed at member
  dsimp only at member
  split at member
  · exact .inl (padded (List.mem_of_mem_take member))
  · rcases List.mem_append.mp member with front | back
    · exact .inl (padded (List.mem_of_mem_take front))
    · rcases List.mem_cons.mp back with point | back
      · exact .inr point
      · exact .inl (padded (List.mem_of_mem_drop back))

theorem isAsciiDigit_of_mem_significant {count : Nat} {size : Rat} {c : Char}
    (member : c ∈ (significant count size).digits) : Text.isAsciiDigit c = true := by
  unfold significant at member
  dsimp only at member
  split at member
  · rw [List.eq_of_mem_replicate member]
    decide
  · -- a carry into a new digit only changes which number's digits they are
    split at member
    all_goals
      split at member <;> exact isAsciiDigit_of_mem_digits member

theorem mem_exponential {mark : Char} {n : Numeral} {c : Char} (member : c ∈ n.exponential mark) :
    c ∈ n.digits ∨ Text.isAsciiDigit c = true ∨ c = '.' ∨ c = mark ∨ c = '-' ∨ c = '+' := by
  unfold Numeral.exponential at member
  dsimp only at member
  rcases List.mem_append.mp member with mantissa | tail
  · split at mantissa
    · cases mantissa
    · next single => exact .inl (single ▸ mantissa)
    · next first rest _ several =>
      rw [several]
      rcases List.mem_cons.mp mantissa with rfl | later
      · exact .inl List.mem_cons_self
      · rcases List.mem_cons.mp later with point | later
        · exact .inr (.inr (.inl point))
        · exact .inl (List.mem_cons_of_mem first later)
  · have zero : Text.isAsciiDigit '0' = true := by decide
    have size {d : Char} : d ∈ digits n.exponent.natAbs → Text.isAsciiDigit d = true :=
      isAsciiDigit_of_mem_digits
    rcases List.mem_cons.mp tail with isMark | tail
    · simp [isMark]
    · rcases List.mem_cons.mp tail with isSign | tail
      · split at isSign <;> simp [isSign]
      · split at tail
        · rcases List.mem_cons.mp tail with rfl | digit
          · exact .inr (.inl zero)
          · exact .inr (.inl (size digit))
        · exact .inr (.inl (size tail))

theorem mem_scientific {mark : Char} {count : Nat} {size : Rat} {c : Char}
    (member : c ∈ scientific mark count size) :
    Text.isAsciiDigit c = true ∨ c = '.' ∨ c = mark ∨ c = '-' ∨ c = '+' := by
  rcases mem_exponential member with digit | other
  · exact .inl (isAsciiDigit_of_mem_significant digit)
  · exact other

end Reckon.Decimal
