import Mathlib.Data.List.TakeWhile
import Mathlib.Tactic.Ring
import Reckon.Proofs.Decimal.Digits

/-!
Whole numbers are read back from the text that writes them, unless they have too many digits.
-/

set_option autoImplicit false

namespace Reckon.Decimal

theorem exists_digitChar {c : Char} (digit : Text.isAsciiDigit c = true) :
    ∃ k < 10, c = digitChar k := by
  simp only [Text.isAsciiDigit, Bool.and_eq_true, decide_eq_true_eq, Char.le_def,
    UInt32.le_iff_toNat_le] at digit
  have low : 48 ≤ c.toNat := digit.1
  have high : c.toNat ≤ 57 := digit.2
  refine ⟨c.toNat - 48, by omega, ?_⟩
  rw [digitChar, Nat.add_sub_cancel' low, Char.ofNat_toNat]

structure Reads (c : Char) : Prop where
  unpadded : Text.isPadding c = false
  ascii : asciiDigits [c] = [c]
  unsigned : c ≠ '-' ∧ c ≠ '+'
  valued : (radixDigit? 10 c).isSome = true
  whole : c ≠ '_'

theorem reads_of_digit {c : Char} (digit : Text.isAsciiDigit c = true) : Reads c := by
  obtain ⟨k, small, rfl⟩ := exists_digitChar digit
  have each : ∀ k < 10, Text.isPadding (digitChar k) = false ∧
      asciiDigits [digitChar k] = [digitChar k] ∧ (digitChar k ≠ '-' ∧ digitChar k ≠ '+') ∧
      (radixDigit? 10 (digitChar k)).isSome = true ∧ digitChar k ≠ '_' := by decide
  obtain ⟨unpadded, ascii, unsigned, valued, whole⟩ := each k small
  exact ⟨unpadded, ascii, unsigned, valued, whole⟩

section

variable {cs : List Char} (digits : ∀ c ∈ cs, Text.isAsciiDigit c = true)

include digits

theorem dropAround_digits (negative : Bool) :
    Text.dropAround Text.isPadding (if negative then '-' :: cs else cs) =
      if negative then '-' :: cs else cs := by
  have unpadded : ∀ c ∈ if negative then '-' :: cs else cs, Text.isPadding c = false := by
    intro c member
    split at member
    · rcases List.mem_cons.mp member with rfl | later
      · decide
      · exact (reads_of_digit (digits c later)).unpadded
    · exact (reads_of_digit (digits c member)).unpadded
  generalize (if negative then '-' :: cs else cs) = text at unpadded
  have kept {text : List Char} (unpadded : ∀ c ∈ text, Text.isPadding c = false) :
      text.dropWhile Text.isPadding = text := by
    cases text with
    | nil => rfl
    | cons c text => exact List.dropWhile_cons_of_neg (by simp [unpadded c List.mem_cons_self])
  rw [Text.dropAround, kept unpadded, kept (by simpa using unpadded), List.reverse_reverse]

theorem splitSign_digits (negative : Bool) :
    splitSign (asciiDigits (if negative then '-' :: cs else cs)) = (negative, cs) := by
  have same : asciiDigits cs = cs := by
    induction cs with
    | nil => rfl
    | cons c cs ih =>
      obtain ⟨digit, digitsRest⟩ := List.forall_mem_cons.mp digits
      change asciiDigits [c] ++ asciiDigits cs = c :: cs
      rw [(reads_of_digit digit).ascii, ih digitsRest]
      rfl
  cases negative with
  | true =>
    have sign : asciiDigits ('-' :: cs) = '-' :: asciiDigits cs := rfl
    rw [if_pos rfl, sign, same]
    rfl
  | false =>
    rw [if_neg Bool.false_ne_true, same]
    unfold splitSign
    split
    · exact absurd rfl (reads_of_digit (digits '-' List.mem_cons_self)).unsigned.1
    · exact absurd rfl (reads_of_digit (digits '+' List.mem_cons_self)).unsigned.2
    · rfl

theorem separates_digits (some : cs ≠ []) (afterDigit : Bool) : separates afterDigit cs = true := by
  induction cs generalizing afterDigit with
  | nil => exact absurd rfl some
  | cons c cs ih =>
    obtain ⟨digit, digitsRest⟩ := List.forall_mem_cons.mp digits
    rw [separates, if_neg (reads_of_digit digit).whole]
    cases cs with
    | nil => rfl
    | cons d cs => exact ih digitsRest (List.cons_ne_nil d cs) true

/-- Digits after a sign are read, unless there are too many of them. -/
theorem readWhole_digits (some : cs ≠ []) (negative : Bool) :
    readWhole 10 (String.ofList (if negative then '-' :: cs else cs)) =
      if digitLimit < cs.length then .tooLong cs.length
      else .number (if negative then -(radixValue 10 cs : Int) else radixValue 10 cs) := by
  -- numbers in base ten have no mark that could be taken for a digit
  have base : radixMark? 10 = none := rfl
  have noMark : dropRadixMark 10 cs = cs := by
    unfold dropRadixMark
    rw [base]
    split
    · exact if_neg nofun
    · rfl
  have run : cs.takeWhile (fun c => (radixDigit? 10 c).isSome || c == '_') = cs :=
    List.takeWhile_eq_self_iff.mpr fun c member => by
      rw [(reads_of_digit (digits c member)).valued, Bool.true_or]
  have kept : cs.filter (· != '_') = cs := List.filter_eq_self.mpr fun c member => by
    simpa using (reads_of_digit (digits c member)).whole
  unfold readWhole
  rw [String.toList_ofList, dropAround_digits digits, splitSign_digits digits]
  dsimp only
  rw [noMark, run, kept, separates_digits digits some, base,
    if_neg (Nat.lt_irrefl cs.length)]
  simp

end

theorem digits_ne_nil (n : Nat) : digits n ≠ [] := by
  intro none
  obtain rfl : n = 0 := by
    rw [← radixValue_digits n, none]
    rfl
  cases none

/-- A whole number is read back from its text, unless it has too many digits. -/
theorem readWhole_whole (n : Int) :
    readWhole 10 (whole n) =
      if digitLimit < digitCount n.natAbs then .tooLong (digitCount n.natAbs) else .number n := by
  have areDigits : ∀ c ∈ digits n.natAbs, Text.isAsciiDigit c = true := fun c =>
    isAsciiDigit_of_mem_digits
  have signed : whole n = String.ofList
      (if decide (n < 0) then '-' :: digits n.natAbs else digits n.natAbs) := by
    rw [whole]
    by_cases negative : n < 0 <;> simp [negative]
  rw [signed, readWhole_digits areDigits (digits_ne_nil _), radixValue_digits, digitCount]
  congr 1
  by_cases negative : n < 0
  · simp only [negative, decide_true, if_true]
    congr 1
    omega
  · simp only [negative, decide_false]
    congr 1
    simp
    omega

/-! ## How many digits there are -/

theorem foldl_radixDigit_lt (cs : List Char) (n : Nat) :
    cs.foldl (fun n c => 10 * n + (radixDigit? 10 c).getD 0) n < (n + 1) * 10 ^ cs.length := by
  induction cs generalizing n with
  | nil => simp
  | cons c cs ih =>
    have small : (radixDigit? 10 c).getD 0 < 10 := by
      cases digit : radixDigit? 10 c with
      | none => decide
      | some value =>
        rw [radixDigit?, Option.filter_eq_some_iff] at digit
        simpa using digit.2
    calc cs.foldl _ (10 * n + (radixDigit? 10 c).getD 0)
        < (10 * n + (radixDigit? 10 c).getD 0 + 1) * 10 ^ cs.length := ih _
      _ ≤ (10 * (n + 1)) * 10 ^ cs.length := Nat.mul_le_mul_right _ (by omega)
      _ = (n + 1) * 10 ^ (c :: cs).length := by rw [List.length_cons, Nat.pow_succ]; ring

theorem lt_pow_digitCount (n : Nat) : n < 10 ^ digitCount n := by
  have bounded := foldl_radixDigit_lt (digits n) 0
  have value := radixValue_digits n
  rw [radixValue] at value
  rwa [value, Nat.zero_add, Nat.one_mul] at bounded

theorem readWhole_of_le {n : Int} (long : 10 ^ digitLimit ≤ n.natAbs) :
    readWhole 10 (whole n) = .tooLong (digitCount n.natAbs) := by
  have many : 10 ^ digitLimit < 10 ^ digitCount n.natAbs := long.trans_lt (lt_pow_digitCount _)
  rw [readWhole_whole, if_pos ((Nat.pow_lt_pow_iff_right (by decide)).mp many)]

end Reckon.Decimal
