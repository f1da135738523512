import Reckon.Proofs.Decimal.Digits
import Reckon.Proofs.Failing
import Reckon.Report.Figure

/-!
The text of a figure: a numeral or the name of a special number, and what follows it.

With valid settings every figure has one, whatever its number is.
-/

set_option autoImplicit false

namespace Reckon

theorem Style.exponentMark_eq {style : Style} {mark : Char}
    (marked : style.exponentMark = .ok mark) :
    mark = 'e' ∨ mark = 'E' := by
  have either (b : Bool) : (if b then 'e' else 'E') = 'e' ∨ (if b then 'e' else 'E') = 'E' := by
    cases b <;> simp
  unfold exponentMark at marked
  cases set : style.lowercase with
  | none =>
    rw [set] at marked
    cases marked
    exact .inl rfl
  | some v =>
    rw [set] at marked
    obtain ⟨small, _, same⟩ := bind_eq_ok.mp marked
    exact Except.ok.inj same ▸ either small

theorem Binary.bracket_not_mem_special {x : Float} {name : String}
    (special : special? x = some name) : '[' ∉ name.toList := by
  unfold special? at special
  split at special
  · cases special
    decide
  · split at special
    · cases special
      split <;> decide
    · cases special

namespace Figure

variable {x : Float}

theorem bracket_not_mem_signed {size : List Char} (free : '[' ∉ size) : '[' ∉ signed x size := by
  unfold signed
  split
  · simp [free]
  · exact free

theorem bracket_not_mem_writtenOut (digits : Nat) : '[' ∉ (writtenOut digits x).toList := by
  unfold writtenOut
  dsimp only
  split
  · next name special => exact Binary.bracket_not_mem_special special
  · rw [String.toList_ofList]
    refine bracket_not_mem_signed fun member => ?_
    exact absurd (Decimal.mem_fixed member) (by decide)

theorem bracket_not_mem_withExponent {mark : Char} (isMark : mark = 'e' ∨ mark = 'E')
    (digits : Nat) : '[' ∉ (withExponent mark digits x).toList := by
  rw [withExponent, String.toList_ofList]
  refine bracket_not_mem_signed fun member => ?_
  rcases isMark with rfl | rfl <;> exact absurd (Decimal.mem_scientific member) (by decide)

theorem bracket_not_mem_inPlaces {precision : Precision} {number : String}
    (written : inPlaces precision x = .ok number) : '[' ∉ number.toList := by
  unfold inPlaces at written
  split at written
  · next digits =>
    split at written
    · cases written
    · cases written
      exact bracket_not_mem_writtenOut digits
  · cases written

theorem bracket_not_mem_scientific {mark : Char} (isMark : mark = 'e' ∨ mark = 'E')
    {precision : Precision} {number : String}
    (written : scientific mark precision x = .ok number) : '[' ∉ number.toList := by
  unfold scientific at written
  split at written
  · split at written
    · cases written
    · cases written
      exact bracket_not_mem_withExponent isMark _
  · cases written

theorem bracket_not_mem_ordinary {style : Style} {layout : String} {mark : Char}
    (isMark : mark = 'e' ∨ mark = 'E') {precision : Precision} {number : String}
    (written : ordinary style layout mark precision x = .ok number) : '[' ∉ number.toList := by
  have either (exponential : Bool)
      (chosen : (if exponential then scientific mark precision x else inPlaces precision x) =
        .ok number) : '[' ∉ number.toList := by
    cases exponential
    · exact bracket_not_mem_inPlaces chosen
    · exact bracket_not_mem_scientific isMark chosen
  unfold ordinary at written
  split at written
  · obtain ⟨threshold, _, written⟩ := bind_eq_ok.mp written
    obtain ⟨exponential, _, chosen⟩ := bind_eq_ok.mp written
    exact either exponential chosen
  · exact either _ written

/-- A bracket in the text of a figure stands in what follows the number. -/
theorem bracket_not_mem_text {f : Figure Float} {outer : Style} {text : String}
    (written : f.text outer = .ok text)
    (free : ∀ suffix, (f.style.within outer).suffixText = .ok suffix → '[' ∉ suffix.toList) :
    '[' ∉ text.toList := by
  -- the number is written first, in one of four ways
  have followed {number : Except Failure String}
      (plain : ∀ s, number = .ok s → '[' ∉ s.toList)
      (written : (do return (← number) ++ (← (f.style.within outer).suffixText)) = .ok text) :
      '[' ∉ text.toList := by
    obtain ⟨s, isNumber, written⟩ := bind_eq_ok.mp written
    obtain ⟨suffix, isSuffix, same⟩ := bind_eq_ok.mp written
    obtain rfl : s ++ suffix = text := Except.ok.inj same
    simpa using ⟨plain s isNumber, free suffix isSuffix⟩
  obtain ⟨mark, marked, written⟩ := bind_eq_ok.mp written
  obtain ⟨layout, _, written⟩ := bind_eq_ok.mp written
  obtain ⟨precision, _, written⟩ := bind_eq_ok.mp written
  dsimp only at written
  split at written
  · refine @followed (.ok "nan") ?_ written
    rintro s ⟨⟩
    decide
  · split at written
    · next name special =>
      refine @followed (.ok name) ?_ written
      rintro s ⟨⟩
      exact Binary.bracket_not_mem_special special
    · split at written
      · refine @followed (.ok "0") ?_ written
        rintro s ⟨⟩
        decide
      · exact followed (fun s isNumber =>
          bracket_not_mem_ordinary (Style.exponentMark_eq marked) isNumber) written

end Figure

/-! ## Valid settings -/

namespace Scalar

theorem natAbs_doubleDecade_le (x : Float) : (doubleDecade x).natAbs ≤ decadeLimit := by
  unfold doubleDecade
  omega

end Scalar

namespace Style

/-- Each setting is open or of its kind: a whole number of digits, one at least and no more than
there is room for in a double of any size, the name of a layout, a whole threshold within the
doubles, a truth value and a text. -/
structure Valid (style : Style) : Prop where
  digits : ∀ v ∈ style.digits, ∃ n : Nat, v = .int n ∧ 1 ≤ n ∧
    n + Scalar.decadeLimit < Figure.placeLimit
  layout : ∀ v ∈ style.layout, ∃ name, v = .text name ∧ Text.toSmall name ∈ numberFormats
  threshold : ∀ v ∈ style.threshold, ∃ n, v = .int n ∧ (Binary.ofInt? n).isSome ∧
    (Binary.ofInt? (-n)).isSome
  lowercase : ∀ v ∈ style.lowercase, ∃ b, v = .bool b
  suffix : ∀ v ∈ style.suffix, ∃ s, v = .text s

namespace Valid

variable {style : Style}

theorem empty : Style.empty.Valid := by
  constructor <;> simp [Style.empty]

theorem within_empty (valid : style.Valid) : (style.within .empty).Valid := by
  have same : style.within .empty = style := by simp [within, Style.empty]
  rwa [same]

theorem exists_precision (valid : style.Valid) : ∃ digits, style.precision = .ok (.whole digits) ∧
    digits + Scalar.decadeLimit < Figure.placeLimit := by
  cases set : style.digits with
  | none => exact ⟨4, by rw [precision, set], by decide⟩
  | some v =>
    obtain ⟨n, rfl, one, room⟩ := valid.digits v set
    have enough : ¬(n : Int) < 1 := by omega
    exact ⟨n, by simp only [precision, set, if_neg enough, Int.toNat_natCast], room⟩

theorem exists_layoutName (valid : style.Valid) : ∃ layout, style.layoutName = .ok layout := by
  cases set : style.layout with
  | none => exact ⟨"auto", by rw [layoutName, set]⟩
  | some v =>
    obtain ⟨name, rfl, known⟩ := valid.layout v set
    have isKnown : numberFormats.contains (Text.toSmall name) = true :=
      List.contains_iff_mem.mpr known
    exact ⟨Text.toSmall name, by simp only [layoutName, set, isKnown, if_true]⟩

theorem exists_thresholdPower (valid : style.Valid) :
    ∃ n, style.thresholdPower = .ok (.whole n) ∧ (Binary.ofInt? n).isSome ∧
      (Binary.ofInt? (-n)).isSome := by
  cases set : style.threshold with
  | none => exact ⟨6, by rw [thresholdPower, set], by decide +kernel, by decide +kernel⟩
  | some v =>
    obtain ⟨n, rfl, double, inverse⟩ := valid.threshold v set
    exact ⟨n, by rw [thresholdPower, set], double, inverse⟩

theorem exists_exponentMark (valid : style.Valid) : ∃ mark, style.exponentMark = .ok mark := by
  cases set : style.lowercase with
  | none => exact ⟨'e', by rw [exponentMark, set]; rfl⟩
  | some v =>
    obtain ⟨b, rfl⟩ := valid.lowercase v set
    exact ⟨if b then 'e' else 'E', by rw [exponentMark, set]; rfl⟩

theorem exists_suffixText (valid : style.Valid) : ∃ suffix, style.suffixText = .ok suffix := by
  cases set : style.suffix with
  | none => exact ⟨"", by rw [suffixText, set]⟩
  | some v =>
    obtain ⟨s, rfl⟩ := valid.suffix v set
    exact ⟨s, by rw [suffixText, set]⟩

end Valid

end Style

namespace Figure

theorem checkExponent_of_double {exponent : Int} (double : (Binary.ofInt? exponent).isSome) :
    checkExponent exponent = .ok () := by
  rw [checkExponent, if_neg]
  simp [Option.isNone_eq_false_iff.mpr double]

theorem usesExponent_of_double {R : Type} [Scalar R] {exponent : Int}
    (double : (Binary.ofInt? exponent).isSome) (inverse : (Binary.ofInt? (-exponent)).isSome)
    (x : R) : usesExponent (.whole exponent) x =
      .ok (Scalar.reaches exponent x || !Scalar.reaches (-exponent) x) := by
  simp only [usesExponent, checkExponent_of_double double, checkExponent_of_double inverse]
  cases Scalar.reaches exponent x <;> rfl

theorem placeLimit_lt_unwritten : placeLimit + 1 < Decimal.unwritten := by
  decide +kernel

theorem digitTrouble?_eq_none {digits : Nat} (few : digits ≤ placeLimit + 1) :
    digitTrouble? digits = none := by
  have places : placeLimit + 1 = 2 ^ 31 := rfl
  have counter : Binary.twoPow 63 = 2 ^ 63 := rfl
  have written := placeLimit_lt_unwritten
  rw [digitTrouble?, if_neg (by omega), if_neg (by omega), if_neg (by omega)]

theorem exists_digitTrouble {digits : Nat} (many : placeLimit + 1 < digits) :
    ∃ reason, digitTrouble? digits = some reason := by
  unfold digitTrouble?
  split
  · exact ⟨_, rfl⟩
  · split <;> exact ⟨_, rfl⟩

section

variable {digits : Nat} (room : digits + Scalar.decadeLimit < placeLimit)

include room

theorem exists_inPlaces (x : Float) : ∃ text, inPlaces (.whole digits) x = .ok text := by
  have decade : (Scalar.decade x).natAbs ≤ Scalar.decadeLimit := Scalar.natAbs_doubleDecade_le x
  rw [inPlaces, if_neg (by omega)]
  exact ⟨_, rfl⟩

theorem exists_scientific (mark : Char) (x : Float) :
    ∃ text, scientific mark (.whole digits) x = .ok text := by
  rw [scientific, digitTrouble?_eq_none (by omega)]
  exact ⟨_, rfl⟩

theorem exists_ordinary {style : Style} (valid : style.Valid) (layout : String) (mark : Char)
    (x : Float) : ∃ number, ordinary style layout mark (.whole digits) x = .ok number := by
  have either (exponential : Bool) : ∃ number,
      (if exponential then scientific mark (.whole digits) x else inPlaces (.whole digits) x) =
        .ok number := by
    cases exponential with
    | true => exact exists_scientific room mark x
    | false => exact exists_inPlaces room x
  obtain ⟨threshold, isThreshold, double, inverse⟩ := valid.exists_thresholdPower
  unfold ordinary
  split
  · simp only [isThreshold, usesExponent_of_double double inverse, bind, Except.bind]
    exact either _
  · exact either (layout != "decimal")

end

theorem exists_text_of_valid {figure : Figure Float} {outer : Style}
    (valid : (figure.style.within outer).Valid) : ∃ text, figure.text outer = .ok text := by
  obtain ⟨mark, isMark⟩ := valid.exists_exponentMark
  obtain ⟨layout, isLayout⟩ := valid.exists_layoutName
  obtain ⟨digits, isPrecision, room⟩ := valid.exists_precision
  obtain ⟨suffix, isSuffix⟩ := valid.exists_suffixText
  -- in whichever way the number is written, the suffix follows it
  have followed {number : Except Failure String} (isNumber : ∃ s, number = .ok s) :
      ∃ text, (do return (← number) ++ (← (figure.style.within outer).suffixText)) =
        Except.ok (ε := Failure) text := by
    obtain ⟨s, isNumber⟩ := isNumber
    rw [isNumber, isSuffix]
    exact ⟨s ++ suffix, rfl⟩
  simp only [text, isMark, isLayout, isPrecision, bind, Except.bind]
  cases figure.value with
  | none => exact @followed (.ok "nan") ⟨_, rfl⟩
  | some x =>
    dsimp only
    cases Scalar.special? x with
    | some name => exact @followed (.ok name) ⟨_, rfl⟩
    | none =>
      dsimp only
      split
      · exact @followed (.ok "0") ⟨_, rfl⟩
      · exact followed (exists_ordinary room valid layout mark x)

theorem exists_text {figure : Figure Float} (plain : figure.style = .empty) :
    ∃ text, figure.text .empty = .ok text := by
  refine exists_text_of_valid ?_
  rw [plain]
  exact .empty

end Figure

end Reckon
