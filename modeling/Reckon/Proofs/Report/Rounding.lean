import Reckon.Proofs.Report.Numeral

/-!
Figures show rounded numbers, in the order of the numbers.

A number is written out or with an exponent. Nothing but the count of digits that was asked for
decides which number is read back, so figures of the same count stand in the order of their numbers
whichever layout each of them has. Only one count, the greatest that a layout with an exponent
reads, is an exception: there that layout has a single digit.
-/

set_option autoImplicit false

namespace Reckon

namespace Figure

/-- The powers of ten that a whole threshold leads to for a number. Those below one are computed as
doubles, from an exponent that must be a double, too. -/
def HasPowers (t : Int) (v : Rat) : Prop :=
  0 ≤ t ∧ 10 ^ t ≤ |v| ∨ (Binary.ofInt? (-|t|)).isSome

end Figure

/-! ## Layouts -/

namespace Style

/-- The settings can be read, and ask for a count of digits and for a text after the number. -/
structure Asks (style : Style) (digits : Nat) (suffix : String) : Prop where
  mark : ∃ mark, style.exponentMark = .ok mark
  digits : style.precision = .ok (.whole digits)
  suffix : style.suffixText = .ok suffix
  layout : ∃ layout, style.layoutName = .ok layout
  threshold : style.layoutName = .ok "auto" → ∃ threshold, style.thresholdPower = .ok threshold

inductive Uses (style : Style) (v : Rat) : Bool → Prop where
  | decimal : style.layoutName = .ok "decimal" → Uses style v false
  | scientific {name : String} : style.layoutName = .ok name → name = "scientific" ∨ name = "sci" →
      Uses style v true
  | auto {t : Int} : style.layoutName = .ok "auto" → style.thresholdPower = .ok (.whole t) →
      Figure.HasPowers t v → Uses style v (decide (10 ^ t ≤ |v| ∨ |v| < 10 ^ (-t)))
  | fractional {t : Float} {exponential : Bool} : style.layoutName = .ok "auto" →
      style.thresholdPower = .ok (.fractional t) →
      Figure.usesExponent (.fractional t) v = .ok exponential → Uses style v exponential

/-- The layout `auto` needs a power of ten that is beyond the doubles. -/
inductive Overflows (style : Style) (v : Rat) : Prop where
  | whole {t : Int} : style.layoutName = .ok "auto" → style.thresholdPower = .ok (.whole t) →
      ¬Figure.HasPowers t v → Overflows style v
  | fractional {t : Float} : style.layoutName = .ok "auto" →
      style.thresholdPower = .ok (.fractional t) →
      Figure.usesExponent (.fractional t) v = .error .overflow → Overflows style v

/-- The same layout, and for the layout `auto` the same whole threshold. -/
structure Alike (style style' : Style) : Prop where
  layout : style.layoutName = style'.layoutName
  threshold : style.layoutName = .ok "auto" → ∃ t : Int,
    style.thresholdPower = .ok (.whole t) ∧ style'.thresholdPower = .ok (.whole t)

theorem mem_numberFormats {style : Style} {layout : String}
    (isLayout : style.layoutName = .ok layout) : layout ∈ numberFormats := by
  unfold layoutName at isLayout
  split at isLayout
  · cases isLayout
    decide
  · split at isLayout
    · next known =>
      cases isLayout
      exact List.contains_iff_mem.mp known
    · cases isLayout
  · cases isLayout

section

variable {style : Style} {v : Rat} {exponential : Bool}

theorem layoutName_inj {layout name : String} (isLayout : style.layoutName = .ok layout)
    (isName : style.layoutName = .ok name) : layout = name :=
  Except.ok.inj (isLayout.symm.trans isName)

theorem Uses.exists_layout (uses : style.Uses v exponential) :
    ∃ layout, style.layoutName = .ok layout := by
  cases uses with
  | decimal isLayout => exact ⟨_, isLayout⟩
  | scientific isLayout _ => exact ⟨_, isLayout⟩
  | auto isLayout _ _ => exact ⟨_, isLayout⟩
  | fractional isLayout _ _ => exact ⟨_, isLayout⟩

theorem Uses.eq_of_not_auto {layout : String} (isLayout : style.layoutName = .ok layout)
    (other : layout ≠ "auto") (uses : style.Uses v exponential) :
    exponential = (layout != "decimal") := by
  cases uses with
  | decimal isName =>
    obtain rfl := layoutName_inj isLayout isName
    rfl
  | scientific isName either =>
    obtain rfl := layoutName_inj isLayout isName
    rcases either with rfl | rfl <;> rfl
  | auto isName _ _ => exact absurd (layoutName_inj isLayout isName) other
  | fractional isName _ _ => exact absurd (layoutName_inj isLayout isName) other

theorem Uses.eq_of_whole {t : Int} (isAuto : style.layoutName = .ok "auto")
    (isThreshold : style.thresholdPower = .ok (.whole t)) (uses : style.Uses v exponential) :
    exponential = decide (10 ^ t ≤ |v| ∨ |v| < 10 ^ (-t)) := by
  cases uses with
  | decimal isName => exact absurd (layoutName_inj isAuto isName) (by decide)
  | scientific isName either =>
    obtain rfl := layoutName_inj isAuto isName
    exact absurd either (by decide)
  | auto _ isPower _ =>
    rw [isThreshold] at isPower
    cases isPower
    rfl
  | fractional _ isPower _ =>
    rw [isThreshold] at isPower
    cases isPower

end

theorem Asks.one_le {style : Style} {digits : Nat} {suffix : String}
    (asks : style.Asks digits suffix) : 1 ≤ digits := by
  have isPrecision := asks.digits
  unfold precision at isPrecision
  split at isPrecision
  · cases isPrecision
    decide
  · split at isPrecision
    · cases isPrecision
    · cases isPrecision
      omega
  · split at isPrecision
    · cases isPrecision
      decide
    · cases isPrecision
  · split at isPrecision <;> cases isPrecision
  · cases isPrecision

end Style

namespace Figure

open Decimal

/-! ## Thresholds -/

theorem tenPower_exact (e : Int) : Scalar.tenPower e = 10 ^ e := by
  rw [← Scalar.tenPow_div_tenPow, Scalar.tenPower]
  split
  · next whole =>
    have one : (-e).toNat = 0 := by omega
    rw [one]
    simp [tenPow]
  · next fraction =>
    have one : e.toNat = 0 := by omega
    rw [one, Rat.mkRat_eq_div]
    simp [tenPow]

theorem checkExponent_of_nonneg {t : Int} (nonneg : 0 ≤ t) : checkExponent t = .ok () :=
  if_neg fun both => not_lt.mpr nonneg both.1

theorem checkExponent_of_beyond {t : Int} (negative : t < 0)
    (beyond : ¬(Binary.ofInt? t).isSome = true) : checkExponent t = .error .overflow := by
  rw [Bool.not_eq_true, Option.isSome_eq_false_iff] at beyond
  exact if_pos ⟨negative, beyond⟩

theorem usesExponent_eq (t : Int) (v : Rat) :
    usesExponent (.whole t) v = (checkExponent t).bind fun _ =>
      if 10 ^ t ≤ |v| then .ok true
      else (checkExponent (-t)).bind fun _ => .ok (decide (|v| < 10 ^ (-t))) := by
  have reaches (e : Int) : Scalar.reaches e v = decide (10 ^ e ≤ |v|) := by
    rw [← tenPower_exact, ← Scalar.abs_exact]
    rfl
  simp only [usesExponent, reaches, decide_eq_true_eq, ← decide_not, not_le]
  rfl

/-- A whole threshold is compared with, if its powers of ten can be computed. -/
theorem usesExponent_whole (t : Int) (v : Rat) :
    (HasPowers t v →
      usesExponent (.whole t) v = .ok (decide (10 ^ t ≤ |v| ∨ |v| < 10 ^ (-t)))) ∧
    (¬HasPowers t v → usesExponent (.whole t) v = .error .overflow) := by
  have compared (first : checkExponent t = .ok ())
      (second : ¬10 ^ t ≤ |v| → checkExponent (-t) = .ok ()) :
      usesExponent (.whole t) v = .ok (decide (10 ^ t ≤ |v| ∨ |v| < 10 ^ (-t))) := by
    rw [usesExponent_eq, first]
    by_cases reached : 10 ^ t ≤ |v|
    · simp [Except.bind, reached]
    · simp [Except.bind, reached, second reached]
  rw [HasPowers]
  rcases lt_or_ge t 0 with negative | nonneg
  · rw [abs_of_neg negative, neg_neg]
    refine ⟨fun powers => ?_, fun none => ?_⟩
    · have double := powers.resolve_left fun both => not_lt.mpr both.1 negative
      exact compared (checkExponent_of_double double) fun _ =>
        checkExponent_of_nonneg (neg_nonneg.mpr negative.le)
    · rw [usesExponent_eq, checkExponent_of_beyond negative fun double => none (.inr double)]
      rfl
  · rw [abs_of_nonneg nonneg]
    refine ⟨fun powers => ?_, fun none => ?_⟩
    · refine compared (checkExponent_of_nonneg nonneg) fun below => ?_
      exact checkExponent_of_double (powers.resolve_left fun both => below both.2)
    · -- the inverse of one is one, so the threshold is not zero
      have positive : 0 < t := by
        refine nonneg.lt_of_ne ?_
        rintro rfl
        exact none (.inr (by decide +kernel))
      have below : ¬10 ^ t ≤ |v| := fun reached => none (.inl ⟨nonneg, reached⟩)
      rw [usesExponent_eq, checkExponent_of_nonneg nonneg,
        checkExponent_of_beyond (neg_neg_of_pos positive) fun double => none (.inr double)]
      simp only [Except.bind, if_neg below]

theorem realPower_failsFor (t : Float) : FailsFor (· = .overflow) (realPower t) := by
  unfold realPower
  dsimp only
  split
  · exact .error rfl
  · exact .ok _

theorem usesExponent_failsFor (t : Float) (v : Rat) :
    FailsFor (· = .overflow) (usesExponent (.fractional t) v) := by
  refine (realPower_failsFor t).bind fun bound _ => ?_
  split
  · exact .ok _
  · exact (realPower_failsFor (-t)).bind fun _ _ => .ok _

/-- Settings that can be read lead to a layout, or to a power of ten beyond the doubles. -/
theorem uses_or_overflows {style : Style} {digits : Nat} {suffix : String}
    (asks : style.Asks digits suffix) (v : Rat) :
    style.Uses v false ∨ style.Uses v true ∨ style.Overflows v := by
  have either {exponential : Bool} (uses : style.Uses v exponential) :
      style.Uses v false ∨ style.Uses v true ∨ style.Overflows v := by
    cases exponential with
    | false => exact .inl uses
    | true => exact .inr (.inl uses)
  obtain ⟨layout, isLayout⟩ := asks.layout
  have known := Style.mem_numberFormats isLayout
  by_cases isAuto : layout = "auto"
  · subst isAuto
    obtain ⟨threshold, isThreshold⟩ := asks.threshold isLayout
    cases threshold with
    | whole t =>
      by_cases powers : HasPowers t v
      · exact either (.auto isLayout isThreshold powers)
      · exact .inr (.inr (.whole isLayout isThreshold powers))
    | fractional t =>
      cases chosen : usesExponent (.fractional t) v with
      | ok exponential => exact either (.fractional isLayout isThreshold chosen)
      | error failure =>
        rw [usesExponent_failsFor t v failure chosen] at chosen
        exact .inr (.inr (.fractional isLayout isThreshold chosen))
  · simp only [numberFormats, List.mem_cons, List.not_mem_nil, or_false, isAuto, false_or] at known
    rcases known with rfl | other
    · exact either (.decimal isLayout)
    · exact either (.scientific isLayout other)

/-! ## Numerals -/

def inLayout (exponential : Bool) (mark : Char) (digits : Nat) (v : Rat) :
    Except Failure String :=
  if exponential then scientific mark (.whole digits) v else inPlaces (.whole digits) v

def shownCount (exponential : Bool) (digits : Nat) : Nat :=
  if exponential ∧ digits = placeLimit + 1 then 1 else digits

theorem shownCount_false (digits : Nat) : shownCount false digits = digits :=
  if_neg fun both => Bool.false_ne_true both.1

/-- Whether a layout has room for the digits of a number in the decade. -/
def Fits (exponential : Bool) (digits : Nat) (e : Int) : Prop :=
  if exponential then digits ≤ placeLimit + 1 else ((digits : Int) - 1 - e).natAbs ≤ placeLimit

theorem fits_false_iff {digits : Nat} {e : Int} :
    Fits false digits e ↔ ((digits : Int) - 1 - e).natAbs ≤ placeLimit := by
  simp only [Fits, Bool.false_eq_true, if_false]

theorem fits_true_iff {digits : Nat} {e : Int} : Fits true digits e ↔ digits ≤ placeLimit + 1 := by
  simp only [Fits, if_true]

/-- A text follows a numeral that reads back as the number. -/
def Reads (result : Except Failure String) (suffix : String) (r : Rat) : Prop :=
  ∃ number, result = .ok (number ++ suffix) ∧ exactValue? number = some r

section

variable {digits : Nat} {v : Rat} {exponential : Bool} {mark : Char}

theorem one_le_shownCount (exponential : Bool) (some : 1 ≤ digits) :
    1 ≤ shownCount exponential digits := by
  unfold shownCount
  split
  · exact le_rfl
  · exact some

theorem ordinary_of_uses {style : Style} {layout : String}
    (isLayout : style.layoutName = .ok layout) (uses : style.Uses v exponential) :
    ordinary style layout mark (.whole digits) v = inLayout exponential mark digits v := by
  have auto {threshold : Threshold} (isAuto : style.layoutName = .ok "auto")
      (isThreshold : style.thresholdPower = .ok threshold)
      (chosen : usesExponent threshold v = .ok exponential) :
      ordinary style layout mark (.whole digits) v = inLayout exponential mark digits v := by
    obtain rfl := Style.layoutName_inj isLayout isAuto
    simp only [ordinary, if_true, isThreshold]
    change Except.bind (usesExponent _ v) _ = _
    rw [chosen]
    rfl
  cases uses with
  | decimal isName =>
    obtain rfl := Style.layoutName_inj isLayout isName
    rfl
  | scientific isName other =>
    obtain rfl := Style.layoutName_inj isLayout isName
    rcases other with rfl | rfl <;> rfl
  | auto isName isThreshold powers =>
    exact auto isName isThreshold ((usesExponent_whole _ v).1 powers)
  | fractional isName isThreshold chosen => exact auto isName isThreshold chosen

theorem ordinary_of_overflows {style : Style} {layout : String} {precision : Precision}
    (isLayout : style.layoutName = .ok layout) (overflows : style.Overflows v) :
    ordinary style layout mark precision v = .error .overflow := by
  have auto {threshold : Threshold} (isAuto : style.layoutName = .ok "auto")
      (isThreshold : style.thresholdPower = .ok threshold)
      (fails : usesExponent threshold v = .error .overflow) :
      ordinary style layout mark precision v = .error .overflow := by
    obtain rfl := Style.layoutName_inj isLayout isAuto
    simp only [ordinary, if_true, isThreshold]
    change Except.bind (usesExponent _ v) _ = _
    rw [fails]
    rfl
  cases overflows with
  | whole isName isThreshold none => exact auto isName isThreshold ((usesExponent_whole _ v).2 none)
  | fractional isName isThreshold fails => exact auto isName isThreshold fails

theorem inLayout_of_fits (isMark : mark = 'e' ∨ mark = 'E') (some : 1 ≤ digits) (nonzero : v ≠ 0)
    (fits : Fits exponential digits (Int.log 10 |v|)) :
    ∃ number, inLayout exponential mark digits v = .ok number ∧
      exactValue? number = .some (shown (shownCount exponential digits) v) := by
  cases exponential with
  | true =>
    have few := fits_true_iff.mp fits
    refine ⟨withExponent mark (shownCount true digits) v, ?_,
      exactValue?_withExponent nonzero isMark (one_le_shownCount true some)⟩
    simp only [inLayout, if_true, scientific, digitTrouble?_eq_none few, shownCount, true_and]
  | false =>
    have few := fits_false_iff.mp fits
    refine ⟨writtenOut digits v, ?_, exactValue?_writtenOut nonzero⟩
    simp only [inLayout, Bool.false_eq_true, if_false, inPlaces, decade_eq_log_abs nonzero]
    rw [if_neg (by omega)]

theorem inLayout_of_places (nonzero : v ≠ 0)
    (many : placeLimit < ((digits : Int) - 1 - Int.log 10 |v|).natAbs) :
    inLayout false mark digits v = .error .overflow := by
  simp only [inLayout, Bool.false_eq_true, if_false, inPlaces, decade_eq_log_abs nonzero]
  rw [if_pos many]

theorem inLayout_of_digits (many : placeLimit + 1 < digits) :
    ∃ reason, digitTrouble? digits = some reason ∧
      inLayout true mark digits v = .error (.unsuitable reason) := by
  obtain ⟨reason, trouble⟩ := exists_digitTrouble many
  refine ⟨reason, trouble, ?_⟩
  simp only [inLayout, if_true, scientific, trouble]

end

/-! ## Figures -/

/-- What comes of a number in the decade from `10 ^ e` on, which is rounded to `r`, when it is
written out. -/
structure WritesOut (digits : Nat) (e : Int) (r : Rat) (suffix : String)
    (result : Except Failure String) : Prop where
  reads : ((digits : Int) - 1 - e).natAbs ≤ placeLimit → Reads result suffix r
  overflow : placeLimit < ((digits : Int) - 1 - e).natAbs → result = .error .overflow

/-- What comes of a number in the decade from `10 ^ e` on, which is rounded to `r`, when it has an
exponent. -/
structure WritesExponent (digits : Nat) (e : Int) (v r : Rat) (suffix : String)
    (result : Except Failure String) : Prop where
  reads : digits ≤ placeLimit → Reads result suffix r
  /-- The greatest count of places that is read leaves a single digit. -/
  single : digits = placeLimit + 1 → ∃ s, RoundsTo (10 ^ e) v s ∧ Reads result suffix s
  refused : placeLimit + 1 < digits →
    ∃ reason, digitTrouble? digits = some reason ∧ result = .error (.unsuitable reason)

section

variable {f : Figure Rat} {outer : Style} {digits : Nat} {suffix : String} {v : Rat}
  (asks : (f.style.within outer).Asks digits suffix) (isValue : f.value = some v)

include asks isValue

/-- The number of a figure comes from its layout, and what follows it from the settings. -/
theorem exists_text_eq (nonzero : v ≠ 0) :
    ∃ layout mark, (f.style.within outer).layoutName = .ok layout ∧ (mark = 'e' ∨ mark = 'E') ∧
      f.text outer = (ordinary (f.style.within outer) layout mark (.whole digits) v).bind
        fun number => .ok (number ++ suffix) := by
  obtain ⟨mark, isMark⟩ := asks.mark
  obtain ⟨layout, isLayout⟩ := asks.layout
  refine ⟨layout, mark, isLayout, Style.exponentMark_eq isMark, ?_⟩
  have some : ¬Scalar.isZero v = true := mt (Scalar.isZero_exact v).mp nonzero
  unfold text
  simp only [isMark, asks.digits, asks.suffix, isValue, isLayout]
  change (if Scalar.isZero v = true then _ else do
    let number ← ordinary (f.style.within outer) layout mark (.whole digits) v
    return number ++ suffix) = _
  rw [if_neg some]
  rfl

theorem text_of_zero (zero : v = 0) : f.text outer = .ok ("0" ++ suffix) := by
  subst zero
  obtain ⟨mark, isMark⟩ := asks.mark
  obtain ⟨layout, isLayout⟩ := asks.layout
  unfold text
  simp only [isMark, asks.digits, asks.suffix, isValue, isLayout]
  rfl

section

variable (nonzero : v ≠ 0)

include nonzero

theorem exists_text_of_uses {exponential : Bool}
    (uses : (f.style.within outer).Uses v exponential) : ∃ mark, (mark = 'e' ∨ mark = 'E') ∧
      f.text outer =
        (inLayout exponential mark digits v).bind fun number => .ok (number ++ suffix) := by
  obtain ⟨layout, mark, isLayout, isMark, written⟩ := exists_text_eq asks isValue nonzero
  rw [ordinary_of_uses isLayout uses] at written
  exact ⟨mark, isMark, written⟩

theorem text_of_overflows (overflows : (f.style.within outer).Overflows v) :
    f.text outer = .error .overflow := by
  obtain ⟨layout, mark, isLayout, _, written⟩ := exists_text_eq asks isValue nonzero
  rw [ordinary_of_overflows isLayout overflows] at written
  exact written

/-- In a layout that the settings lead to, a figure is written if there is room for its digits. -/
theorem reads_of_fits {exponential : Bool} (uses : (f.style.within outer).Uses v exponential)
    (fits : Fits exponential digits (Int.log 10 |v|)) :
    Reads (f.text outer) suffix (shown (shownCount exponential digits) v) := by
  obtain ⟨mark, isMark, written⟩ := exists_text_of_uses asks isValue nonzero uses
  obtain ⟨number, isNumber, value⟩ := inLayout_of_fits isMark asks.one_le nonzero fits
  rw [isNumber] at written
  exact ⟨number, written, value⟩

end

theorem text_writesOut (nonzero : v ≠ 0) (uses : (f.style.within outer).Uses v false) :
    WritesOut digits (Int.log 10 |v|) (shown digits v) suffix (f.text outer) := by
  refine ⟨fun few => ?_, fun many => ?_⟩
  · have reads := reads_of_fits asks isValue nonzero uses (fits_false_iff.mpr few)
    rwa [shownCount_false] at reads
  · obtain ⟨mark, _, written⟩ := exists_text_of_uses asks isValue nonzero uses
    rw [inLayout_of_places nonzero many] at written
    exact written

theorem text_writesExponent (nonzero : v ≠ 0) (uses : (f.style.within outer).Uses v true) :
    WritesExponent digits (Int.log 10 |v|) v (shown digits v) suffix (f.text outer) := by
  have reads (few : digits ≤ placeLimit + 1) :
      Reads (f.text outer) suffix (shown (shownCount true digits) v) :=
    reads_of_fits asks isValue nonzero uses (fits_true_iff.mpr few)
  refine ⟨fun few => ?_, fun last => ?_, fun many => ?_⟩
  · have all := reads (by omega)
    rwa [shownCount, if_neg (by omega)] at all
  · have one := reads last.le
    rw [shownCount, if_pos ⟨rfl, last⟩] at one
    have rounded := roundsTo_shown 1 v
    rw [Nat.cast_one, sub_add_cancel] at rounded
    exact ⟨_, rounded, one⟩
  · obtain ⟨mark, _, written⟩ := exists_text_of_uses asks isValue nonzero uses
    obtain ⟨reason, trouble, refused⟩ := @inLayout_of_digits _ v mark many
    rw [refused] at written
    exact ⟨reason, trouble, written⟩

/-- Whatever is written shows the number, with as many digits as its layout has. -/
theorem exists_shown_of_text {text : String} (written : f.text outer = .ok text) :
    ∃ number r, text = number ++ suffix ∧ exactValue? number = some r ∧
      (v = 0 ∧ r = 0 ∨ ∃ exponential, (f.style.within outer).Uses v exponential ∧
        Shown (shownCount exponential digits) v r) := by
  by_cases zero : v = 0
  · rw [text_of_zero asks isValue zero] at written
    exact ⟨"0", 0, (Except.ok.inj written).symm, exactValue?_zero, .inl ⟨zero, rfl⟩⟩
  · have shows {exponential : Bool} (uses : (f.style.within outer).Uses v exponential)
        (reads : Reads (f.text outer) suffix (shown (shownCount exponential digits) v)) :
        ∃ number r, text = number ++ suffix ∧ exactValue? number = some r ∧
          (v = 0 ∧ r = 0 ∨ ∃ exponential, (f.style.within outer).Uses v exponential ∧
            Shown (shownCount exponential digits) v r) := by
      obtain ⟨number, isText, value⟩ := reads
      rw [written] at isText
      exact ⟨number, _, Except.ok.inj isText, value, .inr ⟨_, uses, shown_spec zero⟩⟩
    -- a text was written, so none of the failures has happened
    rcases uses_or_overflows asks v with uses | uses | overflows
    · refine shows uses (reads_of_fits asks isValue zero uses (fits_false_iff.mpr ?_))
      by_contra many
      rw [(text_writesOut asks isValue zero uses).overflow (not_le.mp many)] at written
      cases written
    · refine shows uses (reads_of_fits asks isValue zero uses (fits_true_iff.mpr ?_))
      by_contra many
      obtain ⟨_, _, refused⟩ :=
        (text_writesExponent asks isValue zero uses).refused (not_le.mp many)
      rw [refused] at written
      cases written
    · rw [text_of_overflows asks isValue zero overflows] at written
      cases written

end

/-! ## Order -/

section

variable {style style' : Style} {digits : Nat} {v w r s : Rat} {exponential exponential' : Bool}

/-- Of two numbers that a whole threshold treats differently, zero or a power of ten lies between. -/
theorem exists_between {t : Int} (le : v ≤ w)
    (differ : ¬((10 : Rat) ^ t ≤ |v| ∨ |v| < 10 ^ (-t) ↔ (10 : Rat) ^ t ≤ |w| ∨ |w| < 10 ^ (-t))) :
    ∃ p : Rat, v ≤ p ∧ p ≤ w ∧ ∀ count, 1 ≤ count → Shown count p p := by
  rcases le_or_gt v 0 with nonpos | positive
  · rcases le_or_gt 0 w with nonneg | negative
    · exact ⟨0, nonpos, nonneg, fun _ _ => .zero⟩
    · rw [abs_of_nonpos nonpos, abs_of_neg negative] at differ
      by_cases upper : (10 : Rat) ^ t ≤ -v ∧ -w < 10 ^ t
      · exact ⟨-10 ^ t, by linarith, by linarith, fun _ some => (Shown.of_pow some t).neg⟩
      · have lower : 10 ^ (-t) ≤ -v ∧ -w < 10 ^ (-t) := by grind
        exact ⟨-10 ^ (-t), by linarith, by linarith, fun _ some => (Shown.of_pow some (-t)).neg⟩
  · rw [abs_of_pos positive, abs_of_pos (positive.trans_le le)] at differ
    by_cases upper : v < (10 : Rat) ^ t ∧ 10 ^ t ≤ w
    · exact ⟨10 ^ t, upper.1.le, upper.2, fun _ some => .of_pow some t⟩
    · have lower : v < 10 ^ (-t) ∧ 10 ^ (-t) ≤ w := by grind
      exact ⟨10 ^ (-t), lower.1.le, lower.2, fun _ some => .of_pow some (-t)⟩

/-- Numbers are shown in order, unless one has a single digit for the count of its digits and the
other, in another layout, has all of them. -/
theorem shown_mono (some : 1 ≤ digits) (alike : digits = placeLimit + 1 → style.Alike style')
    (uses : style.Uses v exponential) (uses' : style'.Uses w exponential')
    (shown : Shown (shownCount exponential digits) v r)
    (shown' : Shown (shownCount exponential' digits) w s) (le : v ≤ w) : r ≤ s := by
  by_cases same : shownCount exponential digits = shownCount exponential' digits
  · rw [← same] at shown'
    exact shown.mono (one_le_shownCount _ some) shown' le
  · have differ : exponential ≠ exponential' := fun equal => same (by rw [equal])
    have last : digits = placeLimit + 1 := by
      by_contra other
      simp only [shownCount, other, and_false, if_false, not_true] at same
    obtain ⟨layouts, thresholds⟩ := alike last
    obtain ⟨layout, isLayout⟩ := uses.exists_layout
    by_cases isAuto : layout = "auto"
    · subst isAuto
      obtain ⟨t, isThreshold, isThreshold'⟩ := thresholds isLayout
      rw [uses.eq_of_whole isLayout isThreshold,
        uses'.eq_of_whole (layouts ▸ isLayout) isThreshold'] at differ
      rw [Ne, decide_eq_decide] at differ
      obtain ⟨p, below, above, fixed⟩ := exists_between le differ
      exact shown.le_of_between (one_le_shownCount _ some) (one_le_shownCount _ some) shown'
        (fixed _ (one_le_shownCount _ some)) (fixed _ (one_le_shownCount _ some)) below above
    · refine absurd ?_ differ
      rw [uses.eq_of_not_auto isLayout isAuto, uses'.eq_of_not_auto (layouts ▸ isLayout) isAuto]

end

/-! ## All figures -/

def inStyle (name : String) : Style :=
  { Style.empty with layout := some (.text name) }

theorem asks_inStyle {name : String} (known : (Style.empty.within (inStyle name)).layoutName =
    .ok name) : (Style.empty.within (inStyle name)).Asks 4 "" :=
  ⟨⟨'e', rfl⟩, rfl, rfl, ⟨name, known⟩, fun _ => ⟨.whole 6, rfl⟩⟩

end Figure

end Reckon
