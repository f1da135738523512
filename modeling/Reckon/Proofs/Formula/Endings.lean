import Reckon.Proofs.Formula.Tokens

/-!
Where a token ends.

Whether a token ends before a character depends on that character alone and not on what comes after
it, with one exception: a number without an exponent ends before an `e` only if the digits of an
exponent do not follow. So a row of tokens that has been read stays as it is when the text after the
next character changes.
-/

set_option autoImplicit false

namespace Reckon.Formula

/-! ## The ends of numbers

What may follow a number depends on which parts of it are there. -/

/-- What follows the units of a number: a fraction and an exponent. -/
def afterUnits (cs : List Char) : List Char :=
  Token.fractionPart cs ++ Token.exponentPart (cs.drop (Token.fractionPart cs).length)

theorem numberPart_eq (cs : List Char) :
    Token.numberPart cs =
      cs.takeWhile Text.isAsciiDigit ++ afterUnits (cs.dropWhile Text.isAsciiDigit) := by
  have split : cs.takeWhile Text.isAsciiDigit ++ cs.dropWhile Text.isAsciiDigit = cs :=
    List.takeWhile_append_dropWhile
  have rest : cs.drop (cs.takeWhile Text.isAsciiDigit).length = cs.dropWhile Text.isAsciiDigit :=
    (congrArg (List.drop _) split.symm).trans List.drop_left
  simp only [Token.numberPart, rest, afterUnits, List.append_assoc]

section

variable {units fraction places exponent : List Char} {power : Int}

theorem units_end_iff (areDigits : AreDigits units) (c : Char) (rest : List Char) :
    Token.numberPart (units ++ c :: rest) = units ↔
      Text.isAsciiDigit c = false ∧ c ≠ '.' ∧ Token.exponentPart (c :: rest) = [] := by
  rw [numberPart_eq, List.takeWhile_append_of_pos areDigits, List.dropWhile_append_of_pos areDigits,
    List.append_assoc, List.append_right_eq_self]
  by_cases digit : Text.isAsciiDigit c = true
  · simp [digit]
  by_cases point : c = '.'
  · subst point
    simp [afterUnits, Token.fractionPart, List.dropWhile_cons_of_neg digit]
  · have none : Token.fractionPart (c :: rest) = [] := by simp [Token.fractionPart, point]
    simp [digit, point, afterUnits, none]

theorem fraction_end_iff (areDigits : AreDigits units) (arePlaces : AreDigits places) (c : Char)
    (rest : List Char) :
    Token.numberPart (units ++ '.' :: places ++ c :: rest) = units ++ '.' :: places ↔
      Text.isAsciiDigit c = false ∧ Token.exponentPart (c :: rest) = [] := by
  have point : Stops Text.isAsciiDigit ('.' :: (places ++ c :: rest)) := .cons (by decide)
  rw [List.append_assoc, List.cons_append, numberPart_eq, point.takeWhile areDigits,
    point.dropWhile areDigits, List.append_cancel_left_eq, afterUnits, Token.fractionPart,
    List.takeWhile_append_of_pos arePlaces]
  by_cases digit : Text.isAsciiDigit c = true
  · simp [digit]
  · simp [digit]

theorem exponent_end_iff (areDigits : AreDigits units) (isFraction : Fraction fraction places)
    (isExponent : Exponent exponent power) (present : exponent ≠ []) (c : Char)
    (rest : List Char) :
    Token.numberPart (units ++ fraction ++ exponent ++ c :: rest) = units ++ fraction ++ exponent ↔
      Text.isAsciiDigit c = false := by
  have digits : Stops Text.isAsciiDigit (exponent ++ c :: rest) := by
    intro d first
    rw [List.head?_append_of_ne_nil _ present] at first
    exact isExponent.stops (fun _ => isAsciiDigit_of_isMark) d first
  have point : Stops (· == '.') (exponent ++ c :: rest) := by
    intro d first
    rw [List.head?_append_of_ne_nil _ present] at first
    refine isExponent.stops (p := (· == '.')) ?_ d first
    rintro _ (rfl | rfl) <;> rfl
  have unitsRead : (units ++ (fraction ++ (exponent ++ c :: rest))).takeWhile Text.isAsciiDigit =
      units := ((isFraction.stops rfl).append digits).takeWhile areDigits
  simp only [Token.numberPart, List.append_assoc, unitsRead, List.drop_left,
    fractionPart_append isFraction digits point, exponentPart_extend isExponent present,
    List.append_cancel_left_eq, List.append_right_eq_self]
  by_cases digit : Text.isAsciiDigit c = true
  · simp [digit]
  · simp [digit]

end

def HasNoMark (literal : List Char) : Prop :=
  ∀ c ∈ literal, ¬IsMark c

theorem Fraction.hasNoMark {fraction places : List Char} (h : Fraction fraction places) :
    HasNoMark fraction := by
  cases h with
  | absent => simp [HasNoMark]
  | point arePlaces =>
    refine List.forall_mem_cons.mpr ⟨by simp [IsMark], fun c member mark => ?_⟩
    exact absurd (arePlaces c member) (by simp [isAsciiDigit_of_isMark mark])

/-- Whether a number ends before a character does not depend on what comes after it. -/
theorem numberPart_stable {literal rest : List Char} {value : Float} {c : Char}
    (numeral : Numeral literal value) (ends : Token.numberPart (literal ++ c :: rest) = literal)
    (whole : HasNoMark literal → ¬IsMark c) (rest' : List Char) :
    Token.numberPart (literal ++ c :: rest') = literal := by
  obtain @⟨units, fraction, places, exponent, _, _, areDigits, isFraction, isExponent⟩ := numeral
  by_cases absent : exponent = []
  · subst absent
    have noMark : ¬IsMark c := by
      refine whole fun d member => ?_
      simp only [List.append_nil, List.mem_append] at member
      rcases member with inUnits | inFraction
      · intro mark
        simpa [isAsciiDigit_of_isMark mark] using areDigits d inUnits
      · exact isFraction.hasNoMark d inFraction
    rw [List.append_nil] at ends ⊢
    cases isFraction with
    | absent =>
      rw [List.append_nil] at ends ⊢
      obtain ⟨digit, point, _⟩ := (units_end_iff areDigits c rest).mp ends
      exact (units_end_iff areDigits c rest').mpr ⟨digit, point, exponentPart_eq_nil noMark rest'⟩
    | point arePlaces =>
      obtain ⟨digit, _⟩ := (fraction_end_iff areDigits arePlaces c rest).mp ends
      exact (fraction_end_iff areDigits arePlaces c rest').mpr
        ⟨digit, exponentPart_eq_nil noMark rest'⟩
  · have digit := (exponent_end_iff areDigits isFraction isExponent absent c rest).mp ends
    exact (exponent_end_iff areDigits isFraction isExponent absent c rest').mpr digit

/-! ## Tokens -/

namespace Token

def IsPlain : Token → Prop
  | number literal => HasNoMark literal
  | _ => False

theorem ofFront_stable {t : Token} (formed : t.Formed) {c d : Char} {ds rest : List Char}
    (same : t.chars = d :: ds) (ends : ofFront d (ds ++ c :: rest) = t)
    (whole : t.IsPlain → ¬IsMark c) (rest' : List Char) : ofFront d (ds ++ c :: rest') = t := by
  cases t with
  | number literal =>
    obtain ⟨value, numeral⟩ := formed
    obtain ⟨_, _, rfl, digit⟩ := numeral.eq_cons
    obtain ⟨rfl, rfl⟩ := List.cons.inj same
    simp only [ofFront, digit, if_true, number.injEq, ← List.cons_append] at ends ⊢
    exact numberPart_stable numeral ends whole rest'
  | name letters =>
    obtain @⟨_, _, starts, continues⟩ := formed
    obtain ⟨rfl, rfl⟩ := List.cons.inj same
    simp only [ofFront, isAsciiDigit_of_startsName starts, starts, if_true, Bool.false_eq_true,
      if_false, name.injEq, List.cons.injEq, true_and, List.takeWhile_append_of_pos continues,
      List.append_right_eq_self] at ends ⊢
    by_cases goesOn : continuesName c = true
    · simp [goesOn] at ends
    · simp [goesOn]
  | times =>
    obtain ⟨rfl, rfl⟩ := List.cons.inj same
    by_cases star : c = '*'
    · subst star
      cases ends
    · simp [ofFront, star, Text.isAsciiDigit, startsName, Text.isAsciiLetter]
  | stray _ => exact formed.elim
  | plus | minus | divide | power | opening | closing | comma =>
    obtain ⟨rfl, rfl⟩ := List.cons.inj same
    rfl

end Token

/-! ## Rows of tokens -/

/-- The last token is a number that an exponent may still follow, with no blank after it. -/
def EndsInPlainNumber (ts : List Token) (cs : List Char) : Prop :=
  ∃ t ∈ ts.getLast?, t.IsPlain ∧ t.chars <:+ cs

theorem EndsInPlainNumber.cons {ts : List Token} {cs : List Char} (ends : EndsInPlainNumber ts cs)
    (t : Token) (before : List Char) : EndsInPlainNumber (t :: ts) (before ++ cs) := by
  obtain ⟨last, isLast, plain, within⟩ := ends
  refine ⟨last, ?_, plain, within.trans (List.suffix_append _ _)⟩
  rwa [List.getLast?_cons_of_ne_nil (by rintro rfl; cases isLast)]

theorem Spelling.eq_nil {ts : List Token} (spelling : Spelling ts [])
    (formed : ∀ t ∈ ts, t.Formed) : ts = [] := by
  generalize none : ([] : List Char) = cs at spelling
  cases spelling with
  | done => rfl
  | @token blanks rest t ts _ _ =>
    obtain ⟨c, _, same, _⟩ := Token.chars_eq_cons (formed t (by simp))
    simp [same] at none

/-- Tokens that have been read before a character are read before it whatever comes after it. -/
theorem tokens_append_stable {ts : List Token} {cs : List Char} (spelling : Spelling ts cs)
    (formed : ∀ t ∈ ts, t.Formed) (separable : ts.IsChain fun t u => t.separable u = true)
    {c : Char} {rest : List Char} (read : tokens (cs ++ c :: rest) = ts ++ tokens (c :: rest))
    (whole : EndsInPlainNumber ts cs → ¬IsMark c) (rest' : List Char) :
    tokens (cs ++ c :: rest') = ts ++ tokens (c :: rest') := by
  induction spelling with
  | done areBlanks => exact tokens_blanks areBlanks _
  | @token blanks cs t ts areBlanks spelling ih =>
    obtain ⟨formedFirst, formedRest⟩ := List.forall_mem_cons.mp formed
    obtain ⟨apart, separableRest⟩ := List.isChain_cons.mp separable
    obtain ⟨d, ds, same, _⟩ := Token.chars_eq_cons formedFirst
    simp only [List.append_assoc] at read ⊢
    rw [tokens_chars formedFirst areBlanks same] at read ⊢
    obtain ⟨front, readRest⟩ := List.cons.inj read
    rw [afterFront_of_eq same front] at readRest
    have front' : Token.ofFront d (ds ++ (cs ++ c :: rest')) = t := by
      cases cs with
      | nil =>
        -- nothing stands between the token and the character
        obtain rfl := spelling.eq_nil formedRest
        refine Token.ofFront_stable formedFirst same front (fun plain => whole ?_) rest'
        exact ⟨t, rfl, plain, by simp⟩
      | cons b cs =>
        have ends : t.EndsBefore (b :: cs) := spelling.endsBefore formedRest apart
        exact Token.ofFront_chars formedFirst same ⟨fun word => ends.1 word, fun star => ends.2 star⟩
    have read' := ih formedRest separableRest readRest fun ends => whole (by
      simpa only [List.append_assoc] using ends.cons t (blanks ++ t.chars))
    rw [front', afterFront_of_eq same front', read', List.cons_append]

end Reckon.Formula
