import Mathlib.Data.List.TakeWhile
import Reckon.Proofs.Formula.Grammar

/-!
Tokens as the longest runs and tokens as any cut of a text.

The reader takes the longest token at each place. A cut in which neighbours can be told apart is the
one that it takes, so that for the phrases of the grammar nothing is lost by being greedy.
-/

set_option autoImplicit false

namespace Reckon.Formula

/-! ## Runs of characters -/

/-- The characters do not go on with one that satisfies the test. -/
def Stops (p : Char → Bool) (rest : List Char) : Prop :=
  ∀ c ∈ rest.head?, p c = false

namespace Stops

variable {p q : Char → Bool} {cs rest : List Char}

theorem nil : Stops p [] := by
  simp [Stops]

theorem cons {c : Char} (stop : p c = false) : Stops p (c :: rest) := by
  simpa [Stops] using stop

theorem append (first : Stops p cs) (second : Stops p rest) : Stops p (cs ++ rest) := by
  cases cs with
  | nil => exact second
  | cons c cs => exact cons (first c rfl)

theorem mono (stops : Stops p rest) (weaker : ∀ c, q c = true → p c = true) : Stops q rest := by
  intro c member
  by_contra holds
  have := weaker c (by simpa using holds)
  simp [stops c member] at this

theorem takeWhile_eq_nil (stops : Stops p rest) : rest.takeWhile p = [] := by
  cases rest with
  | nil => rfl
  | cons c rest => simp [stops c rfl]

theorem takeWhile (inside : ∀ c ∈ cs, p c = true) (stops : Stops p rest) :
    (cs ++ rest).takeWhile p = cs := by
  rw [List.takeWhile_append_of_pos inside, stops.takeWhile_eq_nil, List.append_nil]

theorem dropWhile (inside : ∀ c ∈ cs, p c = true) (stops : Stops p rest) :
    (cs ++ rest).dropWhile p = rest := by
  rw [List.dropWhile_append_of_pos inside]
  cases rest with
  | nil => rfl
  | cons c rest => simp [stops c rfl]

end Stops

theorem areDigits_takeWhile (cs : List Char) : AreDigits (cs.takeWhile Text.isAsciiDigit) :=
  fun _ member => List.mem_takeWhile_imp member

/-- Whether a number or a name might go on with the character. -/
def continuesWord (c : Char) : Bool :=
  Token.continuesName c || c == '.'

theorem continuesWord_of_isAsciiDigit {c : Char} (digit : Text.isAsciiDigit c = true) :
    continuesWord c = true := by
  simp [continuesWord, Token.continuesName, digit]

theorem isAsciiDigit_of_isMark {c : Char} (mark : IsMark c) : Text.isAsciiDigit c = false := by
  rcases mark with rfl | rfl <;> rfl

theorem isAsciiDigit_of_startsName {c : Char} (starts : Token.startsName c = true) :
    Text.isAsciiDigit c = false := by
  by_contra digit
  simp only [Token.startsName, Text.isAsciiLetter, Text.isAsciiDigit, Char.le_def,
    UInt32.le_iff_toNat_le, Bool.not_eq_false, Bool.or_eq_true, Bool.and_eq_true,
    decide_eq_true_eq, beq_iff_eq] at starts digit
  have nine : ('9' : Char).val.toNat < 58 := by decide
  rcases starts with (h | h) | rfl
  · exact absurd (le_trans h.1 digit.2) (by decide)
  · exact absurd (le_trans h.1 digit.2) (by decide)
  · exact absurd digit.2 (by decide)

theorem continuesWord_of_isMark {c : Char} (mark : IsMark c) : continuesWord c = true := by
  rcases mark with rfl | rfl <;> rfl

theorem continuesWord_of_isBlank {c : Char} (blank : Text.isBlank c = true) :
    continuesWord c = false := by
  by_contra holds
  simp only [continuesWord, Token.continuesName, Token.startsName, Text.isAsciiLetter,
    Text.isAsciiDigit, Char.le_def, UInt32.le_iff_toNat_le, Bool.not_eq_false, Bool.or_eq_true,
    Bool.and_eq_true, decide_eq_true_eq, beq_iff_eq] at holds
  -- the characters of words lie in a range that holds no blank
  have range : c.val.toNat = 46 ∨ (48 ≤ c.val.toNat ∧ c.val.toNat ≤ 122) := by
    rcases holds with (((h | h) | rfl) | h) | rfl
    · exact .inr ⟨le_trans (by decide) h.1, h.2⟩
    · exact .inr ⟨le_trans (by decide) h.1, le_trans h.2 (by decide)⟩
    · exact .inr (by decide)
    · exact .inr ⟨h.1, le_trans h.2 (by decide)⟩
    · exact .inl rfl
  simp only [Text.isBlank, Char.toNat, Bool.or_eq_true, Bool.and_eq_true, decide_eq_true_eq,
    beq_iff_eq] at blank
  omega

/-! ## Numbers -/

theorem Fraction.stops {p : Char → Bool} {fraction places : List Char}
    (h : Fraction fraction places) (point : p '.' = false) : Stops p fraction := by
  cases h with
  | absent => exact .nil
  | point _ => exact .cons point

theorem Exponent.stops {p : Char → Bool} {exponent : List Char} {value : Int}
    (h : Exponent exponent value) (marks : ∀ c, IsMark c → p c = false) : Stops p exponent := by
  cases h with
  | absent => exact .nil
  | bare mark | plus mark | minus mark => exact .cons (marks _ mark)

theorem someDigits?_extend {digits : List Char} (nonempty : digits ≠ [])
    (areDigits : AreDigits digits) (cs : List Char) :
    Token.someDigits? (digits ++ cs) = some (digits ++ cs.takeWhile Text.isAsciiDigit) := by
  rw [Token.someDigits?, List.takeWhile_append_of_pos areDigits]
  cases digits with
  | nil => contradiction
  | cons d digits => rfl

theorem someDigits?_eq_some {cs digits : List Char} (h : Token.someDigits? cs = some digits) :
    digits ≠ [] ∧ AreDigits digits ∧ digits <+: cs := by
  have same : cs.takeWhile Text.isAsciiDigit = digits ∧ digits ≠ [] := by
    unfold Token.someDigits? at h
    split at h
    · contradiction
    · next nonempty =>
      obtain rfl := Option.some.inj h
      exact ⟨rfl, nonempty⟩
  obtain ⟨rfl, nonempty⟩ := same
  exact ⟨nonempty, areDigits_takeWhile cs, List.takeWhile_prefix _⟩

theorem fractionPart_append {fraction places rest : List Char} (h : Fraction fraction places)
    (digits : Stops Text.isAsciiDigit rest) (point : Stops (· == '.') rest) :
    Token.fractionPart (fraction ++ rest) = fraction := by
  cases h with
  | absent =>
    cases rest with
    | nil => rfl
    | cons c rest =>
      have other : c ≠ '.' := by simpa using point c rfl
      simp [Token.fractionPart, other]
  | point areDigits =>
    simp only [List.cons_append, Token.fractionPart, digits.takeWhile areDigits]

theorem exponentPart_eq_nil {c : Char} (noMark : ¬IsMark c) (rest : List Char) :
    Token.exponentPart (c :: rest) = [] := by
  have other : ¬(c = 'e' ∨ c = 'E') := noMark
  cases rest with
  | nil => rfl
  | cons d rest => simp [Token.exponentPart, other]

theorem exponentPart_extend {exponent : List Char} {value : Int} (h : Exponent exponent value)
    (present : exponent ≠ []) (cs : List Char) :
    Token.exponentPart (exponent ++ cs) = exponent ++ cs.takeWhile Text.isAsciiDigit := by
  cases h with
  | absent => contradiction
  | @bare mark digits isMark nonempty areDigits =>
    obtain ⟨d, digits, rfl⟩ := List.exists_cons_of_ne_nil nonempty
    have digit := areDigits d (by simp)
    have unsigned : ¬(d = '+' ∨ d = '-') := by
      rintro (rfl | rfl) <;> exact absurd digit (by decide)
    have found := someDigits?_extend nonempty areDigits cs
    simp only [List.cons_append] at found
    simp [Token.exponentPart, show mark = 'e' ∨ mark = 'E' from isMark, unsigned, found]
  | @plus mark digits isMark nonempty areDigits | @minus mark digits isMark nonempty areDigits =>
    simp [Token.exponentPart, show mark = 'e' ∨ mark = 'E' from isMark,
      someDigits?_extend nonempty areDigits cs]

theorem exponentPart_append {exponent rest : List Char} {value : Int} (h : Exponent exponent value)
    (stops : Stops continuesWord rest) : Token.exponentPart (exponent ++ rest) = exponent := by
  by_cases present : exponent = []
  · subst present
    cases rest with
    | nil => rfl
    | cons c rest =>
      have noMark : ¬IsMark c := fun mark => by
        simpa [stops c rfl] using continuesWord_of_isMark mark
      exact exponentPart_eq_nil noMark rest
  · have stop := stops.mono fun _ => continuesWord_of_isAsciiDigit
    rw [exponentPart_extend h present, stop.takeWhile_eq_nil, List.append_nil]

theorem numberPart_append {literal rest : List Char} {value : Float} (h : Numeral literal value)
    (stops : Stops continuesWord rest) : Token.numberPart (literal ++ rest) = literal := by
  cases h with
  | @mk units fraction places exponent power _ areDigits isFraction isExponent =>
    -- each part ends where the next one begins, whether or not that one is empty
    have digits : Stops Text.isAsciiDigit (exponent ++ rest) :=
      (isExponent.stops fun _ => isAsciiDigit_of_isMark).append
        (stops.mono fun _ => continuesWord_of_isAsciiDigit)
    have point : Stops (· == '.') (exponent ++ rest) := by
      refine (isExponent.stops ?_).append (stops.mono ?_)
      · rintro c (rfl | rfl) <;> rfl
      · intro c same
        simp [continuesWord, same]
    have unitsRead : (units ++ (fraction ++ (exponent ++ rest))).takeWhile Text.isAsciiDigit =
        units := ((isFraction.stops rfl).append digits).takeWhile areDigits
    simp only [Token.numberPart, List.append_assoc, unitsRead, List.drop_left,
      fractionPart_append isFraction digits point, exponentPart_append isExponent stops]

theorem fraction_append {fraction places exponent : List Char} {power : Int}
    (isFraction : Fraction fraction places) (isExponent : Exponent exponent power) :
    Decimal.fraction (fraction ++ exponent) = (places, exponent) := by
  have digits : Stops Text.isAsciiDigit exponent :=
    isExponent.stops fun _ => isAsciiDigit_of_isMark
  cases isFraction with
  | absent =>
    cases isExponent with
    | absent => rfl
    | bare mark | plus mark | minus mark => rcases mark with rfl | rfl <;> rfl
  | point areDigits =>
    simp only [List.cons_append, Decimal.fraction, Decimal.spanDigits, digits.takeWhile areDigits,
      digits.dropWhile areDigits]

theorem spanDigits_eq_self {digits : List Char} (areDigits : AreDigits digits) :
    Decimal.spanDigits digits = (digits, []) := by
  have takes := Stops.nil.takeWhile areDigits
  have drops := Stops.nil.dropWhile areDigits
  rw [List.append_nil] at takes drops
  rw [Decimal.spanDigits, takes, drops]

theorem exponent?_eq_some {exponent : List Char} {power : Int} (h : Exponent exponent power)
    (present : exponent ≠ []) : Decimal.exponent? exponent = some (power, []) := by
  cases h with
  | absent => contradiction
  | @bare mark digits isMark nonempty areDigits =>
    obtain ⟨d, digits, rfl⟩ := List.exists_cons_of_ne_nil nonempty
    have digit := areDigits d (by simp)
    have unsigned : d ≠ '-' ∧ d ≠ '+' := by
      constructor <;> rintro rfl <;> exact absurd digit (by decide)
    simp [Decimal.exponent?, show mark = 'e' ∨ mark = 'E' from isMark, unsigned,
      spanDigits_eq_self areDigits]
  | @plus mark digits isMark nonempty areDigits | @minus mark digits isMark nonempty areDigits =>
    obtain ⟨d, digits, rfl⟩ := List.exists_cons_of_ne_nil nonempty
    simp [Decimal.exponent?, show mark = 'e' ∨ mark = 'E' from isMark,
      spanDigits_eq_self areDigits]

theorem Numeral.literalValue_eq {literal : List Char} {value : Float} (h : Numeral literal value) :
    Token.literalValue literal = value := by
  cases h with
  | @mk units fraction places exponent power nonempty areDigits isFraction isExponent =>
    have afterUnits : Stops Text.isAsciiDigit (fraction ++ exponent) :=
      (isFraction.stops rfl).append (isExponent.stops fun _ => isAsciiDigit_of_isMark)
    have units_isEmpty : units.isEmpty = false := by simpa using nonempty
    simp only [Token.literalValue, Decimal.unsigned?, Decimal.spanDigits, List.append_assoc,
      afterUnits.takeWhile areDigits, afterUnits.dropWhile areDigits,
      fraction_append isFraction isExponent, units_isEmpty]
    by_cases absent : exponent = []
    · subst absent
      cases isExponent
      simp [Decimal.exponent?]
    · simp [exponent?_eq_some isExponent absent]

theorem Numeral.eq_cons {literal : List Char} {value : Float} (h : Numeral literal value) :
    ∃ d rest, literal = d :: rest ∧ Text.isAsciiDigit d = true := by
  obtain @⟨units, fraction, _, exponent, _, nonempty, areDigits, _, _⟩ := h
  obtain ⟨d, units, rfl⟩ := List.exists_cons_of_ne_nil nonempty
  exact ⟨d, units ++ fraction ++ exponent, rfl, areDigits d (by simp)⟩

theorem fractionPart_sound (cs : List Char) :
    ∃ places, Fraction (Token.fractionPart cs) places := by
  unfold Token.fractionPart
  split
  · exact ⟨_, .point (areDigits_takeWhile _)⟩
  · exact ⟨_, .absent⟩

theorem fractionPart_prefix (cs : List Char) : Token.fractionPart cs <+: cs := by
  unfold Token.fractionPart
  split
  · exact List.cons_prefix_cons.mpr ⟨rfl, List.takeWhile_prefix _⟩
  · exact List.nil_prefix

theorem exponentPart_sound (cs : List Char) :
    ∃ value, Exponent (Token.exponentPart cs) value ∧ Token.exponentPart cs <+: cs := by
  unfold Token.exponentPart
  split
  · next mark sign rest =>
    split_ifs with isMark isSign
    · split
      · next digits found =>
        obtain ⟨nonempty, areDigits, within⟩ := someDigits?_eq_some found
        have read : mark :: sign :: digits <+: mark :: sign :: rest := by simpa using within
        rcases isSign with rfl | rfl
        · exact ⟨_, .plus isMark nonempty areDigits, read⟩
        · exact ⟨_, .minus isMark nonempty areDigits, read⟩
      · exact ⟨_, .absent, List.nil_prefix⟩
    · split
      · next digits found =>
        obtain ⟨nonempty, areDigits, within⟩ := someDigits?_eq_some found
        exact ⟨_, .bare isMark nonempty areDigits, List.cons_prefix_cons.mpr ⟨rfl, within⟩⟩
      · exact ⟨_, .absent, List.nil_prefix⟩
    · exact ⟨_, .absent, List.nil_prefix⟩
  · exact ⟨_, .absent, List.nil_prefix⟩

theorem numberPart_sound {c : Char} (rest : List Char) (digit : Text.isAsciiDigit c = true) :
    ∃ value, Numeral (Token.numberPart (c :: rest)) value := by
  obtain ⟨places, isFraction⟩ :=
    fractionPart_sound ((c :: rest).drop ((c :: rest).takeWhile Text.isAsciiDigit).length)
  obtain ⟨power, isExponent, _⟩ := exponentPart_sound
    (((c :: rest).drop ((c :: rest).takeWhile Text.isAsciiDigit).length).drop
      (Token.fractionPart
        ((c :: rest).drop ((c :: rest).takeWhile Text.isAsciiDigit).length)).length)
  have nonempty : (c :: rest).takeWhile Text.isAsciiDigit ≠ [] := by simp [digit]
  exact ⟨_, .mk nonempty (areDigits_takeWhile _) isFraction isExponent⟩

theorem numberPart_prefix (cs : List Char) : Token.numberPart cs <+: cs := by
  obtain ⟨afterUnits, units⟩ := List.takeWhile_prefix (l := cs) Text.isAsciiDigit
  have dropUnits : (cs.takeWhile Text.isAsciiDigit ++ afterUnits).drop
      (cs.takeWhile Text.isAsciiDigit).length = afterUnits := List.drop_left
  rw [units] at dropUnits
  obtain ⟨afterFraction, fraction⟩ := fractionPart_prefix afterUnits
  have dropFraction : (Token.fractionPart afterUnits ++ afterFraction).drop
      (Token.fractionPart afterUnits).length = afterFraction := List.drop_left
  rw [fraction] at dropFraction
  obtain ⟨_, _, afterExponent, exponent⟩ := exponentPart_sound afterFraction
  refine ⟨afterExponent, ?_⟩
  simp only [Token.numberPart, dropUnits, dropFraction, List.append_assoc, exponent, fraction, units]

/-! ## One token -/

namespace Token

def EndsBefore (t : Token) (rest : List Char) : Prop :=
  (t.isWord = true → Stops continuesWord rest) ∧ (t = times → Stops (· == '*') rest)

theorem chars_eq_cons {t : Token} (formed : t.Formed) :
    ∃ c rest, t.chars = c :: rest ∧ Text.isBlank c = false := by
  cases t with
  | number literal =>
    obtain ⟨value, numeral⟩ := formed
    obtain ⟨d, rest, rfl, digit⟩ := numeral.eq_cons
    have continues := continuesWord_of_isAsciiDigit digit
    refine ⟨d, rest, rfl, ?_⟩
    by_contra blank
    simp [continuesWord_of_isBlank (by simpa using blank)] at continues
  | name letters =>
    obtain @⟨c, rest, starts, _⟩ := formed
    refine ⟨c, rest, rfl, ?_⟩
    by_contra blank
    have ends := continuesWord_of_isBlank (by simpa using blank)
    simp [continuesWord, continuesName, starts] at ends
  | stray c => exact formed.elim
  | _ => exact ⟨_, _, rfl, by decide⟩

theorem ofFront_prefix (c : Char) (rest : List Char) : (ofFront c rest).chars <+: c :: rest := by
  unfold ofFront
  split_ifs with digit starts
  · exact numberPart_prefix _
  · exact List.cons_prefix_cons.mpr ⟨rfl, List.takeWhile_prefix _⟩
  all_goals try subst c
  all_goals try exact List.cons_prefix_cons.mpr ⟨rfl, List.nil_prefix⟩
  split
  · exact ⟨_, rfl⟩
  · exact List.cons_prefix_cons.mpr ⟨rfl, List.nil_prefix⟩

theorem ofFront_formed (c : Char) (rest : List Char) :
    (ofFront c rest).Formed ∨ ofFront c rest = stray c := by
  unfold ofFront
  split_ifs with digit starts
  · exact .inl (numberPart_sound rest digit)
  · exact .inl (.mk starts fun _ member => List.mem_takeWhile_imp member)
  all_goals try exact .inl trivial
  · split <;> exact .inl trivial
  · exact .inr rfl

theorem ofFront_chars_ne_nil (c : Char) (rest : List Char) : (ofFront c rest).chars ≠ [] := by
  obtain formed | isStray := ofFront_formed c rest
  · obtain ⟨_, _, same, _⟩ := chars_eq_cons formed
    simp [same]
  · simp [isStray, chars]

/-- A token is read back from its characters, whatever follows that does not make it longer. -/
theorem ofFront_chars {t : Token} (formed : t.Formed) {c : Char} {rest after : List Char}
    (same : t.chars = c :: rest) (ends : t.EndsBefore after) : ofFront c (rest ++ after) = t := by
  cases t with
  | number literal =>
    obtain ⟨value, numeral⟩ := formed
    obtain ⟨d, _, rfl, digit⟩ := numeral.eq_cons
    obtain ⟨rfl, rfl⟩ := List.cons.inj same
    have read := numberPart_append numeral (ends.1 rfl)
    simp only [ofFront, digit, if_true, ← List.cons_append, read]
  | name letters =>
    obtain @⟨_, _, starts, continues⟩ := formed
    obtain ⟨rfl, rfl⟩ := List.cons.inj same
    have stops : Stops continuesName after :=
      (ends.1 rfl).mono fun c holds => by simp [continuesWord, holds]
    simp [ofFront, isAsciiDigit_of_startsName starts, starts, stops.takeWhile continues]
  | times =>
    obtain ⟨rfl, rfl⟩ := List.cons.inj same
    cases after with
    | nil => rfl
    | cons d after =>
      have other : d ≠ '*' := by simpa using ends.2 rfl d rfl
      simp [ofFront, other, Text.isAsciiDigit, startsName, Text.isAsciiLetter]
  | stray _ => exact formed.elim
  | plus | minus | divide | power | opening | closing | comma =>
    obtain ⟨rfl, rfl⟩ := List.cons.inj same
    rfl

theorem endsBefore_blank (t : Token) {c : Char} {rest : List Char}
    (blank : Text.isBlank c = true) : t.EndsBefore (c :: rest) := by
  refine ⟨fun _ => .cons (continuesWord_of_isBlank blank), fun _ => .cons ?_⟩
  by_contra star
  obtain rfl : c = '*' := by simpa using star
  exact absurd blank (by decide)

theorem endsBefore_chars {t u : Token} (formed : u.Formed) (separable : t.separable u = true)
    (rest : List Char) : t.EndsBefore (u.chars ++ rest) := by
  cases u with
  | number literal =>
    obtain ⟨_, numeral⟩ := formed
    obtain ⟨d, _, rfl, digit⟩ := numeral.eq_cons
    have noWord := not_isWord_of_separable separable rfl
    refine ⟨fun word => by simp [noWord] at word, fun _ => .cons ?_⟩
    by_contra star
    obtain rfl : d = '*' := by simpa using star
    exact absurd digit (by decide)
  | name letters =>
    obtain @⟨c, _, starts, _⟩ := formed
    have noWord := not_isWord_of_separable separable rfl
    refine ⟨fun word => by simp [noWord] at word, fun _ => .cons ?_⟩
    by_contra star
    obtain rfl : c = '*' := by simpa using star
    exact absurd starts (by decide)
  | times | power =>
    refine ⟨fun _ => .cons (by decide), fun isTimes => ?_⟩
    subst isTimes
    exact absurd separable (by decide)
  | stray _ => exact formed.elim
  | plus | minus | divide | opening | closing | comma =>
    exact ⟨fun _ => .cons (by decide), fun _ => .cons (by decide)⟩

end Token

/-! ## Rows of tokens -/

/-- What is left of the characters after their first token. -/
def afterFront (c : Char) (rest : List Char) : List Char :=
  (c :: rest).drop (Token.ofFront c rest).chars.length

theorem length_afterFront (c : Char) (rest : List Char) :
    (afterFront c rest).length ≤ rest.length := by
  have := List.length_pos_iff.mpr (Token.ofFront_chars_ne_nil c rest)
  simp only [afterFront, List.length_drop, List.length_cons]
  omega

theorem chars_append_afterFront (c : Char) (rest : List Char) :
    (Token.ofFront c rest).chars ++ afterFront c rest = c :: rest :=
  List.prefix_iff_eq_append.mp (Token.ofFront_prefix c rest)

def tokens (cs : List Char) : List Token :=
  (lexemes cs).map Lexeme.token

/-- Neither the place where the characters stand nor spare fuel makes a difference to the tokens. -/
theorem map_token_lexemesFrom {fuel fuel' position position' : Nat} {cs : List Char}
    (enough : cs.length ≤ fuel) (enough' : cs.length ≤ fuel') :
    (lexemesFrom fuel position cs).map Lexeme.token =
      (lexemesFrom fuel' position' cs).map Lexeme.token := by
  induction fuel generalizing fuel' position position' cs with
  | zero =>
    obtain rfl := List.eq_nil_of_length_eq_zero (Nat.le_zero.mp enough)
    cases fuel' <;> rfl
  | succ fuel ih =>
    match fuel', cs with
    | 0, [] | _ + 1, [] => rfl
    | fuel' + 1, c :: rest =>
      simp only [List.length_cons, Nat.add_le_add_iff_right] at enough enough'
      have shorter := length_afterFront c rest
      simp only [lexemesFrom]
      split_ifs
      · exact ih enough enough'
      · exact congrArg (List.cons _) (ih (shorter.trans enough) (shorter.trans enough'))

theorem tokens_nil : tokens [] = [] := rfl

theorem tokens_blank {c : Char} {rest : List Char} (blank : Text.isBlank c = true) :
    tokens (c :: rest) = tokens rest := by
  simp only [tokens, lexemes, List.length_cons, lexemesFrom, blank, if_true]
  exact map_token_lexemesFrom le_rfl le_rfl

theorem tokens_front {c : Char} {rest : List Char} (visible : Text.isBlank c = false) :
    tokens (c :: rest) = Token.ofFront c rest :: tokens (afterFront c rest) := by
  simp only [tokens, lexemes, List.length_cons, lexemesFrom, visible]
  exact congrArg (List.cons _) (map_token_lexemesFrom (length_afterFront c rest) le_rfl)

theorem tokens_blanks {blanks : List Char} (areBlanks : AreBlanks blanks) (cs : List Char) :
    tokens (blanks ++ cs) = tokens cs := by
  induction blanks with
  | nil => rfl
  | cons c blanks ih =>
    rw [List.cons_append, tokens_blank (areBlanks c (by simp))]
    exact ih fun d member => areBlanks d (by simp [member])

theorem Spelling.blank {ts : List Token} {c : Char} {cs : List Char}
    (blank : Text.isBlank c = true) (spelling : Spelling ts cs) : Spelling ts (c :: cs) := by
  cases spelling with
  | done areBlanks => exact .done (List.forall_mem_cons.mpr ⟨blank, areBlanks⟩)
  | @token blanks _ _ _ areBlanks rest =>
    have moreBlanks : AreBlanks (c :: blanks) := List.forall_mem_cons.mpr ⟨blank, areBlanks⟩
    exact .token moreBlanks rest

theorem spelling_nil : Spelling [] [] :=
  .done (by simp [AreBlanks])

theorem Spelling.first {ts : List Token} {cs : List Char} (t : Token) (spelling : Spelling ts cs) :
    Spelling (t :: ts) (t.chars ++ cs) :=
  have noBlanks : AreBlanks [] := by simp [AreBlanks]
  .token noBlanks spelling

theorem spelling_tokens (cs : List Char) : Spelling (tokens cs) cs :=
  match cs with
  | [] => spelling_nil
  | c :: rest => by
    by_cases blank : Text.isBlank c = true
    · rw [tokens_blank blank]
      exact (spelling_tokens rest).blank blank
    · rw [tokens_front (by simpa using blank)]
      have spelling := (spelling_tokens (afterFront c rest)).first (Token.ofFront c rest)
      rwa [chars_append_afterFront] at spelling
termination_by cs.length
decreasing_by
  · simp
  · exact Nat.lt_succ_of_le (length_afterFront c rest)

theorem tokens_formed (cs : List Char) : ∀ t ∈ tokens cs, t.Formed ∨ ∃ c, t = .stray c :=
  match cs with
  | [] => by simp [tokens_nil]
  | c :: rest => by
    by_cases blank : Text.isBlank c = true
    · rw [tokens_blank blank]
      exact tokens_formed rest
    · rw [tokens_front (by simpa using blank)]
      refine List.forall_mem_cons.mpr ⟨?_, tokens_formed (afterFront c rest)⟩
      exact (Token.ofFront_formed c rest).imp_right fun isStray => ⟨c, isStray⟩
termination_by cs.length
decreasing_by
  · simp
  · exact Nat.lt_succ_of_le (length_afterFront c rest)

/-- What follows a token in a cut of a text leaves the token as it is. -/
theorem Spelling.endsBefore {t : Token} {ts : List Token} {cs : List Char}
    (spelling : Spelling ts cs) (formed : ∀ u ∈ ts, u.Formed)
    (separable : ∀ u ∈ ts.head?, t.separable u = true) : t.EndsBefore cs := by
  cases spelling with
  | done areBlanks =>
    cases cs with
    | nil => exact ⟨fun _ => .nil, fun _ => .nil⟩
    | cons c blanks => exact t.endsBefore_blank (areBlanks c (by simp))
  | @token blanks rest u us areBlanks _ =>
    cases blanks with
    | nil => exact Token.endsBefore_chars (formed u (by simp)) (separable u rfl) rest
    | cons c blanks => exact t.endsBefore_blank (areBlanks c (by simp))

theorem tokens_chars {t : Token} (formed : t.Formed) {blanks ds : List Char} {d : Char}
    (areBlanks : AreBlanks blanks) (same : t.chars = d :: ds) (cs : List Char) :
    tokens (blanks ++ (t.chars ++ cs)) =
      Token.ofFront d (ds ++ cs) :: tokens (afterFront d (ds ++ cs)) := by
  obtain ⟨_, _, same', visible⟩ := Token.chars_eq_cons formed
  obtain ⟨rfl, rfl⟩ := List.cons.inj (same.symm.trans same')
  rw [tokens_blanks areBlanks, same, List.cons_append, tokens_front visible]

theorem afterFront_of_eq {t : Token} {ds cs : List Char} {d : Char} (same : t.chars = d :: ds)
    (front : Token.ofFront d (ds ++ cs) = t) : afterFront d (ds ++ cs) = cs := by
  rw [afterFront, front, ← List.cons_append, ← same, List.drop_left]

/-- A cut into tokens that can be told apart is the one that the reader takes. -/
theorem tokens_of_spelling {ts : List Token} {cs : List Char} (spelling : Spelling ts cs)
    (formed : ∀ t ∈ ts, t.Formed) (separable : ts.IsChain fun t u => t.separable u = true) :
    tokens cs = ts := by
  induction spelling with
  | @done blanks areBlanks => simpa [tokens_nil] using tokens_blanks areBlanks []
  | @token blanks cs t ts areBlanks spelling ih =>
    obtain ⟨formedFirst, formedRest⟩ := List.forall_mem_cons.mp formed
    obtain ⟨apart, separableRest⟩ := List.isChain_cons.mp separable
    obtain ⟨c, rest, same, _⟩ := Token.chars_eq_cons formedFirst
    have front : Token.ofFront c (rest ++ cs) = t :=
      Token.ofFront_chars formedFirst same (spelling.endsBefore formedRest apart)
    rw [tokens_chars formedFirst areBlanks same, front, afterFront_of_eq same front,
      ih formedRest separableRest]

end Reckon.Formula
