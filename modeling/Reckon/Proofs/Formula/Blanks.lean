import Reckon.Proofs.Formula.Parsing
import Reckon.Proofs.Text.Trim

/-!
Blanks around a formula.

No token holds a blank, so the blanks at the ends of a formula belong to none. A formula that is
trimmed has the tokens that it had before and writes the same expression.
-/

set_option autoImplicit false

namespace Reckon.Formula

/-! ## No token holds a blank -/

def AreVisible (cs : List Char) : Prop :=
  ∀ c ∈ cs, Text.isBlank c = false

theorem visible_of_continuesWord {c : Char} (continues : continuesWord c = true) :
    Text.isBlank c = false := by
  by_contra blank
  simp [continuesWord_of_isBlank (by simpa using blank)] at continues

theorem AreVisible.append {cs ds : List Char} (first : AreVisible cs) (second : AreVisible ds) :
    AreVisible (cs ++ ds) :=
  List.forall_mem_append.mpr ⟨first, second⟩

theorem AreDigits.visible {cs : List Char} (areDigits : AreDigits cs) : AreVisible cs :=
  fun c member => visible_of_continuesWord (continuesWord_of_isAsciiDigit (areDigits c member))

theorem Fraction.visible {fraction places : List Char} (isFraction : Fraction fraction places) :
    AreVisible fraction := by
  cases isFraction with
  | absent => simp [AreVisible]
  | point arePlaces => exact List.forall_mem_cons.mpr ⟨by decide, arePlaces.visible⟩

theorem Exponent.visible {exponent : List Char} {value : Int}
    (isExponent : Exponent exponent value) : AreVisible exponent := by
  have visibleMark {c : Char} (mark : IsMark c) : Text.isBlank c = false :=
    visible_of_continuesWord (continuesWord_of_isMark mark)
  cases isExponent with
  | absent => simp [AreVisible]
  | bare mark _ areDigits => exact List.forall_mem_cons.mpr ⟨visibleMark mark, areDigits.visible⟩
  | plus mark _ areDigits | minus mark _ areDigits =>
    refine List.forall_mem_cons.mpr ⟨visibleMark mark, ?_⟩
    exact List.forall_mem_cons.mpr ⟨by decide, areDigits.visible⟩

theorem Numeral.visible {literal : List Char} {value : Float} (numeral : Numeral literal value) :
    AreVisible literal := by
  obtain @⟨_, _, _, _, _, _, areDigits, isFraction, isExponent⟩ := numeral
  exact (areDigits.visible.append isFraction.visible).append isExponent.visible

theorem Identifier.visible {letters : List Char} (identifier : Identifier letters) :
    AreVisible letters := by
  have visibleLetter {c : Char} (continues : Token.continuesName c = true) :
      Text.isBlank c = false := visible_of_continuesWord (by simp [continuesWord, continues])
  obtain @⟨c, rest, starts, continues⟩ := identifier
  refine List.forall_mem_cons.mpr ⟨visibleLetter (by simp [Token.continuesName, starts]), ?_⟩
  exact fun d member => visibleLetter (continues d member)

theorem Token.Formed.visible {t : Token} (formed : t.Formed) : AreVisible t.chars := by
  cases t with
  | number literal =>
    obtain ⟨_, numeral⟩ := formed
    exact numeral.visible
  | name letters => exact Identifier.visible formed
  | stray _ => exact formed.elim
  | plus | minus | times | divide | power | opening | closing | comma =>
    simp only [AreVisible, Token.chars, List.mem_cons, List.not_mem_nil, or_false, or_self,
      forall_eq]
    decide

/-! ## Texts cut into tokens -/

theorem Spelling.blanks {ts : List Token} {blanks cs : List Char} (areBlanks : AreBlanks blanks)
    (spelling : Spelling ts cs) : Spelling ts (blanks ++ cs) := by
  induction blanks with
  | nil => exact spelling
  | cons c blanks ih =>
    obtain ⟨blank, areBlanks⟩ := List.forall_mem_cons.mp areBlanks
    exact (ih areBlanks).blank blank

theorem Spelling.append {ts us : List Token} {cs ds : List Char} (first : Spelling ts cs)
    (second : Spelling us ds) : Spelling (ts ++ us) (cs ++ ds) := by
  induction first with
  | done areBlanks => exact second.blanks areBlanks
  | token areBlanks _ ih => simpa using Spelling.token areBlanks ih

theorem spelling_chars (ts : List Token) : Spelling ts (ts.flatMap Token.chars) := by
  induction ts with
  | nil => exact spelling_nil
  | cons t ts ih => exact ih.first t

theorem Spelling.last {ts : List Token} {cs : List Char} (spelling : Spelling ts cs) (t : Token) :
    Spelling (ts ++ [t]) (cs ++ t.chars) := by
  simpa using spelling.append (spelling_chars [t])

theorem Spelling.concat {ts : List Token} {t : Token} {cs : List Char}
    (spelling : Spelling (ts ++ [t]) cs) :
    ∃ before blanks, cs = before ++ (t.chars ++ blanks) ∧ Spelling ts before ∧
      AreBlanks blanks := by
  induction ts generalizing cs with
  | nil =>
    obtain _ | ⟨areBlanks, rest⟩ := spelling
    obtain ⟨areBlanks'⟩ := rest
    exact ⟨_, _, rfl, .done areBlanks, areBlanks'⟩
  | cons u ts ih =>
    obtain _ | ⟨areBlanks, rest⟩ := spelling
    obtain ⟨before, blanks, rfl, spelling, areBlanks'⟩ := ih rest
    exact ⟨_, blanks, by simp only [List.append_assoc], .token areBlanks spelling, areBlanks'⟩

theorem Spelling.dropFront {ts : List Token} {cs : List Char} (spelling : Spelling ts cs)
    (formed : ∀ t ∈ ts, t.Formed) : ∃ blanks core, cs = blanks ++ core ∧ AreBlanks blanks ∧
      Spelling ts core ∧ ∀ c ∈ core.head?, Text.isBlank c = false := by
  cases spelling with
  | done areBlanks => exact ⟨cs, [], by simp, areBlanks, spelling_nil, by simp⟩
  | @token blanks rest t ts areBlanks spelling =>
    obtain ⟨c, ds, same, visible⟩ := Token.chars_eq_cons (formed t List.mem_cons_self)
    have first : ∀ d ∈ (t.chars ++ rest).head?, Text.isBlank d = false := by simp [same, visible]
    exact ⟨blanks, t.chars ++ rest, rfl, areBlanks, spelling.first t, first⟩

theorem Spelling.dropBack {ts : List Token} {cs : List Char} (spelling : Spelling ts cs)
    (formed : ∀ t ∈ ts, t.Formed) : ∃ core blanks, cs = core ++ blanks ∧ AreBlanks blanks ∧
      Spelling ts core ∧ ∀ c ∈ core.getLast?, Text.isBlank c = false := by
  rcases List.eq_nil_or_concat' ts with rfl | ⟨us, t, rfl⟩
  · obtain ⟨areBlanks⟩ := spelling
    exact ⟨[], cs, rfl, areBlanks, spelling_nil, by simp⟩
  · obtain ⟨before, blanks, rfl, spellingBefore, areBlanks⟩ := spelling.concat
    have formedLast : t.Formed := formed t (by simp)
    obtain ⟨c, ds, same, _⟩ := Token.chars_eq_cons formedLast
    have present : t.chars ≠ [] := by simp [same]
    refine ⟨before ++ t.chars, blanks, by simp, areBlanks, spellingBefore.last t, ?_⟩
    rw [List.getLast?_append_of_ne_nil _ present]
    exact fun c isLast => formedLast.visible c (List.mem_of_getLast? isLast)

theorem Spelling.trimChars {ts : List Token} {cs : List Char} (spelling : Spelling ts cs)
    (formed : ∀ t ∈ ts, t.Formed) : Spelling ts (Text.trimChars cs) := by
  -- what is left between the blanks begins and ends with a token, so it is what trimming leaves
  obtain ⟨before, core, rfl, areBlanksBefore, spellingCore, first⟩ := spelling.dropFront formed
  obtain ⟨inner, after, rfl, areBlanksAfter, spellingInner, last⟩ := spellingCore.dropBack formed
  have trimmed : Text.Trimmed inner := by
    refine ⟨fun c isFirst => first c ?_, last⟩
    simp [Option.mem_def.mp isFirst]
  rwa [Text.trimChars_between areBlanksBefore trimmed areBlanksAfter]

/-! ## Formulas -/

theorem parse_eq_ok_iff [Machine] {s : String} {e : Expr} :
    parse s = .ok e ↔ ¬NestsBeyond Machine.formulaDepth s ∧ Writes s e := by
  constructor
  · intro parsed
    refine ⟨fun deep => ?_, writes_of_parseWithin parsed⟩
    obtain ⟨position, refused⟩ := (parseWithin_tooDeep_iff Machine.formulaDepth s).mpr deep
    rw [parse, refused] at parsed
    cases parsed
  · rintro ⟨within, writes⟩
    exact (parseWithin_eq_ok_iff within).mpr writes

theorem parse_congr [Machine] {s t : String} {e : Expr} (same : tokens t.toList = tokens s.toList)
    (parsed : parse s = .ok e) : parse t = .ok e := by
  rw [parse_eq_ok_iff, NestsBeyond, writes_iff] at parsed ⊢
  rwa [same]

theorem tokens_trimChars {s : String} {e : Expr} (writes : Writes s e) :
    tokens (Text.trimChars s.toList) = tokens s.toList := by
  have bounded := (writes_iff.mp writes).bounded
  exact tokens_of_spelling ((spelling_tokens s.toList).trimChars bounded.formed) bounded.formed
    bounded.separable

/-- A formula writes the same expression without the blanks at its ends. -/
theorem parse_trim [Machine] {s : String} {e : Expr} (parsed : parse s = .ok e) :
    parse (Text.trim s) = .ok e := by
  refine parse_congr ?_ parsed
  rw [Text.trim, String.toList_ofList]
  exact tokens_trimChars (writes_of_parseWithin parsed)

theorem parse_blanks [Machine] {s : String} {e : Expr} {blanks : List Char}
    (areBlanks : AreBlanks blanks) (parsed : parse s = .ok e) :
    parse (String.ofList (blanks ++ s.toList)) = .ok e := by
  refine parse_congr ?_ parsed
  rw [String.toList_ofList, tokens_blanks areBlanks]

end Reckon.Formula
