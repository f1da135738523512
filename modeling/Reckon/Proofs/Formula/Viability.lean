import Reckon.Proofs.Formula.Blanks
import Reckon.Proofs.Formula.Endings

/-!
What a formula may begin with.

Whatever has been read can be completed to a formula: an operand if one is awaited, then the ends of
the open brackets. A token that is refused begins with a character that no formula goes on with, but
for a number whose exponent has begun.
-/

set_option autoImplicit false

namespace Reckon.Formula

namespace Reading

/-! ## Runs -/

theorem Advance.unique {r next next' : Reading} {t : Token} (first : Advance r t next)
    (second : Advance r t next') : next = next' := by
  have stepped := (step_eq_ok_iff (l := ⟨0, t⟩)).mpr first
  rw [(step_eq_ok_iff (l := ⟨0, t⟩)).mpr second] at stepped
  exact (Except.ok.inj stepped).symm

theorem Reads.split {r last : Reading} {ts us : List Token} (reads : Reads r (ts ++ us) last) :
    ∃ middle, Reads r ts middle ∧ Reads middle us last := by
  induction ts generalizing r with
  | nil => exact ⟨r, .nil, reads⟩
  | cons t ts ih =>
    obtain _ | ⟨advance, rest⟩ := reads
    obtain ⟨middle, first, second⟩ := ih rest
    exact ⟨middle, .cons advance first, second⟩

theorem Reads.unique {r last last' : Reading} {ts : List Token} (first : Reads r ts last)
    (second : Reads r ts last') : last = last' := by
  induction first with
  | nil =>
    cases second
    rfl
  | cons advance _ ih =>
    obtain _ | ⟨advance', rest'⟩ := second
    obtain rfl := advance.unique advance'
    exact ih rest'

/-! ## Completing what has been read -/

/-- Tokens that complete a formula: an operand if one is awaited, and the end of every bracket. -/
def completion (r : Reading) : List Token :=
  (if r.focus.awaits then [.number ['1']] else []) ++ List.replicate r.frames.length .closing

theorem reads_closings (frames : List Frame) (p : Pending) {focus : Focus} {v : Expr}
    (value : focus.value? = some v) :
    ∃ last, Reads ⟨frames, p, focus⟩ (List.replicate frames.length .closing) last ∧
      ∀ length, ∃ e, last.finish length = .ok e := by
  induction frames generalizing p focus v with
  | nil => exact ⟨_, .nil, fun _ => ⟨_, finish_eq_ok_iff.mpr ⟨rfl, v, value, rfl⟩⟩⟩
  | cons frame frames ih =>
    obtain ⟨bracket, outer⟩ := frame
    cases bracket with
    | group =>
      have closed : (Focus.complete (p.whole v)).value? = some (p.whole v) := rfl
      obtain ⟨last, reads, finished⟩ := ih outer closed
      exact ⟨last, .cons (.closeGroup value) reads, finished⟩
    | call name args =>
      have closed : (Focus.complete (.call name (args ++ [p.whole v]))).value? =
          some (.call name (args ++ [p.whole v])) := rfl
      obtain ⟨last, reads, finished⟩ := ih outer closed
      exact ⟨last, .cons (.closeCall value) reads, finished⟩

theorem reads_completion (r : Reading) :
    ∃ last, Reads r r.completion last ∧ ∀ length, ∃ e, last.finish length = .ok e := by
  obtain ⟨frames, p, focus⟩ := r
  cases awaits : focus.awaits with
  | true =>
    have operand : (Focus.complete (.num (Token.literalValue ['1']))).value? =
        some (.num (Token.literalValue ['1'])) := rfl
    obtain ⟨last, reads, finished⟩ := reads_closings frames p operand
    refine ⟨last, ?_, finished⟩
    simpa [completion, awaits] using Reads.cons (.number awaits) reads
  | false =>
    have value : ∃ v, focus.value? = some v := by
      cases focus <;> simp_all [Focus.awaits, Focus.value?]
    obtain ⟨v, value⟩ := value
    obtain ⟨last, reads, finished⟩ := reads_closings frames p value
    refine ⟨last, ?_, finished⟩
    simpa [completion, awaits] using reads

theorem mem_completion {r : Reading} {t : Token} (member : t ∈ r.completion) :
    t.Formed ∧ t.closes = true := by
  have one : Numeral (['1'] ++ [] ++ []) _ :=
    .mk (by simp) (by simp [AreDigits, Text.isAsciiDigit]) .absent .absent
  simp only [completion, List.mem_append, List.mem_replicate] at member
  rcases member with operand | ⟨_, rfl⟩
  · split at operand
    · obtain rfl := List.mem_singleton.mp operand
      exact ⟨⟨_, one⟩, rfl⟩
    · cases operand
  · exact ⟨trivial, rfl⟩

/-! ### Depth -/

theorem Advance.depth_le_of_closes {r next : Reading} {t : Token} (advance : Advance r t next)
    (closes : t.closes = true) : next.depth ≤ r.depth := by
  cases advance with
  | sign | group | call | power | comma => cases closes
  | product _ sign | sum _ sign => cases sign <;> cases closes
  | number | name => exact le_rfl
  | emptyCall | closeGroup | closeCall =>
    simp only [depth, foldl_depth, openDepth]
    omega

theorem Reads.depth_le_of_closes {r last : Reading} {ts : List Token} (reads : Reads r ts last)
    (closes : ∀ t ∈ ts, t.closes = true) : last.depth ≤ r.depth := by
  induction reads with
  | nil => exact le_rfl
  | cons advance _ ih =>
    obtain ⟨closesFirst, closesRest⟩ := List.forall_mem_cons.mp closes
    exact (ih closesRest).trans (advance.depth_le_of_closes closesFirst)

/-- What closes brackets does not exceed a limit that was kept before. -/
theorem not_exceeds_append {limit : Nat} {r middle : Reading} {ts us : List Token}
    (reads : Reads r ts middle) (within : ¬Exceeds limit r ts)
    (closes : ∀ t ∈ us, t.closes = true) : ¬Exceeds limit r (ts ++ us) := by
  rintro ⟨vs, last, initial, readsLast, deep⟩
  have level : middle.depth ≤ limit := by
    by_contra beyond
    exact within ⟨ts, middle, List.prefix_rfl, reads, Nat.lt_of_not_le beyond⟩
  rcases List.prefix_or_prefix_of_prefix initial (List.prefix_append ts us) with early | late
  · exact within ⟨vs, last, early, readsLast, deep⟩
  · obtain ⟨ws, rfl⟩ := late
    have initialRest : ws <+: us := (List.prefix_append_right_inj ts).mp initial
    obtain ⟨middle', readsMiddle, readsRest⟩ := readsLast.split
    obtain rfl := readsMiddle.unique reads
    have shallow := readsRest.depth_le_of_closes fun t member =>
      closes t (initialRest.subset member)
    omega

end Reading

open Reading

/-! ## Texts that some formula begins with -/

def Viable [Machine] (cs : List Char) : Prop :=
  ∃ rest e, parse (String.ofList (cs ++ rest)) = .ok e

theorem Viable.of_append [Machine] {cs : List Char} (ds : List Char) (viable : Viable (cs ++ ds)) :
    Viable cs := by
  obtain ⟨rest, e, parsed⟩ := viable
  exact ⟨ds ++ rest, e, by rwa [← List.append_assoc]⟩

/-- The characters have been taken as the tokens, which lead to the reading within the limit. -/
structure Taken [Machine] (cs : List Char) (ts : List Token) (r : Reading) : Prop where
  spelling : Spelling ts cs
  formed : ∀ t ∈ ts, t.Formed
  reads : Reads .start ts r
  within : ¬Exceeds Machine.formulaDepth .start ts

namespace Taken

variable {cs : List Char} {ts : List Token} {r : Reading}

theorem of_steps [Machine] {ls : List Lexeme}
    (done : Reading.start.steps Machine.formulaDepth ls = .ok r)
    (spelling : Spelling (ls.map Lexeme.token) cs)
    (known : ∀ t ∈ ls.map Lexeme.token, t.Formed ∨ ∃ c, t = .stray c) :
    Taken cs (ls.map Lexeme.token) r where
  spelling := spelling
  formed := (reads_of_steps done).formed known
  reads := reads_of_steps done
  within := by
    have level : start.depth ≤ Machine.formulaDepth := Nat.zero_le Machine.formulaDepth
    rw [← steps_tooDeep_iff level]
    rintro ⟨position, deep⟩
    rw [done] at deep
    cases deep

theorem isSum_completion [Machine] (taken : Taken cs ts r) : ∃ e, IsSum (ts ++ r.completion) e := by
  obtain ⟨last, completes, finished⟩ := reads_completion r
  obtain ⟨e, finished⟩ := finished 0
  have formedAll : ∀ t ∈ ts ++ r.completion, t.Formed := by
    intro t member
    rcases List.mem_append.mp member with old | new
    · exact taken.formed t old
    · exact (mem_completion new).1
  exact ⟨e, (isSum_iff_reads formedAll 0).mpr ⟨last, taken.reads.append completes, finished⟩⟩

theorem separable [Machine] (taken : Taken cs ts r) :
    ts.IsChain fun t u => t.separable u = true := by
  obtain ⟨e, phrase⟩ := taken.isSum_completion
  exact (List.isChain_append.mp phrase.bounded.separable).1

theorem tokens_eq [Machine] (taken : Taken cs ts r) : tokens cs = ts :=
  tokens_of_spelling taken.spelling taken.formed taken.separable

theorem viable [Machine] (taken : Taken cs ts r) : Viable cs := by
  obtain ⟨e, phrase⟩ := taken.isSum_completion
  have spelling := taken.spelling.append (spelling_chars r.completion)
  have cut := tokens_of_spelling spelling phrase.bounded.formed phrase.bounded.separable
  have writes : Writes (String.ofList (cs ++ r.completion.flatMap Token.chars)) e := by
    rwa [writes_iff, String.toList_ofList, cut]
  have shallow : ¬NestsBeyond Machine.formulaDepth
      (String.ofList (cs ++ r.completion.flatMap Token.chars)) := by
    rw [NestsBeyond, String.toList_ofList, cut]
    exact not_exceeds_append taken.reads taken.within fun t member => (mem_completion member).2
  exact ⟨_, e, (parseWithin_eq_ok_iff shallow).mpr writes⟩

theorem concat [Machine] (taken : Taken cs ts r) {t : Token} {next : Reading} (formed : t.Formed)
    (closes : t.closes = true) (advance : Advance r t next) :
    Taken (cs ++ t.chars) (ts ++ [t]) next where
  spelling := taken.spelling.last t
  formed := by
    intro u member
    rcases List.mem_append.mp member with old | new
    · exact taken.formed u old
    · obtain rfl := List.mem_singleton.mp new
      exact formed
  reads := taken.reads.append (.single advance)
  within := not_exceeds_append taken.reads taken.within (by simpa using closes)

theorem init [Machine] {t : Token} (taken : Taken cs (ts ++ [t]) r) :
    ∃ before blanks middle, cs = before ++ (t.chars ++ blanks) ∧ AreBlanks blanks ∧
      Taken before ts middle ∧ Advance middle t r := by
  obtain ⟨before, blanks, same, spelling, areBlanks⟩ := taken.spelling.concat
  obtain ⟨middle, reads, readsLast⟩ := taken.reads.split
  obtain _ | ⟨advance, ⟨⟩⟩ := readsLast
  have withinBefore : ¬Exceeds Machine.formulaDepth .start ts := by
    rintro ⟨vs, last, initial, readsInitial, deep⟩
    exact taken.within ⟨vs, last, initial.trans (List.prefix_append _ _), readsInitial, deep⟩
  have formedBefore : ∀ u ∈ ts, u.Formed :=
    fun u member => taken.formed u (List.mem_append_left _ member)
  exact ⟨before, blanks, middle, same, areBlanks,
    ⟨spelling, formedBefore, reads, withinBefore⟩, advance⟩

end Taken

/-! ## Characters that nothing can follow -/

theorem ofFront_star (rest : List Char) :
    Token.ofFront '*' rest = .times ∨ Token.ofFront '*' rest = .power := by
  match rest with
  | [] => exact .inl rfl
  | c :: rest =>
    by_cases star : c = '*'
    · subst star
      exact .inr rfl
    · refine .inl ?_
      simp [Token.ofFront, star, Text.isAsciiDigit, Token.startsName, Text.isAsciiLetter]

theorem Reading.Advance.front {r next : Reading} {c : Char} {rest : List Char}
    (advance : Advance r (Token.ofFront c rest) next) (rest' : List Char) :
    ∃ next', Advance r (Token.ofFront c rest') next' := by
  by_cases digit : Text.isAsciiDigit c = true
  · simp only [Token.ofFront, digit, if_true] at advance ⊢
    cases advance with
    | number awaits => exact ⟨_, .number awaits⟩
    | product _ sign | sum _ sign => cases sign
  by_cases starts : Token.startsName c = true
  · simp only [Token.ofFront, digit, starts, if_true, Bool.false_eq_true, if_false] at advance ⊢
    cases advance with
    | name awaits => exact ⟨_, .name awaits⟩
    | product _ sign | sum _ sign => cases sign
  by_cases star : c = '*'
  · subst star
    -- a product and a power both need an operand before them, and nothing else
    have value : ∃ v, r.focus.value? = some v := by
      rcases ofFront_star rest with times | power
      · rw [times] at advance
        cases advance with
        | product value _ => exact ⟨_, value⟩
        | sum _ sign => cases sign
      · rw [power] at advance
        cases advance with
        | power value => exact ⟨_, value⟩
        | product _ sign | sum _ sign => cases sign
    obtain ⟨v, value⟩ := value
    rcases ofFront_star rest' with times | power
    · rw [times]
      exact ⟨_, .product value .times⟩
    · rw [power]
      exact ⟨_, .power value⟩
  · have same : Token.ofFront c rest' = Token.ofFront c rest := by
      simp only [Token.ofFront, digit, starts, star, if_false, Bool.false_eq_true]
    exact ⟨next, same ▸ advance⟩

/-- The reader has taken the characters and refuses the token that begins with the next one. -/
structure Refused [Machine] (before : List Char) (c : Char) (rest : List Char) (ts : List Token)
    (r : Reading) : Prop where
  taken : Taken before ts r
  visible : Text.isBlank c = false
  read : tokens (before ++ c :: rest) = ts ++ tokens (c :: rest)
  refuses : ∀ next, ¬Advance r (Token.ofFront c rest) next

/-- No formula goes on with the character, unless that begins an exponent. -/
theorem Refused.not_writes [Machine] {before rest : List Char} {c : Char} {ts : List Token}
    {r : Reading}
    (refused : Refused before c rest ts r) (whole : EndsInPlainNumber ts before → ¬IsMark c)
    (rest' : List Char) (e : Expr) : ¬Writes (String.ofList (before ++ c :: rest')) e := by
  intro writes
  obtain ⟨taken, visible, read, refuses⟩ := refused
  obtain ⟨last, readsAll, _⟩ := reads_of_writes writes 0
  rw [String.toList_ofList,
    tokens_append_stable taken.spelling taken.formed taken.separable read whole rest',
    tokens_front visible] at readsAll
  obtain ⟨middle, readsMiddle, readsRest⟩ := readsAll.split
  obtain rfl := readsMiddle.unique taken.reads
  obtain _ | ⟨advance, _⟩ := readsRest
  obtain ⟨next, advance⟩ := advance.front rest
  exact refuses next advance

/-! ## Exponents that have begun -/

theorem Numeral.parts {literal : List Char} {value : Float} (numeral : Numeral literal value)
    (plain : HasNoMark literal) : ∃ units fraction places, literal = units ++ fraction ∧
      units ≠ [] ∧ AreDigits units ∧ Fraction fraction places := by
  obtain @⟨units, fraction, places, exponent, _, nonempty, areDigits, isFraction, isExponent⟩ :=
    numeral
  refine ⟨units, fraction, places, ?_, nonempty, areDigits, isFraction⟩
  cases isExponent with
  | absent => exact List.append_nil _
  | bare mark | plus mark | minus mark => exact absurd mark (plain _ (by simp))

theorem Numeral.withExponent {literal : List Char} {value : Float} (numeral : Numeral literal value)
    (plain : HasNoMark literal) {mark : Char} (isMark : IsMark mark) :
    ∃ value', Numeral (literal ++ [mark, '1']) value' := by
  obtain ⟨units, fraction, places, rfl, nonempty, areDigits, isFraction⟩ := numeral.parts plain
  have one : AreDigits ['1'] := by simp [AreDigits, Text.isAsciiDigit]
  exact ⟨_, .mk nonempty areDigits isFraction (.bare isMark (by simp) one)⟩

theorem Numeral.last {literal before blanks : List Char} {value : Float}
    (numeral : Numeral literal value) (areBlanks : AreBlanks blanks)
    (within : literal <:+ before ++ (literal ++ blanks)) : blanks = [] := by
  obtain ⟨front, same⟩ := within
  obtain ⟨d, rest, isCons, _⟩ := numeral.eq_cons
  have nonempty : literal ≠ [] := by simp [isCons]
  by_contra more
  have last := congrArg List.getLast? same
  rw [List.getLast?_append_of_ne_nil _ nonempty,
    List.getLast?_append_of_ne_nil _ (List.append_ne_nil_of_left_ne_nil nonempty _),
    List.getLast?_append_of_ne_nil _ more, List.getLast?_eq_some_getLast more] at last
  have visible := numeral.visible _ (List.mem_of_getLast? last)
  rw [areBlanks _ (List.getLast_mem more)] at visible
  cases visible

/-- A number that an exponent may follow goes on with the mark of one. -/
theorem Taken.viable_mark [Machine] {cs : List Char} {ts : List Token} {r : Reading}
    (taken : Taken cs ts r)
    (ends : EndsInPlainNumber ts cs) {mark : Char} (isMark : IsMark mark) :
    Viable (cs ++ [mark]) := by
  obtain ⟨t, isLast, plain, within⟩ := ends
  obtain ⟨us, rfl⟩ := List.getLast?_eq_some_iff.mp isLast
  obtain ⟨before, blanks, middle, rfl, areBlanks, takenBefore, advance⟩ := taken.init
  cases t with
  | number literal =>
    obtain ⟨value, numeral⟩ := taken.formed (.number literal) (by simp)
    obtain rfl := numeral.last areBlanks within
    -- with an exponent the number is still a single token, which the reader takes as well
    obtain ⟨_, numeral'⟩ := numeral.withExponent plain isMark
    have advance' : ∃ next, Advance middle (.number (literal ++ [mark, '1'])) next := by
      cases advance with
      | number awaits => exact ⟨_, .number awaits⟩
      | product _ sign | sum _ sign => cases sign
    obtain ⟨next, advance'⟩ := advance'
    have formed : (Token.number (literal ++ [mark, '1'])).Formed := ⟨_, numeral'⟩
    have viable := (takenBefore.concat formed rfl advance').viable
    refine Viable.of_append ['1'] ?_
    simpa [Token.chars] using viable
  | _ => exact plain.elim

end Reckon.Formula
