import Mathlib.Data.List.Induction
import Reckon.Proofs.Formula.Parsing

/-!
The variables of a formula, found in its text.

A name in the text mentions a variable unless it is a constant or an opening bracket comes next. The
scan for mentions knows nothing of expressions. Main statement: the variables of a parsed expression
are the mentioned names, each where it is mentioned first.
-/

set_option autoImplicit false

namespace Reckon.Formula

/-! ## The scan of a text -/

def bracketNext (cs : List Char) : Bool :=
  (cs.dropWhile Text.isBlank).head? == some '('

def Lexeme.mention? (text : List Char) (l : Lexeme) : Option String :=
  match l.token with
  | .name letters =>
    let called := bracketNext (text.drop (l.position + letters.length))
    let name := String.ofList letters
    if called || (Expr.constant? name).isSome then none else some name
  | _ => none

/-- The variables that a text mentions, once for each mention, from left to right. -/
def mentions (text : List Char) : List String :=
  (lexemes text).filterMap (Lexeme.mention? text)

/-! ## Mentions in rows of tokens -/

def mentionsIn : List Token → List String
  | [] => []
  | .name letters :: rest =>
    if rest.head? = some .opening then mentionsIn rest
    else (Expr.var (String.ofList letters)).occurrences ++ mentionsIn rest
  | _ :: rest => mentionsIn rest

theorem mentionsIn_cons {t : Token} (noWord : t.isWord = false) (ts : List Token) :
    mentionsIn (t :: ts) = mentionsIn ts := by
  cases t with
  | number _ | name _ => cases noWord
  | _ => rfl

theorem mentionsIn_name {letters : List Char} {ts : List Token} (next : ts.head? ≠ some .opening) :
    mentionsIn (.name letters :: ts) =
      (Expr.var (String.ofList letters)).occurrences ++ mentionsIn ts := by
  rw [mentionsIn, if_neg next]

theorem mentionsIn_called {letters : List Char} {ts : List Token} :
    mentionsIn (.name letters :: .opening :: ts) = mentionsIn ts := by
  rw [mentionsIn, if_pos List.head?_cons]
  rfl

/-- Rows that do not meet in a call have their mentions one after the other. -/
theorem mentionsIn_append {ts us : List Token} (apart : us.head? ≠ some .opening) :
    mentionsIn (ts ++ us) = mentionsIn ts ++ mentionsIn us := by
  induction ts with
  | nil => rfl
  | cons t ts ih =>
    cases t with
    | name letters =>
      have same : (ts ++ us).head? = some .opening ↔ ts.head? = some .opening := by
        cases ts with
        | nil => simpa using apart
        | cons _ _ => rfl
      by_cases called : ts.head? = some .opening
      · simp only [List.cons_append, mentionsIn, if_pos called, if_pos (same.mpr called), ih]
      · simp only [List.cons_append, mentionsIn, if_neg called, if_neg (mt same.mp called), ih,
          List.append_assoc]
    | _ => exact ih

theorem mentionsIn_join {t : Token} (joins : t.joins = true) (ts us : List Token) :
    mentionsIn (ts ++ t :: us) = mentionsIn ts ++ mentionsIn us := by
  have noWord : t.isWord = false := by cases t <;> simp_all [Token.joins, Token.isWord]
  have apart : (t :: us).head? ≠ some .opening := by
    rintro same
    cases same
    cases joins
  rw [mentionsIn_append apart, mentionsIn_cons noWord]

theorem mentionsIn_closing (ts : List Token) : mentionsIn (ts ++ [.closing]) = mentionsIn ts := by
  have apart : [Token.closing].head? ≠ some .opening := by simp
  rw [mentionsIn_append apart, mentionsIn_cons rfl, mentionsIn, List.append_nil]

/-! ## Phrases

The operands of a phrase stand in its tokens in the order in which its expression has them. -/

theorem occurrencesIn_concat (args : List Expr) (e : Expr) :
    Expr.occurrencesIn (args ++ [e]) = Expr.occurrencesIn args ++ e.occurrences := by
  induction args with
  | nil => simp [Expr.occurrencesIn]
  | cons arg args ih => simp only [List.cons_append, Expr.occurrencesIn, ih, List.append_assoc]

mutual

theorem IsSum.occurrences {ts : List Token} {e : Expr} : IsSum ts e → e.occurrences = mentionsIn ts
  | .product phrase => phrase.occurrences
  | .join left sign right => by
    rw [Expr.occurrences, left.occurrences, right.occurrences, mentionsIn_join sign.joins]

theorem IsProduct.occurrences {ts : List Token} {e : Expr} :
    IsProduct ts e → e.occurrences = mentionsIn ts
  | .power phrase => phrase.occurrences
  | .join left sign right => by
    rw [Expr.occurrences, left.occurrences, right.occurrences, mentionsIn_join sign.joins]

theorem IsPower.occurrences {ts : List Token} {e : Expr} :
    IsPower ts e → e.occurrences = mentionsIn ts
  | .signed phrase => phrase.occurrences
  | .join base exponent => by
    rw [Expr.occurrences, base.occurrences, exponent.occurrences, mentionsIn_join rfl]

theorem IsSigned.occurrences {ts : List Token} {e : Expr} :
    IsSigned ts e → e.occurrences = mentionsIn ts
  | .atom phrase => phrase.occurrences
  | .minus operand => by
    rw [Expr.occurrences, operand.occurrences, mentionsIn_cons rfl]

theorem IsAtom.occurrences {ts : List Token} {e : Expr} :
    IsAtom ts e → e.occurrences = mentionsIn ts
  | .number _ => rfl
  | .var _ => by
    rw [mentionsIn_name (by simp), mentionsIn, List.append_nil]
  | .group inner => by
    rw [mentionsIn_cons rfl, mentionsIn_closing, inner.occurrences]
  | .emptyCall _ => by
    rw [mentionsIn_called, mentionsIn_cons rfl]
    rfl
  | .call _ arguments => by
    rw [mentionsIn_called, mentionsIn_closing, Expr.occurrences, arguments.occurrences]

theorem AreArguments.occurrences {ts : List Token} {args : List Expr} :
    AreArguments ts args → Expr.occurrencesIn args = mentionsIn ts
  | .one argument => by
    rw [Expr.occurrencesIn, Expr.occurrencesIn, List.append_nil, argument.occurrences]
  | .more front argument => by
    rw [occurrencesIn_concat, front.occurrences, argument.occurrences, mentionsIn_join rfl]

end

/-! ## Tokens at their places in a text -/

theorem ofFront_eq_opening_iff {c : Char} {rest : List Char} :
    Token.ofFront c rest = .opening ↔ c = '(' := by
  constructor
  · intro same
    unfold Token.ofFront at same
    split_ifs at same with _ _ _ _ _ _ isOpening
    · split at same <;> cases same
    · exact isOpening
  · rintro rfl
    rfl

theorem head?_tokens_eq_opening_iff (cs : List Char) :
    (tokens cs).head? = some .opening ↔ bracketNext cs = true := by
  induction cs with
  | nil => simp [tokens_nil, bracketNext]
  | cons c rest ih =>
    by_cases blank : Text.isBlank c = true
    · rw [tokens_blank blank, ih, bracketNext, bracketNext, List.dropWhile_cons_of_pos blank]
    · rw [tokens_front (by simpa using blank), bracketNext, List.dropWhile_cons_of_neg blank]
      simp [ofFront_eq_opening_iff]

/-- The variable that a token mentions depends on what comes after the token only. -/
theorem mention?_at (before : List Char) {cs : List Char} {c : Char} {rest : List Char} (t : Token)
    (same : c :: rest = t.chars ++ cs) :
    (Lexeme.mention? (before ++ c :: rest) ⟨before.length, t⟩).toList ++ mentionsIn (tokens cs) =
      mentionsIn (t :: tokens cs) := by
  cases t with
  | name letters =>
    have after : (before ++ (letters ++ cs)).drop (before.length + letters.length) = cs := by
      rw [← List.append_assoc, ← List.length_append, List.drop_left]
    simp only [Lexeme.mention?, same, Token.chars, after]
    by_cases next : bracketNext cs = true
    · have opening := (head?_tokens_eq_opening_iff cs).mpr next
      simp [mentionsIn, opening, next]
    · have opening := mt (head?_tokens_eq_opening_iff cs).mp next
      rw [mentionsIn_name opening, Expr.occurrences]
      by_cases constant : (Expr.constant? (String.ofList letters)).isSome = true
      · simp [next, constant]
      · simp [next, constant]
  | _ => rfl

theorem filterMap_mention? {fuel : Nat} {cs : List Char} (before : List Char)
    (enough : cs.length ≤ fuel) :
    (lexemesFrom fuel before.length cs).filterMap (Lexeme.mention? (before ++ cs)) =
      mentionsIn (tokens cs) := by
  induction fuel generalizing before cs with
  | zero =>
    obtain rfl := List.eq_nil_of_length_eq_zero (Nat.le_zero.mp enough)
    rfl
  | succ fuel ih =>
    match cs with
    | [] => rfl
    | c :: rest =>
      simp only [List.length_cons, Nat.add_le_add_iff_right] at enough
      simp only [lexemesFrom]
      split_ifs with blank
      · have scanned := ih (before ++ [c]) enough
        rw [tokens_blank blank]
        simpa using scanned
      · -- the token joins what stands before the rest of the text
        have width := chars_append_afterFront c rest
        have scanned := ih (before ++ (Token.ofFront c rest).chars)
          ((length_afterFront c rest).trans enough)
        rw [List.append_assoc, width, List.length_append] at scanned
        have first := mention?_at before (Token.ofFront c rest) width.symm
        rw [tokens_front (by simpa using blank), ← first, ← scanned, List.filterMap_cons]
        cases Lexeme.mention? (before ++ c :: rest) ⟨before.length, Token.ofFront c rest⟩ <;> rfl

theorem mentions_eq (text : List Char) : mentions text = mentionsIn (tokens text) :=
  filterMap_mention? [] le_rfl

/-! ## First mentions -/

/-- Without their repetitions names stand in the order of their first mentions. -/
theorem pairwise_eraseDups (names : List String) :
    names.eraseDups.Pairwise fun first second => names.idxOf first < names.idxOf second := by
  induction names using List.reverseRecOn with
  | nil => simp
  | append_singleton names name ih =>
    have kept : names.eraseDups.Pairwise fun first second =>
        (names ++ [name]).idxOf first < (names ++ [name]).idxOf second := by
      refine ih.imp_of_mem fun first second earlier => ?_
      rw [List.mem_eraseDups] at first second
      rwa [List.idxOf_append_of_mem first, List.idxOf_append_of_mem second]
    rw [List.eraseDups_append]
    by_cases known : name ∈ names
    · simpa [List.removeAll, known] using kept
    · have alone : [name].removeAll names = [name] := by simp [List.removeAll, known]
      rw [alone]
      refine List.pairwise_append.mpr
        ⟨kept, List.pairwise_singleton _ _, fun first member last isLast => ?_⟩
      obtain rfl : last = name := by simpa using isLast
      rw [List.mem_eraseDups] at member
      rw [List.idxOf_append_of_mem member, List.idxOf_append_of_notMem known]
      exact Nat.lt_add_right _ (List.idxOf_lt_length_iff.mpr member)

/-- The variables of a parsed expression are the names that its text mentions, in the order in which
they are mentioned first. -/
theorem variableNames_of_parse [Machine] {s : String} {e : Expr} (parsed : parse s = .ok e) :
    e.variableNames = (mentions s.toList).eraseDups ∧
      (∀ name, name ∈ e.variableNames ↔ name ∈ mentions s.toList) ∧
      e.variableNames.Pairwise fun first second =>
        (mentions s.toList).idxOf first < (mentions s.toList).idxOf second := by
  have phrase := writes_iff.mp (writes_of_parseWithin parsed)
  have names : e.variableNames = (mentions s.toList).eraseDups := by
    rw [Expr.variableNames, phrase.occurrences, mentions_eq]
  rw [names]
  exact ⟨rfl, fun _ => List.mem_eraseDups, pairwise_eraseDups _⟩

/-- A formula with a repeated name, a function, a constant and a number with an exponent. -/
def crowded : String := "-y*2e3 + f (x, y) + pi"

section

attribute [local instance] Machine.standard

theorem variableNames_of_parse_crowded :
    ∃ e, parse crowded = .ok e ∧
      e.variableNames = (mentions crowded.toList).eraseDups ∧
      (∀ name, name ∈ e.variableNames ↔ name ∈ mentions crowded.toList) ∧
      e.variableNames.Pairwise fun first second =>
        (mentions crowded.toList).idxOf first < (mentions crowded.toList).idxOf second := by
  have parsed : parse crowded = .ok (.binary "+"
      (.binary "+"
        (.binary "*" (.unary "-" (.var "y")) (.num (Token.literalValue ['2', 'e', '3'])))
        (.call "f" [.var "x", .var "y"]))
      (.var "pi")) := by rfl
  exact ⟨_, parsed, variableNames_of_parse parsed⟩

end

example : mentions crowded.toList = ["y", "x", "y"] := by decide +kernel

end Reckon.Formula
