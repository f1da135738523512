import Reckon.Proofs.Formula.Viability

/-!
Where a formula goes wrong.

The reader stops at the first token that it refuses, or at the end of the text. Main statement: the
position of a reading error is the end of the longest part of the text that some formula begins with,
but for a number whose exponent has begun.
-/

set_option autoImplicit false

namespace Reckon.Formula

open Reading

/-! ## Errors and their places -/

namespace Reading

theorem readOperand_position {r : Reading} {l : Lexeme} {error : Malformed}
    (failed : r.readOperand l = .error error) : error.position = l.position := by
  unfold readOperand at failed
  split at failed <;> cases failed
  rfl

theorem readOperator_position {r : Reading} {l : Lexeme} {v : Expr} {error : Malformed}
    (failed : r.readOperator v l = .error error) : error.position = l.position := by
  unfold readOperator refuse at failed
  split at failed <;> try cases failed
  split at failed <;> cases failed <;> rfl

theorem step_position {r : Reading} {l : Lexeme} {error : Malformed}
    (failed : r.step l = .error error) : error.position = l.position := by
  unfold step at failed
  split at failed
  · exact readOperand_position failed
  · exact readOperand_position failed
  · split at failed
    · cases failed
    · exact readOperator_position failed
  · exact readOperator_position failed

theorem finish_position {r : Reading} {length : Nat} {error : Malformed}
    (failed : r.finish length = .error error) : error.position = length := by
  unfold finish at failed
  split at failed <;> cases failed <;> rfl

/-- The reader fails at a token that it refuses, after others that it has taken. -/
theorem steps_failed {limit : Nat} {r : Reading} {ls : List Lexeme} {error : Malformed}
    (failed : r.steps limit ls = .error error) (shallow : error.fault ≠ .tooDeep) :
    ∃ front l back last, ls = front ++ l :: back ∧ r.steps limit front = .ok last ∧
      last.step l = .error error := by
  induction ls generalizing r with
  | nil => cases failed
  | cons l ls ih =>
    simp only [steps] at failed
    split at failed
    · next next stepped =>
      split at failed
      · cases failed
        exact absurd rfl shallow
      · next within =>
        obtain ⟨front, l', back, last, rfl, done, refused⟩ := ih failed
        refine ⟨l :: front, l', back, last, rfl, ?_, refused⟩
        simp only [steps, stepped, if_neg within, done]
    · next refused =>
      cases failed
      exact ⟨[], l, ls, r, rfl, rfl, refused⟩

end Reading

theorem parseWithin_failed {limit : Nat} {cs : List Char} {error : Malformed}
    (failed : parseWithin limit cs = .error error) :
    (∃ r, Reading.start.steps limit (lexemes cs) = .ok r ∧ r.finish cs.length = .error error) ∨
      Reading.start.steps limit (lexemes cs) = .error error := by
  unfold parseWithin at failed
  split at failed
  · next r done => exact .inl ⟨r, done, failed⟩
  · next stopped =>
    cases failed
    exact .inr stopped

/-- A token of a text stands after the tokens before it, at a character that begins it. -/
structure StandsAt (front : List Lexeme) (l : Lexeme) (before : List Char) (c : Char)
    (rest : List Char) : Prop where
  visible : Text.isBlank c = false
  token : l.token = Token.ofFront c rest
  spelling : Spelling (front.map Lexeme.token) before
  read : tokens (before ++ c :: rest) = front.map Lexeme.token ++ tokens (c :: rest)

namespace StandsAt

variable {front : List Lexeme} {l : Lexeme} {before more : List Char} {d : Char}

theorem first {c : Char} (visible : Text.isBlank c = false) (position : Nat) (rest : List Char) :
    StandsAt [] ⟨position, Token.ofFront c rest⟩ [] c rest :=
  ⟨visible, rfl, spelling_nil, rfl⟩

theorem blank (stands : StandsAt front l before d more) {c : Char}
    (blank : Text.isBlank c = true) : StandsAt front l (c :: before) d more where
  visible := stands.visible
  token := stands.token
  spelling := stands.spelling.blank blank
  read := by rw [List.cons_append, tokens_blank blank, stands.read]

theorem after (stands : StandsAt front l before d more) {c : Char} {rest : List Char}
    (visible : Text.isBlank c = false) (left : afterFront c rest = before ++ d :: more)
    (position : Nat) :
    StandsAt (⟨position, Token.ofFront c rest⟩ :: front) l
      ((Token.ofFront c rest).chars ++ before) d more where
  visible := stands.visible
  token := stands.token
  spelling := stands.spelling.first (Token.ofFront c rest)
  read := by
    rw [List.append_assoc, ← left, chars_append_afterFront, tokens_front visible, left,
      stands.read]
    rfl

end StandsAt

theorem lexemesFrom_split {fuel position : Nat} {cs : List Char} {front back : List Lexeme}
    {l : Lexeme} (enough : cs.length ≤ fuel)
    (cut : lexemesFrom fuel position cs = front ++ l :: back) :
    ∃ before c rest, cs = before ++ c :: rest ∧ l.position = position + before.length ∧
      StandsAt front l before c rest := by
  induction fuel generalizing position cs front with
  | zero => simp [lexemesFrom] at cut
  | succ fuel ih =>
    cases cs with
    | nil => simp [lexemesFrom] at cut
    | cons c rest =>
      simp only [List.length_cons, Nat.add_le_add_iff_right] at enough
      simp only [lexemesFrom] at cut
      split_ifs at cut with blank
      · obtain ⟨before, d, more, rfl, place, stands⟩ := ih enough cut
        refine ⟨c :: before, d, more, rfl, ?_, stands.blank blank⟩
        rw [place, List.length_cons, Nat.add_assoc, Nat.add_comm 1]
      · have visible : Text.isBlank c = false := by simpa using blank
        cases front with
        | nil =>
          obtain ⟨rfl, _⟩ := List.cons.inj cut
          exact ⟨[], c, rest, rfl, rfl, .first visible position rest⟩
        | cons first front =>
          obtain ⟨rfl, cutRest⟩ := List.cons.inj cut
          have shorter := (length_afterFront c rest).trans enough
          obtain ⟨before, d, more, left, place, stands⟩ := ih shorter cutRest
          refine ⟨(Token.ofFront c rest).chars ++ before, d, more, ?_, ?_,
            stands.after visible left position⟩
          · rw [List.append_assoc, ← left, chars_append_afterFront]
          · rw [place, List.length_append, Nat.add_assoc]

/-! ## Positions -/

/-- The character begins an exponent of the number at the end of the characters. -/
def OpensExponent (cs : List Char) (c : Char) : Prop :=
  IsMark c ∧ EndsInPlainNumber (tokens cs) cs

theorem refused_of_failed [Machine] {cs : List Char} {error : Malformed}
    (failed : Reading.start.steps Machine.formulaDepth (lexemes cs) = .error error)
    (shallow : error.fault ≠ .tooDeep) :
    ∃ before c rest ts r, cs = before ++ c :: rest ∧ error.position = before.length ∧
      Refused before c rest ts r := by
  obtain ⟨front, l, back, r, cut, done, stepped⟩ := steps_failed failed shallow
  obtain ⟨before, c, rest, same, place, stands⟩ := lexemesFrom_split le_rfl cut
  have known : ∀ t ∈ front.map Lexeme.token, t.Formed ∨ ∃ c, t = .stray c := by
    intro t member
    refine tokens_formed cs t ?_
    rw [tokens, cut, List.map_append]
    exact List.mem_append_left _ member
  have refuses : ∀ next, ¬Advance r (Token.ofFront c rest) next := by
    intro next advance
    rw [← stands.token, ← step_eq_ok_iff, stepped] at advance
    cases advance
  refine ⟨before, c, rest, _, r, same, ?_,
    .of_steps done stands.spelling known, stands.visible, stands.read, refuses⟩
  rw [step_position stepped, place, Nat.zero_add]

/-- The position of a reading error is where the formula goes wrong: some formula begins with the
characters before it, and none with the next one as well unless that may begin an exponent. -/
theorem position_of_parse [Machine] {s : String} {error : Malformed}
    (failed : parse s = .error error)
    (shallow : error.fault ≠ .tooDeep) :
    error.position ≤ s.length ∧ Viable (s.toList.take error.position) ∧
      ∀ c, s.toList[error.position]? = some c →
        (OpensExponent (s.toList.take error.position) c →
          Viable (s.toList.take (error.position + 1))) ∧
        (¬OpensExponent (s.toList.take error.position) c → ∀ rest e,
          ¬Writes (String.ofList (s.toList.take (error.position + 1) ++ rest)) e) := by
  rw [← String.length_toList]
  obtain ⟨r, done, finished⟩ | stopped := parseWithin_failed failed
  · have taken : Taken s.toList _ r := .of_steps done (spelling_tokens _) (tokens_formed _)
    rw [finish_position finished, List.take_length]
    refine ⟨le_rfl, taken.viable, fun c found => ?_⟩
    rw [List.getElem?_length] at found
    cases found
  · obtain ⟨before, c, rest, ts, r, same, position, refused⟩ := refused_of_failed stopped shallow
    have next : s.toList.take (before.length + 1) = before ++ [c] := by
      rw [same, List.take_append, List.take_of_length_le (Nat.le_succ _), Nat.add_sub_cancel_left]
      rfl
    rw [position, next, same, List.take_left]
    refine ⟨by simp, refused.taken.viable, fun d found => ?_⟩
    obtain rfl : c = d := by simpa using found
    rw [OpensExponent, refused.taken.tokens_eq]
    refine ⟨fun opens => refused.taken.viable_mark opens.2 opens.1, fun whole rest' e => ?_⟩
    rw [List.append_assoc]
    exact refused.not_writes (fun ends mark => whole ⟨mark, ends⟩) rest' e

section

attribute [local instance] Machine.standard

/-- A comma that only the outer of two brackets would allow. -/
theorem position_of_parse_comma :
    parse "f((x, 2))" = .error ⟨4, .unclosed⟩ ∧ Fault.unclosed ≠ .tooDeep ∧
      4 ≤ "f((x, 2))".length ∧ Viable ("f((x, 2))".toList.take 4) ∧
      ∀ c, "f((x, 2))".toList[4]? = some c →
        (OpensExponent ("f((x, 2))".toList.take 4) c → Viable ("f((x, 2))".toList.take (4 + 1))) ∧
        (¬OpensExponent ("f((x, 2))".toList.take 4) c → ∀ rest e,
          ¬Writes (String.ofList ("f((x, 2))".toList.take (4 + 1) ++ rest)) e) :=
  have failed : parse "f((x, 2))" = .error ⟨4, .unclosed⟩ := by rfl
  have shallow : Fault.unclosed ≠ .tooDeep := by simp
  ⟨failed, shallow, position_of_parse failed shallow⟩

end

end Reckon.Formula
