import Mathlib.Logic.Function.Basic
import Reckon.Proofs.Formula.Blanks
import Reckon.Proofs.Formula.Evaluation
import Reckon.Proofs.Formula.Mentions

/-!
A formula in the place of a variable.

In a text the name gives way to the other formula in brackets, wherever no opening bracket comes
next; in an expression the variable gives way to the other expression. Main statement: the new text
writes the new expression, and its value is the old one's if the variable has the value of the
formula in its place.
-/

set_option autoImplicit false

namespace Reckon

/-! ## Expressions -/

namespace Expr

mutual

/-- The expression with another one in the place of a variable. -/
def substitute (name : String) (d : Expr) : Expr → Expr
  | num value => num value
  | var other => if other = name then d else var other
  | binary op left right => binary op (substitute name d left) (substitute name d right)
  | unary op operand => unary op (substitute name d operand)
  | call function args => call function (substituteIn name d args)
  | foreign value => foreign value

def substituteIn (name : String) (d : Expr) : List Expr → List Expr
  | [] => []
  | e :: rest => substitute name d e :: substituteIn name d rest

end

section

variable {env : Environment} {d : Expr} {v : Float}

theorem lookUp_update (env : Environment) (name : String) (v : Float) :
    lookUp (Function.update env name (some (.real v))) name = .ok v := by
  simp [lookUp, Value.toVariable, Value.toReal]

theorem lookUp_update_of_ne {name other : String} (different : other ≠ name) (env : Environment)
    (value : Option Value) : lookUp (Function.update env name value) other = lookUp env other := by
  simp [lookUp, different]

mutual

/-- Whatever name it stands for, an expression with a value can be replaced by the value. -/
theorem eval_substitute [Machine] (name : String) (valued : eval env d = .ok v) (e : Expr) :
    eval env (substitute name d e) = eval (Function.update env name (some (.real v))) e :=
  match e with
  | .num _ | .foreign _ => rfl
  | .var other => by
    by_cases same : other = name
    · subst same
      simp only [substitute, if_true, eval, valued, lookUp_update]
    · simp only [substitute, if_neg same, eval, lookUp_update_of_ne same]
  | .binary op left right => by
    simp only [substitute, eval, eval_substitute name valued left,
      eval_substitute name valued right]
  | .unary op operand => by
    simp only [substitute, eval, eval_substitute name valued operand]
  | .call function args => by
    simp only [substitute, eval, evalArgs_substituteIn name valued args]

theorem evalArgs_substituteIn [Machine] (name : String) (valued : eval env d = .ok v)
    (args : List Expr) :
    evalArgs env (substituteIn name d args) =
      evalArgs (Function.update env name (some (.real v))) args :=
  match args with
  | [] => rfl
  | e :: rest => by
    simp only [substituteIn, evalArgs, eval_substitute name valued e,
      evalArgs_substituteIn name valued rest]

end

end

theorem substituteIn_append (name : String) (d : Expr) (args args' : List Expr) :
    substituteIn name d (args ++ args') =
      substituteIn name d args ++ substituteIn name d args' := by
  induction args with
  | nil => rfl
  | cons e args ih => simp only [List.cons_append, substituteIn, ih]

end Expr

namespace Formula

/-! ## Rows of tokens -/

/-- The tokens with others in brackets in the place of a name, unless the name is called. -/
def replaceIn (letters : List Char) (us : List Token) : List Token → List Token
  | [] => []
  | t :: rest =>
    if t = .name letters ∧ rest.head? ≠ some .opening then
      .opening :: (us ++ .closing :: replaceIn letters us rest)
    else t :: replaceIn letters us rest

section

variable (letters : List Char) (us : List Token)

theorem replaceIn_cons {t : Token} (noWord : t.isWord = false) (ts : List Token) :
    replaceIn letters us (t :: ts) = t :: replaceIn letters us ts := by
  have other : t ≠ .name letters := by
    rintro rfl
    cases noWord
  simp [replaceIn, other]

theorem replaceIn_called (function : List Char) (ts : List Token) :
    replaceIn letters us (.name function :: .opening :: ts) =
      .name function :: .opening :: replaceIn letters us ts := by
  simp [replaceIn]

/-- Rows that do not meet in a call are replaced one after the other. -/
theorem replaceIn_append {ts vs : List Token} (apart : vs.head? ≠ some .opening) :
    replaceIn letters us (ts ++ vs) = replaceIn letters us ts ++ replaceIn letters us vs := by
  induction ts with
  | nil => rfl
  | cons t ts ih =>
    -- whether the token is called is seen in the first row, or it is the last one there
    have same : (ts ++ vs).head? = some .opening ↔ ts.head? = some .opening := by
      cases ts with
      | nil => simpa using apart
      | cons _ _ => rfl
    simp only [List.cons_append, replaceIn, ne_eq, same, ih]
    split
    · simp only [List.cons_append, List.append_assoc]
    · rfl

theorem replaceIn_join {t : Token} (joins : t.joins = true) (ts vs : List Token) :
    replaceIn letters us (ts ++ t :: vs) =
      replaceIn letters us ts ++ t :: replaceIn letters us vs := by
  have noWord : t.isWord = false := by cases t <;> simp_all [Token.joins, Token.isWord]
  have apart : (t :: vs).head? ≠ some .opening := by
    rintro same
    cases same
    cases joins
  rw [replaceIn_append letters us apart, replaceIn_cons letters us noWord]

theorem replaceIn_closing (ts : List Token) :
    replaceIn letters us (ts ++ [.closing]) = replaceIn letters us ts ++ [.closing] := by
  have apart : [Token.closing].head? ≠ some .opening := by simp
  rw [replaceIn_append letters us apart, replaceIn_cons letters us rfl, replaceIn]

end

/-! ## Phrases

What takes the place of a variable is an operand like the variable itself, so every phrase stays one
of its level. -/

section

variable {name : String} {us : List Token} {d : Expr}

mutual

theorem IsSum.replace (inner : IsSum us d) {ts : List Token} {e : Expr} :
    IsSum ts e → IsSum (replaceIn name.toList us ts) (Expr.substitute name d e)
  | .product phrase => .product (phrase.replace inner)
  | .join left sign right => by
    rw [replaceIn_join _ _ sign.joins]
    exact .join (IsSum.replace inner left) sign (right.replace inner)

theorem IsProduct.replace (inner : IsSum us d) {ts : List Token} {e : Expr} :
    IsProduct ts e → IsProduct (replaceIn name.toList us ts) (Expr.substitute name d e)
  | .power phrase => .power (phrase.replace inner)
  | .join left sign right => by
    rw [replaceIn_join _ _ sign.joins]
    exact .join (left.replace inner) sign (right.replace inner)

theorem IsPower.replace (inner : IsSum us d) {ts : List Token} {e : Expr} :
    IsPower ts e → IsPower (replaceIn name.toList us ts) (Expr.substitute name d e)
  | .signed phrase => .signed (phrase.replace inner)
  | .join base exponent => by
    rw [replaceIn_join _ _ rfl]
    exact .join (base.replace inner) (exponent.replace inner)

theorem IsSigned.replace (inner : IsSum us d) {ts : List Token} {e : Expr} :
    IsSigned ts e → IsSigned (replaceIn name.toList us ts) (Expr.substitute name d e)
  | .atom phrase => .atom (phrase.replace inner)
  | .minus operand => by
    rw [replaceIn_cons _ _ rfl]
    exact .minus (operand.replace inner)

theorem IsAtom.replace (inner : IsSum us d) {ts : List Token} {e : Expr} :
    IsAtom ts e → IsAtom (replaceIn name.toList us ts) (Expr.substitute name d e)
  | .number numeral => .number numeral
  | @IsAtom.var letters identifier => by
    by_cases same : letters = name.toList
    · subst same
      simpa [replaceIn, Expr.substitute] using IsAtom.group inner
    · have other : String.ofList letters ≠ name := by
        rintro rfl
        exact same String.toList_ofList.symm
      simpa [replaceIn, Expr.substitute, same, other] using IsAtom.var identifier
  | .group phrase => by
    rw [replaceIn_cons _ _ rfl, replaceIn_closing]
    exact .group (IsSum.replace inner phrase)
  | .emptyCall identifier => by
    rw [replaceIn_called, replaceIn_cons _ _ rfl]
    exact .emptyCall identifier
  | .call identifier arguments => by
    rw [replaceIn_called, replaceIn_closing]
    exact .call identifier (arguments.replace inner)

theorem AreArguments.replace (inner : IsSum us d) {ts : List Token} {args : List Expr} :
    AreArguments ts args →
    AreArguments (replaceIn name.toList us ts) (Expr.substituteIn name d args)
  | .one argument => .one (IsSum.replace inner argument)
  | .more front argument => by
    rw [replaceIn_join _ _ rfl, Expr.substituteIn_append]
    exact .more (front.replace inner) (IsSum.replace inner argument)

end

end

/-! ## Texts -/

/-- The text with another one in brackets in the place of a name, unless an opening bracket comes
next after it; `fuel` is at least the length of the text. -/
def replaceFrom (letters formula : List Char) : (fuel : Nat) → List Char → List Char
  | 0, _ => []
  | _ + 1, [] => []
  | fuel + 1, c :: rest =>
    if Text.isBlank c then c :: replaceFrom letters formula fuel rest
    else
      let token := Token.ofFront c rest
      let after := afterFront c rest
      if token = .name letters ∧ !bracketNext after then
        '(' :: (formula ++ ')' :: replaceFrom letters formula fuel after)
      else token.chars ++ replaceFrom letters formula fuel after

/-- The formula `s` with the formula `t` in brackets for each mention of the variable. -/
def replace (name t s : String) : String :=
  String.ofList (replaceFrom name.toList t.toList s.toList.length s.toList)

example : replace "x" "y - 1" "2*x ** x (x, xx) + -x" =
    "2*(y - 1) ** x ((y - 1), xx) + -(y - 1)" := by decide +kernel

theorem Spelling.bracketed {us ts : List Token} {formula cs : List Char}
    (inner : Spelling us formula) (rest : Spelling ts cs) :
    Spelling (.opening :: (us ++ .closing :: ts)) ('(' :: (formula ++ ')' :: cs)) :=
  (inner.append (rest.first .closing)).first .opening

theorem spelling_replaceFrom {us : List Token} {formula : List Char} (inner : Spelling us formula)
    (letters : List Char) {fuel : Nat} {cs : List Char} (enough : cs.length ≤ fuel) :
    Spelling (replaceIn letters us (tokens cs)) (replaceFrom letters formula fuel cs) := by
  induction fuel generalizing cs with
  | zero =>
    obtain rfl := List.eq_nil_of_length_eq_zero (Nat.le_zero.mp enough)
    exact spelling_nil
  | succ fuel ih =>
    match cs with
    | [] => exact spelling_nil
    | c :: rest =>
      simp only [List.length_cons, Nat.add_le_add_iff_right] at enough
      by_cases blank : Text.isBlank c = true
      · rw [tokens_blank blank, replaceFrom, if_pos blank]
        exact (ih enough).blank blank
      · have later := ih ((length_afterFront c rest).trans enough)
        -- the two scans agree on what comes next
        have next : (tokens (afterFront c rest)).head? ≠ some .opening ↔
            (!bracketNext (afterFront c rest)) = true := by
          simp [head?_tokens_eq_opening_iff]
        rw [tokens_front (by simpa using blank), replaceFrom, if_neg blank, replaceIn]
        simp only [next]
        split
        · exact inner.bracketed later
        · exact later.first _

theorem writes_replace {s t : String} {e d : Expr} (writes : Writes s e) (inner : Writes t d)
    (name : String) : Writes (replace name t s) (Expr.substitute name d e) := by
  refine ⟨replaceIn name.toList (tokens t.toList) (tokens s.toList), ?_, ?_⟩
  · rw [replace, String.toList_ofList]
    exact spelling_replaceFrom (spelling_tokens _) name.toList le_rfl
  · exact IsSum.replace (writes_iff.mp inner) (writes_iff.mp writes)

/-- With another formula in brackets for a variable, a formula is still read unless it nests too
deeply. Its expression is the old one with the other expression for the variable, and evaluates like
the old one where the variable has the value of the other formula. -/
theorem parse_replace [Machine] {s t : String} {e d : Expr} (parsed : parse s = .ok e)
    (inner : parse t = .ok d) (name : String) {env : Environment} {v : Float}
    (valued : d.evaluate env = .ok v) :
    (¬NestsBeyond Machine.formulaDepth (replace name t s) →
      parse (replace name t s) = .ok (Expr.substitute name d e)) ∧
    (NestsBeyond Machine.formulaDepth (replace name t s) →
      ∃ position, parse (replace name t s) = .error ⟨position, .tooDeep⟩) ∧
    Writes (replace name t s) (Expr.substitute name d e) ∧
    (Expr.substitute name d e).evaluate env =
      e.evaluate (Function.update env name (some (.real v))) := by
  have writes := writes_replace (writes_of_parseWithin parsed) (writes_of_parseWithin inner) name
  refine ⟨fun within => parse_eq_ok_iff.mpr ⟨within, writes⟩, fun deep => ?_, writes, ?_⟩
  · exact (parseWithin_tooDeep_iff Machine.formulaDepth _).mpr deep
  · rw [Expr.evaluate_eq_eval] at valued
    rw [Expr.evaluate_eq_eval, Expr.evaluate_eq_eval, Expr.eval_substitute name valued]

section

attribute [local instance] Machine.standard

/-- A function keeps its name, also if the variable has the same one. -/
theorem parse_replace_called :
    ∃ (e d : Expr) (env : Environment) (v : Float), parse "2*x ** x (x)" = .ok e ∧
      parse "y - 1" = .ok d ∧ d.evaluate env = .ok v ∧
      parse "2*(y - 1) ** x ((y - 1))" = .ok (Expr.substitute "x" d e) ∧
      (Expr.substitute "x" d e).evaluate env =
        e.evaluate (Function.update env "x" (some (.real v))) := by
  have parsed : parse "2*x ** x (x)" = .ok (.binary "*" (.num (Token.literalValue ['2']))
      (.binary "**" (.var "x") (.call "x" [.var "x"]))) := by rfl
  have inner : parse "y - 1" = .ok (.binary "-" (.var "y") (.num (Token.literalValue ['1']))) := by
    rfl
  have valued : (Expr.binary "-" (.var "y") (.num (Token.literalValue ['1']))).evaluate
      (fun _ => some (.real 3)) = .ok (3 - Token.literalValue ['1']) := by rfl
  obtain ⟨accepts, _, _, value⟩ := parse_replace parsed inner "x" valued
  have text : replace "x" "y - 1" "2*x ** x (x)" = "2*(y - 1) ** x ((y - 1))" := by decide +kernel
  have short : ¬NestsBeyond Machine.formulaDepth (replace "x" "y - 1" "2*x ** x (x)") := by
    rw [text]
    exact not_nestsBeyond (by decide)
  have accepted := accepts short
  rw [text] at accepted
  exact ⟨_, _, _, _, parsed, inner, valued, accepted, value⟩

end

end Formula

end Reckon
