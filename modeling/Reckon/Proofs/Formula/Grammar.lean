import Mathlib.Data.List.Chain
import Reckon.Formula.Parser

/-!
The grammar of formulas: which expressions a text writes.

The relations here know no order of reading. `Spelling` lets a text be cut into tokens in every
possible way, blanks aside, and the phrases say which rows of tokens stand for which expression.
That a text is written in one way only is a theorem about them and not part of their definition.
-/

set_option autoImplicit false

namespace Reckon.Formula

/-! ## Numbers and names -/

def AreDigits (cs : List Char) : Prop :=
  ∀ c ∈ cs, Text.isAsciiDigit c = true

/-- What stands between the units and the exponent of a number, and the digits in it. -/
inductive Fraction : (written places : List Char) → Prop where
  | absent : Fraction [] []
  | point {places : List Char} : AreDigits places → Fraction ('.' :: places) places

def IsMark (c : Char) : Prop :=
  c = 'e' ∨ c = 'E'

inductive Exponent : (written : List Char) → (value : Int) → Prop where
  | absent : Exponent [] 0
  | bare {mark : Char} {digits : List Char} : IsMark mark → digits ≠ [] → AreDigits digits →
      Exponent (mark :: digits) (Decimal.digitsValue digits)
  | plus {mark : Char} {digits : List Char} : IsMark mark → digits ≠ [] → AreDigits digits →
      Exponent (mark :: '+' :: digits) (Decimal.digitsValue digits)
  | minus {mark : Char} {digits : List Char} : IsMark mark → digits ≠ [] → AreDigits digits →
      Exponent (mark :: '-' :: digits) (-(Decimal.digitsValue digits : Int))

/-- A number as it is written, and the double nearest to it. -/
inductive Numeral : List Char → Float → Prop where
  | mk {units fraction places exponent : List Char} {power : Int} : units ≠ [] → AreDigits units →
      Fraction fraction places → Exponent exponent power →
      Numeral (units ++ fraction ++ exponent)
        (Decimal.scaled false (Decimal.digitsValue (units ++ places)) (power - places.length))

inductive Identifier : List Char → Prop where
  | mk {c : Char} {rest : List Char} : Token.startsName c = true →
      (∀ d ∈ rest, Token.continuesName d = true) → Identifier (c :: rest)

/-! ## Phrases -/

inductive SumSign : Token → String → Prop where
  | plus : SumSign .plus "+"
  | minus : SumSign .minus "-"

inductive ProductSign : Token → String → Prop where
  | times : ProductSign .times "*"
  | divide : ProductSign .divide "/"

/-! The levels from the loosest to the tightest. Sums and products grow to the right and so group to
the left; a power has a power as its exponent and a signed operand as its base. -/

mutual

inductive IsSum : List Token → Expr → Prop where
  | product {ts : List Token} {e : Expr} : IsProduct ts e → IsSum ts e
  | join {ts us : List Token} {sign : Token} {op : String} {a b : Expr} :
      IsSum ts a → SumSign sign op → IsProduct us b → IsSum (ts ++ sign :: us) (.binary op a b)

inductive IsProduct : List Token → Expr → Prop where
  | power {ts : List Token} {e : Expr} : IsPower ts e → IsProduct ts e
  | join {ts us : List Token} {sign : Token} {op : String} {a b : Expr} :
      IsProduct ts a → ProductSign sign op → IsPower us b →
      IsProduct (ts ++ sign :: us) (.binary op a b)

inductive IsPower : List Token → Expr → Prop where
  | signed {ts : List Token} {e : Expr} : IsSigned ts e → IsPower ts e
  | join {ts us : List Token} {a b : Expr} :
      IsSigned ts a → IsPower us b → IsPower (ts ++ .power :: us) (.binary "**" a b)

inductive IsSigned : List Token → Expr → Prop where
  | atom {ts : List Token} {e : Expr} : IsAtom ts e → IsSigned ts e
  | minus {ts : List Token} {e : Expr} : IsSigned ts e → IsSigned (.minus :: ts) (.unary "-" e)

inductive IsAtom : List Token → Expr → Prop where
  | number {literal : List Char} {value : Float} :
      Numeral literal value → IsAtom [.number literal] (.num value)
  | var {letters : List Char} :
      Identifier letters → IsAtom [.name letters] (.var (String.ofList letters))
  | group {ts : List Token} {e : Expr} : IsSum ts e → IsAtom (.opening :: (ts ++ [.closing])) e
  | emptyCall {letters : List Char} : Identifier letters →
      IsAtom [.name letters, .opening, .closing] (.call (String.ofList letters) [])
  | call {letters : List Char} {ts : List Token} {args : List Expr} :
      Identifier letters → AreArguments ts args →
      IsAtom (.name letters :: .opening :: (ts ++ [.closing])) (.call (String.ofList letters) args)

inductive AreArguments : List Token → List Expr → Prop where
  | one {ts : List Token} {e : Expr} : IsSum ts e → AreArguments ts [e]
  | more {ts us : List Token} {args : List Expr} {e : Expr} :
      AreArguments ts args → IsSum us e → AreArguments (ts ++ .comma :: us) (args ++ [e])

end

/-! ## Texts -/

def AreBlanks (cs : List Char) : Prop :=
  ∀ c ∈ cs, Text.isBlank c = true

/-- The tokens make up the characters, with any blanks before, between and after them. -/
inductive Spelling : List Token → List Char → Prop where
  | done {blanks : List Char} : AreBlanks blanks → Spelling [] blanks
  | token {blanks cs : List Char} {t : Token} {ts : List Token} :
      AreBlanks blanks → Spelling ts cs → Spelling (t :: ts) (blanks ++ (t.chars ++ cs))

/-- The text writes the expression: some way to cut it into tokens makes it a sum that stands for
the expression. -/
def Writes (s : String) (e : Expr) : Prop :=
  ∃ ts, Spelling ts s.toList ∧ IsSum ts e

/-! ## The ends of a phrase

What a phrase begins and ends with keeps adjacent tokens apart: no two words meet, and an asterisk
meets no other one. -/

namespace Token

def Formed : Token → Prop
  | number literal => ∃ value, Numeral literal value
  | name letters => Identifier letters
  | stray _ => False
  | _ => True

def isWord : Token → Bool
  | number _ | name _ => true
  | _ => false

def opens : Token → Bool
  | number _ | name _ | minus | opening => true
  | _ => false

def closes : Token → Bool
  | number _ | name _ | closing => true
  | _ => false

def joins : Token → Bool
  | plus | minus | times | divide | power | comma => true
  | _ => false

/-- Whether two tokens can follow each other without a blank and still be told apart. -/
def separable (t u : Token) : Bool :=
  !(t.isWord && u.isWord) && !(t == times && (u == times || u == power))

theorem separable_of_joins_right {t u : Token} (first : t.closes = true) (second : u.joins = true) :
    t.separable u = true := by
  cases t <;> cases u <;> simp_all [closes, joins, separable, isWord]

theorem separable_of_joins_left {t u : Token} (first : t.joins = true) (second : u.opens = true) :
    t.separable u = true := by
  cases t <;> cases u <;> simp_all [joins, opens, separable, isWord]

theorem separable_opening (t : Token) : opening.separable t = true := by
  simp [separable, isWord]

theorem not_isWord_of_separable {t u : Token} (separable : t.separable u = true)
    (word : u.isWord = true) : t.isWord = false := by
  simp only [Token.separable, word, Bool.and_true, Bool.and_eq_true, Bool.not_eq_true'] at separable
  exact separable.1

theorem separable_closing (t : Token) : t.separable closing = true := by
  simp [separable, isWord]

end Token

/-- A row of tokens that begins and ends like a phrase and is told apart without blanks. -/
structure Bounded (ts : List Token) : Prop where
  nonempty : ts ≠ []
  formed : ∀ t ∈ ts, t.Formed
  opens : ∀ t ∈ ts.head?, t.opens = true
  closes : ∀ t ∈ ts.getLast?, t.closes = true
  separable : ts.IsChain fun t u => t.separable u = true

namespace Bounded

theorem word {t : Token} (formed : t.Formed) (isWord : t.isWord = true) : Bounded [t] where
  nonempty := List.cons_ne_nil _ _
  formed := by simpa using formed
  opens := by cases t <;> simp_all [Token.isWord, Token.opens]
  closes := by cases t <;> simp_all [Token.isWord, Token.closes]
  separable := .singleton _

variable {ts us : List Token}

theorem join {t : Token} (left : Bounded ts) (joins : t.joins = true) (right : Bounded us) :
    Bounded (ts ++ t :: us) where
  nonempty := by simp
  formed := by
    have formed : t.Formed := by cases t <;> simp_all [Token.joins, Token.Formed]
    simp only [List.mem_append, List.mem_cons]
    rintro u (member | rfl | member)
    · exact left.formed u member
    · exact formed
    · exact right.formed u member
  opens := by
    rw [List.head?_append_of_ne_nil _ left.nonempty]
    exact left.opens
  closes := by
    rw [List.getLast?_append_of_ne_nil _ (List.cons_ne_nil _ _),
      List.getLast?_cons_of_ne_nil right.nonempty]
    exact right.closes
  separable := by
    refine List.isChain_append.mpr ⟨left.separable, ?_, ?_⟩
    · refine List.isChain_cons.mpr ⟨fun u member => ?_, right.separable⟩
      exact Token.separable_of_joins_left joins (right.opens u member)
    · intro u member v same
      obtain rfl : t = v := by simpa using same
      exact Token.separable_of_joins_right (left.closes u member) joins

theorem minus (operand : Bounded ts) : Bounded (.minus :: ts) where
  nonempty := List.cons_ne_nil _ _
  formed := by simpa [Token.Formed] using operand.formed
  opens := by simp [Token.opens]
  closes := by
    rw [List.getLast?_cons_of_ne_nil operand.nonempty]
    exact operand.closes
  separable := List.isChain_cons.mpr
    ⟨fun _ member => Token.separable_of_joins_left rfl (operand.opens _ member), operand.separable⟩

theorem group (formed : ∀ t ∈ ts, t.Formed)
    (separable : ts.IsChain fun t u => t.separable u = true) :
    Bounded (.opening :: (ts ++ [.closing])) where
  nonempty := List.cons_ne_nil _ _
  formed := by
    simp only [List.mem_cons, List.mem_append, List.not_mem_nil, or_false]
    rintro u (rfl | member | rfl)
    · trivial
    · exact formed u member
    · trivial
  opens := by simp [Token.opens]
  closes := by
    rw [← List.cons_append, List.getLast?_concat]
    simp [Token.closes]
  separable := by
    refine List.isChain_cons.mpr ⟨fun u _ => Token.separable_opening u, ?_⟩
    refine List.isChain_append.mpr ⟨separable, .singleton _, fun u _ v same => ?_⟩
    obtain rfl : Token.closing = v := by simpa using same
    exact Token.separable_closing u

theorem brackets : Bounded [.opening, .closing] :=
  have noToken : ∀ t ∈ ([] : List Token), t.Formed := by simp
  group noToken .nil

theorem call {letters : List Char} (identifier : Identifier letters)
    (arguments : Bounded (.opening :: ts)) : Bounded (.name letters :: .opening :: ts) where
  nonempty := List.cons_ne_nil _ _
  formed := by
    rintro u (_ | ⟨_, member⟩)
    · exact identifier
    · exact arguments.formed u member
  opens := by simp [Token.opens]
  closes := by
    rw [List.getLast?_cons_of_ne_nil arguments.nonempty]
    exact arguments.closes
  separable := List.isChain_cons.mpr ⟨by simp [Token.separable, Token.isWord], arguments.separable⟩

end Bounded

theorem SumSign.joins {sign : Token} {op : String} (h : SumSign sign op) : sign.joins = true := by
  cases h <;> rfl

theorem ProductSign.joins {sign : Token} {op : String} (h : ProductSign sign op) :
    sign.joins = true := by
  cases h <;> rfl

mutual

theorem IsSum.bounded {ts : List Token} {e : Expr} : IsSum ts e → Bounded ts
  | .product phrase => phrase.bounded
  | .join left sign right => left.bounded.join sign.joins right.bounded

theorem IsProduct.bounded {ts : List Token} {e : Expr} : IsProduct ts e → Bounded ts
  | .power phrase => phrase.bounded
  | .join left sign right => left.bounded.join sign.joins right.bounded

theorem IsPower.bounded {ts : List Token} {e : Expr} : IsPower ts e → Bounded ts
  | .signed phrase => phrase.bounded
  | .join base exponent => base.bounded.join rfl exponent.bounded

theorem IsSigned.bounded {ts : List Token} {e : Expr} : IsSigned ts e → Bounded ts
  | .atom phrase => phrase.bounded
  | .minus operand => operand.bounded.minus

theorem IsAtom.bounded {ts : List Token} {e : Expr} : IsAtom ts e → Bounded ts
  | .number numeral => .word ⟨_, numeral⟩ rfl
  | .var identifier => .word identifier rfl
  | .group inner => .group inner.bounded.formed inner.bounded.separable
  | .emptyCall identifier => .call identifier .brackets
  | .call identifier arguments =>
    .call identifier (.group arguments.bounded.formed arguments.bounded.separable)

theorem AreArguments.bounded {ts : List Token} {args : List Expr} :
    AreArguments ts args → Bounded ts
  | .one argument => argument.bounded
  | .more front argument => front.bounded.join rfl argument.bounded

end

end Reckon.Formula
