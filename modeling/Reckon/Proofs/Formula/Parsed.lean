import Reckon.Proofs.Formula.Evaluation
import Reckon.Proofs.Formula.Parsing

/-!
What holds of every expression that a text writes.

A property that each phrase hands on from its parts holds of the whole. So a parsed expression is
built of operators of the language alone, and nothing in it is foreign.
-/

set_option autoImplicit false

namespace Reckon.Formula

/-- A property of expressions that each kind of phrase hands on from its parts. -/
structure Inherited (P : Expr → Prop) : Prop where
  num (value : Float) : P (.num value)
  var {letters : List Char} : Identifier letters → P (.var (String.ofList letters))
  binary {op : String} {left right : Expr} :
    (Expr.operators.lookup op).isSome = true → P left → P right → P (.binary op left right)
  minus {operand : Expr} : P operand → P (.unary "-" operand)
  call {letters : List Char} {args : List Expr} :
    Identifier letters → (∀ arg ∈ args, P arg) → P (.call (String.ofList letters) args)

theorem SumSign.known {sign : Token} {op : String} (isSign : SumSign sign op) :
    (Expr.operators.lookup op).isSome = true := by
  cases isSign <;> decide

theorem ProductSign.known {sign : Token} {op : String} (isSign : ProductSign sign op) :
    (Expr.operators.lookup op).isSome = true := by
  cases isSign <;> decide

mutual

theorem IsSum.inherits {P : Expr → Prop} (inherited : Inherited P) {ts : List Token} {e : Expr} :
    IsSum ts e → P e
  | .product product => product.inherits inherited
  | .join left sign right =>
    inherited.binary sign.known (left.inherits inherited) (right.inherits inherited)

theorem IsProduct.inherits {P : Expr → Prop} (inherited : Inherited P) {ts : List Token}
    {e : Expr} : IsProduct ts e → P e
  | .power power => power.inherits inherited
  | .join left sign right =>
    inherited.binary sign.known (left.inherits inherited) (right.inherits inherited)

theorem IsPower.inherits {P : Expr → Prop} (inherited : Inherited P) {ts : List Token} {e : Expr} :
    IsPower ts e → P e
  | .signed signed => signed.inherits inherited
  | .join base exponent =>
    inherited.binary (by decide) (base.inherits inherited) (exponent.inherits inherited)

theorem IsSigned.inherits {P : Expr → Prop} (inherited : Inherited P) {ts : List Token}
    {e : Expr} : IsSigned ts e → P e
  | .atom atom => atom.inherits inherited
  | .minus operand => inherited.minus (operand.inherits inherited)

theorem IsAtom.inherits {P : Expr → Prop} (inherited : Inherited P) {ts : List Token} {e : Expr} :
    IsAtom ts e → P e
  | .number _ => inherited.num _
  | .var identifier => inherited.var identifier
  | .group inner => inner.inherits inherited
  | .emptyCall identifier => inherited.call identifier (by simp)
  | .call identifier args => inherited.call identifier (args.inherits inherited)

theorem AreArguments.inherits {P : Expr → Prop} (inherited : Inherited P) {ts : List Token}
    {args : List Expr} : AreArguments ts args → ∀ arg ∈ args, P arg
  | .one only, _, member => by
    rw [List.mem_singleton.mp member]
    exact only.inherits inherited
  | .more before last, arg, member => by
    rcases List.mem_append.mp member with earlier | final
    · exact before.inherits inherited arg earlier
    · rw [List.mem_singleton.mp final]
      exact last.inherits inherited

end

theorem Writes.inherits {P : Expr → Prop} (inherited : Inherited P) {s : String} {e : Expr}
    (writes : Writes s e) : P e := by
  obtain ⟨_, _, phrase⟩ := writes
  exact phrase.inherits inherited

theorem inherited_foreigns : Inherited fun e => e.foreigns = [] where
  num _ := rfl
  var _ := rfl
  binary _ left right := by simp [Expr.foreigns, left, right]
  minus operand := operand
  call _ args := by
    rw [Expr.foreigns]
    exact Expr.foreignsIn_eq_nil args

theorem foreigns_of_parse [Machine] {s : String} {e : Expr} (parsed : parse s = .ok e) :
    e.foreigns = [] :=
  (writes_of_parseWithin parsed).inherits inherited_foreigns

/-! ## Names of variables -/

theorem Identifier.not_mem {letters : List Char} (identifier : Identifier letters) {c : Char}
    (stray : Token.continuesName c = false) : c ∉ letters := by
  have differs {d : Char} (continues : Token.continuesName d = true) : c ≠ d := by
    rintro rfl
    rw [stray] at continues
    cases continues
  obtain @⟨first, rest, starts, continues⟩ := identifier
  rw [List.mem_cons, not_or]
  refine ⟨differs (by simp [Token.continuesName, starts]), fun member => ?_⟩
  exact differs (continues c member) rfl

theorem inherited_identifiers :
    Inherited fun e => ∀ name ∈ e.occurrences, Identifier name.toList where
  num _ := List.forall_mem_nil _
  var {letters} identifier := by
    intro name member
    rw [Expr.occurrences] at member
    split at member
    · cases member
    · rw [List.mem_singleton.mp member, String.toList_ofList]
      exact identifier
  binary _ left right := List.forall_mem_append.mpr ⟨left, right⟩
  minus operand := operand
  call {_ args} _ each := by
    rw [Expr.occurrences]
    induction args with
    | nil => exact List.forall_mem_nil _
    | cons arg args ih =>
      obtain ⟨first, rest⟩ := List.forall_mem_cons.mp each
      exact List.forall_mem_append.mpr ⟨first, ih rest⟩

/-- The variables of a parsed expression have names that a formula can hold. -/
theorem identifier_of_parse [Machine] {s : String} {e : Expr} (parsed : parse s = .ok e) :
    ∀ name ∈ e.variableNames, Identifier name.toList := by
  intro name member
  rw [Expr.variableNames, List.mem_eraseDups] at member
  exact (writes_of_parseWithin parsed).inherits inherited_identifiers name member

end Reckon.Formula
