import Reckon.Proofs.Formula.Tokens

/-!
The reader against the grammar.

`Advance` lists what one token can do to a reading, and everything else follows from it. In one
direction a reading keeps a record of the tokens that it has taken, `HasRead`; in the other each
phrase of the grammar takes the reader through a run that holds the phrase's expression at its end.
Main statement: the reader returns exactly the expressions that the grammar allows, and the grammar
allows one at most.
-/

set_option autoImplicit false

namespace Reckon.Formula

/-! ## What one token does -/

namespace Focus

def awaits : Focus → Bool
  | operand | firstArgument => true
  | named _ | complete _ => false

/-- The operand that has just been read; a name that nothing calls is a variable. -/
def value? : Focus → Option Expr
  | operand | firstArgument => none
  | named name => some (.var name)
  | complete value => some value

end Focus

namespace Reading

inductive Advance : Reading → Token → Reading → Prop where
  | number {frames : List Frame} {p : Pending} {focus : Focus} {literal : List Char} :
      focus.awaits = true → Advance ⟨frames, p, focus⟩ (.number literal)
        ⟨frames, p, .complete (.num (Token.literalValue literal))⟩
  | name {frames : List Frame} {p : Pending} {focus : Focus} {letters : List Char} :
      focus.awaits = true → Advance ⟨frames, p, focus⟩ (.name letters)
        ⟨frames, p, .named (String.ofList letters)⟩
  | sign {frames : List Frame} {p : Pending} {focus : Focus} :
      focus.awaits = true → Advance ⟨frames, p, focus⟩ .minus
        ⟨frames, { p with signs := p.signs + 1 }, .operand⟩
  | group {frames : List Frame} {p : Pending} {focus : Focus} :
      focus.awaits = true → Advance ⟨frames, p, focus⟩ .opening
        ⟨⟨.group, p⟩ :: frames, .empty, .operand⟩
  | call {frames : List Frame} {p : Pending} {name : String} :
      Advance ⟨frames, p, .named name⟩ .opening
        ⟨⟨.call name [], p⟩ :: frames, .empty, .firstArgument⟩
  | emptyCall {frames : List Frame} {p outer : Pending} {name : String} {args : List Expr} :
      Advance ⟨⟨.call name args, outer⟩ :: frames, p, .firstArgument⟩ .closing
        ⟨frames, outer, .complete (.call name args)⟩
  | power {frames : List Frame} {p : Pending} {focus : Focus} {v : Expr} :
      focus.value? = some v → Advance ⟨frames, p, focus⟩ .power
        ⟨frames, { p with powers := Pending.signed p.signs v :: p.powers, signs := 0 }, .operand⟩
  | product {frames : List Frame} {p : Pending} {focus : Focus} {v : Expr} {t : Token}
      {op : String} : focus.value? = some v → ProductSign t op → Advance ⟨frames, p, focus⟩ t
        ⟨frames, ⟨p.sum, some (op, p.term v), [], 0⟩, .operand⟩
  | sum {frames : List Frame} {p : Pending} {focus : Focus} {v : Expr} {t : Token} {op : String} :
      focus.value? = some v → SumSign t op → Advance ⟨frames, p, focus⟩ t
        ⟨frames, ⟨some (op, p.whole v), none, [], 0⟩, .operand⟩
  | closeGroup {frames : List Frame} {p outer : Pending} {focus : Focus} {v : Expr} :
      focus.value? = some v → Advance ⟨⟨.group, outer⟩ :: frames, p, focus⟩ .closing
        ⟨frames, outer, .complete (p.whole v)⟩
  | closeCall {frames : List Frame} {p outer : Pending} {focus : Focus} {v : Expr} {name : String}
      {args : List Expr} : focus.value? = some v →
      Advance ⟨⟨.call name args, outer⟩ :: frames, p, focus⟩ .closing
        ⟨frames, outer, .complete (.call name (args ++ [p.whole v]))⟩
  | comma {frames : List Frame} {p outer : Pending} {focus : Focus} {v : Expr} {name : String}
      {args : List Expr} : focus.value? = some v →
      Advance ⟨⟨.call name args, outer⟩ :: frames, p, focus⟩ .comma
        ⟨⟨.call name (args ++ [p.whole v]), outer⟩ :: frames, .empty, .operand⟩

theorem advance_of_readOperand {r next : Reading} {l : Lexeme} (awaits : r.focus.awaits = true)
    (read : r.readOperand l = .ok next) : Advance r l.token next := by
  obtain ⟨frames, p, focus⟩ := r
  obtain ⟨position, t⟩ := l
  cases t with
  | number literal => cases read; exact .number awaits
  | name letters => cases read; exact .name awaits
  | minus => cases read; exact .sign awaits
  | opening => cases read; exact .group awaits
  | closing =>
    match focus, frames with
    | .firstArgument, ⟨.call name args, outer⟩ :: frames => cases read; exact .emptyCall
    | .firstArgument, [] | .firstArgument, ⟨.group, _⟩ :: _ | .operand, _ => cases read
  | _ => cases read

theorem advance_of_readOperator {r next : Reading} {l : Lexeme} {v : Expr}
    (value : r.focus.value? = some v) (read : r.readOperator v l = .ok next) :
    Advance r l.token next := by
  obtain ⟨frames, p, focus⟩ := r
  obtain ⟨position, t⟩ := l
  cases t with
  | plus => cases read; exact .sum value .plus
  | minus => cases read; exact .sum value .minus
  | times => cases read; exact .product value .times
  | divide => cases read; exact .product value .divide
  | power => cases read; exact .power value
  | closing =>
    match frames with
    | [] => cases read
    | ⟨.group, outer⟩ :: frames => cases read; exact .closeGroup value
    | ⟨.call name args, outer⟩ :: frames => cases read; exact .closeCall value
  | comma =>
    match frames with
    | [] | ⟨.group, _⟩ :: _ => cases read
    | ⟨.call name args, outer⟩ :: frames => cases read; exact .comma value
  | _ => cases frames <;> cases read

/-- A token other than an opening bracket takes what has been read before it as an operand. -/
theorem step_eq_readOperator {r : Reading} {l : Lexeme} {v : Expr}
    (value : r.focus.value? = some v) (other : l.token ≠ .opening) :
    r.step l = r.readOperator v l := by
  obtain ⟨frames, p, focus⟩ := r
  obtain ⟨position, t⟩ := l
  cases focus with
  | operand | firstArgument => cases value
  | complete value' => cases value; rfl
  | named name =>
    cases value
    cases t with
    | opening => exact absurd rfl other
    | _ => rfl

theorem step_eq_readOperand {r : Reading} {l : Lexeme} (awaits : r.focus.awaits = true) :
    r.step l = r.readOperand l := by
  obtain ⟨frames, p, focus⟩ := r
  cases focus with
  | operand | firstArgument => rfl
  | named _ | complete _ => cases awaits

theorem step_eq_ok_iff {r next : Reading} {l : Lexeme} :
    r.step l = .ok next ↔ Advance r l.token next := by
  constructor
  · intro read
    obtain ⟨frames, p, focus⟩ := r
    cases focus with
    | operand | firstArgument => exact advance_of_readOperand rfl read
    | complete value => exact advance_of_readOperator rfl read
    | named name =>
      simp only [step] at read
      split at read
      · next same =>
        cases read
        rw [same]
        exact .call
      · exact advance_of_readOperator rfl read
  · intro advance
    obtain ⟨position, t⟩ := l
    cases advance with
    | number awaits | name awaits | sign awaits | group awaits =>
      rw [step_eq_readOperand awaits]
      rfl
    | call | emptyCall => rfl
    | power value | closeGroup value | closeCall value | comma value =>
      rw [step_eq_readOperator value (by simp)]
      rfl
    | product value sign | sum value sign =>
      cases sign <;> rw [step_eq_readOperator value (by simp)] <;> rfl

inductive Reads : Reading → List Token → Reading → Prop where
  | nil {r : Reading} : Reads r [] r
  | cons {r next last : Reading} {t : Token} {ts : List Token} :
      Advance r t next → Reads next ts last → Reads r (t :: ts) last

theorem Reads.single {r next : Reading} {t : Token} (advance : Advance r t next) :
    Reads r [t] next :=
  .cons advance .nil

theorem Reads.append {r middle last : Reading} {ts us : List Token} (first : Reads r ts middle)
    (second : Reads middle us last) : Reads r (ts ++ us) last := by
  induction first with
  | nil => exact second
  | cons advance _ ih => exact .cons advance (ih second)

end Reading

open Reading

/-! ## Phrases as runs

A phrase is read on top of what waits inside the innermost bracket. How much may wait there depends
on the level, and the run ends with an operand that has not been joined to it yet. -/

theorem Reading.Advance.firstArgument {frames : List Frame} {p : Pending} {t : Token}
    {next : Reading} (advance : Advance ⟨frames, p, .operand⟩ t next) :
    Advance ⟨frames, p, .firstArgument⟩ t next := by
  cases advance with
  | number => exact .number rfl
  | name => exact .name rfl
  | sign => exact .sign rfl
  | group => exact .group rfl
  | power value | product value | sum value | closeGroup value | closeCall value | comma value =>
    cases value

theorem Reading.Reads.firstArgument {frames : List Frame} {p : Pending} {ts : List Token}
    {last : Reading} (reads : Reads ⟨frames, p, .operand⟩ ts last) (nonempty : ts ≠ []) :
    Reads ⟨frames, p, .firstArgument⟩ ts last := by
  cases reads with
  | nil => contradiction
  | cons advance rest => exact .cons advance.firstArgument rest

mutual

theorem IsSum.reads {ts : List Token} {e : Expr} (frames : List Frame) : IsSum ts e →
    ∃ q focus v, Reads ⟨frames, .empty, .operand⟩ ts ⟨frames, q, focus⟩ ∧
      focus.value? = some v ∧ q.whole v = e
  | .product phrase => by
    obtain ⟨q, focus, v, reads, value, sum, term⟩ := phrase.reads frames none
    exact ⟨q, focus, v, reads, value, by rw [Pending.whole, sum, term]; rfl⟩
  | .join left sign right => by
    -- the sign takes up all that waits, so the right side starts with the sum alone
    obtain ⟨_, _, _, readsLeft, valueLeft, rfl⟩ := left.reads frames
    obtain ⟨q, focus, v, reads, value, sum, term⟩ := right.reads frames _
    exact ⟨q, focus, v, readsLeft.append (.cons (.sum valueLeft sign) reads), value,
      by rw [Pending.whole, sum, term]; rfl⟩

theorem IsProduct.reads {ts : List Token} {e : Expr} (frames : List Frame)
    (sum : Option (String × Expr)) : IsProduct ts e →
    ∃ q focus v, Reads ⟨frames, ⟨sum, none, [], 0⟩, .operand⟩ ts ⟨frames, q, focus⟩ ∧
      focus.value? = some v ∧ q.sum = sum ∧ q.term v = e
  | .power phrase => by
    obtain ⟨q, focus, v, reads, value, same, product, factor⟩ :=
      phrase.reads frames ⟨sum, none, [], 0⟩ rfl
    exact ⟨q, focus, v, reads, value, same, by rw [Pending.term, product, factor]; rfl⟩
  | @IsProduct.join _ _ _ op _ _ left sign right => by
    obtain ⟨p, _, u, readsLeft, valueLeft, rfl, rfl⟩ := left.reads frames sum
    obtain ⟨q, focus, v, reads, value, same, product, factor⟩ :=
      right.reads frames ⟨p.sum, some (op, p.term u), [], 0⟩ rfl
    exact ⟨q, focus, v, readsLeft.append (.cons (.product valueLeft sign) reads), value, same,
      by rw [Pending.term, product, factor]; rfl⟩

theorem IsPower.reads {ts : List Token} {e : Expr} (frames : List Frame) (p : Pending)
    (unsigned : p.signs = 0) : IsPower ts e →
    ∃ q focus v, Reads ⟨frames, p, .operand⟩ ts ⟨frames, q, focus⟩ ∧ focus.value? = some v ∧
      q.sum = p.sum ∧ q.product = p.product ∧ q.factor v = Pending.raised p.powers e
  | .signed phrase => by
    obtain ⟨signs, focus, v, reads, value, rfl⟩ := phrase.reads frames p
    exact ⟨_, focus, v, reads, value, rfl, rfl, by simp [Pending.factor, unsigned]⟩
  | .join base exponent => by
    -- the base waits with its signs until the exponent has been read
    obtain ⟨signs, _, u, readsBase, valueBase, rfl⟩ := base.reads frames p
    obtain ⟨q, focus, v, reads, value, sum, product, factor⟩ := exponent.reads frames
      { p with powers := Pending.signed (p.signs + signs) u :: p.powers, signs := 0 } rfl
    refine ⟨q, focus, v, readsBase.append (.cons (.power valueBase) reads), value, sum, product, ?_⟩
    simp [factor, Pending.raised, unsigned]

theorem IsSigned.reads {ts : List Token} {e : Expr} (frames : List Frame) (p : Pending) :
    IsSigned ts e →
    ∃ signs focus v, Reads ⟨frames, p, .operand⟩ ts
        ⟨frames, { p with signs := p.signs + signs }, focus⟩ ∧
      focus.value? = some v ∧ Pending.signed signs v = e
  | .atom phrase => by
    obtain ⟨focus, reads, value⟩ := phrase.reads frames p
    exact ⟨0, focus, e, reads, value, rfl⟩
  | .minus operand => by
    obtain ⟨signs, focus, v, reads, value, rfl⟩ :=
      operand.reads frames { p with signs := p.signs + 1 }
    refine ⟨signs + 1, focus, v, .cons (.sign rfl) ?_, value, rfl⟩
    rwa [Nat.add_assoc, Nat.add_comm 1 signs] at reads

theorem IsAtom.reads {ts : List Token} {e : Expr} (frames : List Frame) (p : Pending) :
    IsAtom ts e →
    ∃ focus, Reads ⟨frames, p, .operand⟩ ts ⟨frames, p, focus⟩ ∧ focus.value? = some e
  | .number numeral => by
    refine ⟨_, .single (.number rfl), ?_⟩
    rw [numeral.literalValue_eq]
    rfl
  | .var _ => ⟨_, .single (.name rfl), rfl⟩
  | .group inner => by
    obtain ⟨_, _, _, reads, value, rfl⟩ := inner.reads (⟨.group, p⟩ :: frames)
    exact ⟨_, .cons (.group rfl) (reads.append (.single (.closeGroup value))), rfl⟩
  | .emptyCall _ => ⟨_, .cons (.name rfl) (.cons .call (.single .emptyCall)), rfl⟩
  | .call _ arguments => by
    obtain ⟨_, _, _, _, reads, value, rfl⟩ := arguments.reads frames p _
    have reads := reads.firstArgument arguments.bounded.nonempty
    exact ⟨_, .cons (.name rfl) (.cons .call (reads.append (.single (.closeCall value)))), rfl⟩

theorem AreArguments.reads {ts : List Token} {es : List Expr} (frames : List Frame)
    (outer : Pending) (name : String) : AreArguments ts es →
    ∃ args q focus v, Reads ⟨⟨.call name [], outer⟩ :: frames, .empty, .operand⟩ ts
        ⟨⟨.call name args, outer⟩ :: frames, q, focus⟩ ∧
      focus.value? = some v ∧ args ++ [q.whole v] = es
  | .one argument => by
    obtain ⟨q, focus, v, reads, value, rfl⟩ := argument.reads (⟨.call name [], outer⟩ :: frames)
    exact ⟨[], q, focus, v, reads, value, rfl⟩
  | .more front argument => by
    obtain ⟨_, _, _, _, readsFront, valueFront, rfl⟩ := front.reads frames outer name
    obtain ⟨q, focus, v, reads, value, rfl⟩ := argument.reads (⟨.call name _, outer⟩ :: frames)
    exact ⟨_, q, focus, v, readsFront.append (.cons (.comma valueFront) reads), value, rfl⟩

end

/-! ## What a reading has read

Each part of a reading stands for a row of tokens, and the reading for all of them in order: the open
brackets with what waited before each, then what waits in the innermost one, then the operand. -/

inductive SumRead : Option (String × Expr) → List Token → Prop where
  | none : SumRead none []
  | some {ts : List Token} {sign : Token} {op : String} {a : Expr} :
      IsSum ts a → SumSign sign op → SumRead (some (op, a)) (ts ++ [sign])

inductive ProductRead : Option (String × Expr) → List Token → Prop where
  | none : ProductRead none []
  | some {ts : List Token} {sign : Token} {op : String} {a : Expr} :
      IsProduct ts a → ProductSign sign op → ProductRead (some (op, a)) (ts ++ [sign])

inductive PowersRead : List Expr → List Token → Prop where
  | nil : PowersRead [] []
  | cons {bases : List Expr} {base : Expr} {before ts : List Token} : PowersRead bases before →
      IsSigned ts base → PowersRead (base :: bases) (before ++ (ts ++ [.power]))

inductive PendingRead : Pending → List Token → Prop where
  | mk {sum product : Option (String × Expr)} {powers : List Expr} {ts us vs : List Token}
      (signs : Nat) : SumRead sum ts → ProductRead product us → PowersRead powers vs →
      PendingRead ⟨sum, product, powers, signs⟩ (ts ++ (us ++ (vs ++ List.replicate signs .minus)))

/-- Arguments that are complete, each with the comma after it. -/
inductive ArgumentsRead : List Expr → List Token → Prop where
  | none : ArgumentsRead [] []
  | some {ts : List Token} {args : List Expr} :
      AreArguments ts args → ArgumentsRead args (ts ++ [.comma])

inductive FramesRead : List Frame → List Token → Prop where
  | nil : FramesRead [] []
  | group {frames : List Frame} {outer : Pending} {ts us : List Token} : FramesRead frames ts →
      PendingRead outer us → FramesRead (⟨.group, outer⟩ :: frames) (ts ++ (us ++ [.opening]))
  | call {frames : List Frame} {outer : Pending} {args : List Expr} {letters : List Char}
      {ts us vs : List Token} : FramesRead frames ts → PendingRead outer us →
      Identifier letters → ArgumentsRead args vs →
      FramesRead (⟨.call (String.ofList letters) args, outer⟩ :: frames)
        (ts ++ (us ++ (.name letters :: .opening :: vs)))

/-- Before a first argument nothing has been read since the bracket was opened. -/
inductive HasRead : Reading → List Token → Prop where
  | operand {frames : List Frame} {p : Pending} {ts us : List Token} :
      FramesRead frames ts → PendingRead p us → HasRead ⟨frames, p, .operand⟩ (ts ++ us)
  | firstArgument {frames : List Frame} {outer : Pending} {letters : List Char}
      {ts us : List Token} : FramesRead frames ts → PendingRead outer us → Identifier letters →
      HasRead ⟨⟨.call (String.ofList letters) [], outer⟩ :: frames, .empty, .firstArgument⟩
        (ts ++ (us ++ [.name letters, .opening]))
  | named {frames : List Frame} {p : Pending} {letters : List Char} {ts us : List Token} :
      FramesRead frames ts → PendingRead p us → Identifier letters →
      HasRead ⟨frames, p, .named (String.ofList letters)⟩ (ts ++ (us ++ [.name letters]))
  | complete {frames : List Frame} {p : Pending} {v : Expr} {ts us vs : List Token} :
      FramesRead frames ts → PendingRead p us → IsAtom vs v →
      HasRead ⟨frames, p, .complete v⟩ (ts ++ (us ++ vs))

theorem PendingRead.empty : PendingRead .empty [] :=
  .mk 0 .none .none .nil

theorem IsAtom.signed {ts : List Token} {v : Expr} (atom : IsAtom ts v) (signs : Nat) :
    IsSigned (List.replicate signs .minus ++ ts) (Pending.signed signs v) := by
  induction signs with
  | zero => exact .atom atom
  | succ signs ih => exact .minus ih

theorem PowersRead.isPower {bases : List Expr} {before ts : List Token} {e : Expr}
    (read : PowersRead bases before) (exponent : IsPower ts e) :
    IsPower (before ++ ts) (Pending.raised bases e) := by
  induction read generalizing ts e with
  | nil => exact exponent
  | cons _ base ih => simpa [Pending.raised] using ih (.join base exponent)

theorem ProductRead.isProduct {left : Option (String × Expr)} {before ts : List Token} {e : Expr}
    (read : ProductRead left before) (right : IsPower ts e) :
    IsProduct (before ++ ts) (Pending.joined left e) := by
  cases read with
  | none => exact .power right
  | some left sign => simpa [Pending.joined] using IsProduct.join left sign right

theorem SumRead.isSum {left : Option (String × Expr)} {before ts : List Token} {e : Expr}
    (read : SumRead left before) (right : IsProduct ts e) :
    IsSum (before ++ ts) (Pending.joined left e) := by
  cases read with
  | none => exact .product right
  | some left sign => simpa [Pending.joined] using IsSum.join left sign right

theorem ArgumentsRead.areArguments {args : List Expr} {before ts : List Token} {e : Expr}
    (read : ArgumentsRead args before) (argument : IsSum ts e) :
    AreArguments (before ++ ts) (args ++ [e]) := by
  cases read with
  | none => exact .one argument
  | some front => simpa using AreArguments.more front argument

/-- What waits for the operand splits into the left side of a sum and a product that ends with it. -/
theorem PendingRead.isProduct {p : Pending} {us vs : List Token} {v : Expr}
    (read : PendingRead p us) (atom : IsAtom vs v) :
    ∃ before ts, us ++ vs = before ++ ts ∧ SumRead p.sum before ∧ IsProduct ts (p.term v) := by
  obtain ⟨signs, sum, product, powers⟩ := read
  refine ⟨_, _, ?_, sum, product.isProduct (powers.isPower (.signed (atom.signed signs)))⟩
  simp

theorem PendingRead.isSum {p : Pending} {us vs : List Token} {v : Expr}
    (read : PendingRead p us) (atom : IsAtom vs v) : IsSum (us ++ vs) (p.whole v) := by
  obtain ⟨before, ts, same, sum, product⟩ := read.isProduct atom
  rw [same]
  exact sum.isSum product

theorem PendingRead.sign {p : Pending} {us : List Token} (read : PendingRead p us) :
    PendingRead { p with signs := p.signs + 1 } (us ++ [.minus]) := by
  obtain ⟨signs, sum, product, powers⟩ := read
  simpa [List.replicate_succ'] using PendingRead.mk (signs + 1) sum product powers

theorem PendingRead.power {p : Pending} {us vs : List Token} {v : Expr}
    (read : PendingRead p us) (atom : IsAtom vs v) :
    PendingRead { p with powers := Pending.signed p.signs v :: p.powers, signs := 0 }
      (us ++ (vs ++ [.power])) := by
  obtain ⟨signs, sum, product, powers⟩ := read
  simpa using PendingRead.mk 0 sum product (.cons powers (atom.signed signs))

namespace HasRead

variable {frames : List Frame} {p : Pending} {focus : Focus} {ts : List Token}

theorem awaiting (read : HasRead ⟨frames, p, focus⟩ ts) (awaits : focus.awaits = true) :
    ∃ before us, ts = before ++ us ∧ FramesRead frames before ∧ PendingRead p us := by
  cases read with
  | operand framesRead pendingRead => exact ⟨_, _, rfl, framesRead, pendingRead⟩
  | firstArgument framesRead pendingRead identifier =>
    exact ⟨_, [], by simp, .call framesRead pendingRead identifier .none, .empty⟩
  | named | complete => cases awaits

theorem value (read : HasRead ⟨frames, p, focus⟩ ts) {v : Expr} (value : focus.value? = some v) :
    ∃ before us vs, ts = before ++ (us ++ vs) ∧ FramesRead frames before ∧ PendingRead p us ∧
      IsAtom vs v := by
  cases read with
  | operand | firstArgument => cases value
  | named framesRead pendingRead identifier =>
    cases value
    exact ⟨_, _, _, rfl, framesRead, pendingRead, .var identifier⟩
  | complete framesRead pendingRead atom =>
    cases value
    exact ⟨_, _, _, rfl, framesRead, pendingRead, atom⟩

theorem step {r next : Reading} {t : Token} (read : HasRead r ts) (formed : t.Formed)
    (advance : Advance r t next) : HasRead next (ts ++ [t]) := by
  cases advance with
  | number awaits =>
    obtain ⟨before, us, rfl, framesRead, pendingRead⟩ := read.awaiting awaits
    obtain ⟨value, numeral⟩ := formed
    rw [numeral.literalValue_eq]
    simpa using HasRead.complete framesRead pendingRead (.number numeral)
  | name awaits =>
    obtain ⟨before, us, rfl, framesRead, pendingRead⟩ := read.awaiting awaits
    simpa using HasRead.named framesRead pendingRead formed
  | sign awaits =>
    obtain ⟨before, us, rfl, framesRead, pendingRead⟩ := read.awaiting awaits
    simpa using HasRead.operand framesRead pendingRead.sign
  | group awaits =>
    obtain ⟨before, us, rfl, framesRead, pendingRead⟩ := read.awaiting awaits
    simpa using HasRead.operand (.group framesRead pendingRead) .empty
  | call =>
    obtain _ | _ | ⟨framesRead, pendingRead, identifier⟩ := read
    simpa using HasRead.firstArgument framesRead pendingRead identifier
  | emptyCall =>
    obtain _ | ⟨framesRead, pendingRead, identifier⟩ := read
    simpa using HasRead.complete framesRead pendingRead (.emptyCall identifier)
  | power value =>
    obtain ⟨before, us, vs, rfl, framesRead, pendingRead, atom⟩ := read.value value
    simpa using HasRead.operand framesRead (pendingRead.power atom)
  | product value sign =>
    obtain ⟨before, us, vs, rfl, framesRead, pendingRead, atom⟩ := read.value value
    obtain ⟨left, product, same, sum, isProduct⟩ := pendingRead.isProduct atom
    rw [same]
    simpa using HasRead.operand framesRead (.mk 0 sum (.some isProduct sign) .nil)
  | sum value sign =>
    obtain ⟨before, us, vs, rfl, framesRead, pendingRead, atom⟩ := read.value value
    simpa using HasRead.operand framesRead
      (.mk 0 (.some (pendingRead.isSum atom) sign) .none .nil)
  | closeGroup value =>
    obtain ⟨before, us, vs, rfl, framesRead, pendingRead, atom⟩ := read.value value
    obtain _ | ⟨framesRead, outerRead⟩ := framesRead
    simpa using HasRead.complete framesRead outerRead (.group (pendingRead.isSum atom))
  | closeCall value =>
    obtain ⟨before, us, vs, rfl, framesRead, pendingRead, atom⟩ := read.value value
    obtain _ | _ | ⟨framesRead, outerRead, identifier, argumentsRead⟩ := framesRead
    have arguments := argumentsRead.areArguments (pendingRead.isSum atom)
    simpa using HasRead.complete framesRead outerRead (.call identifier arguments)
  | comma value =>
    obtain ⟨before, us, vs, rfl, framesRead, pendingRead, atom⟩ := read.value value
    obtain _ | _ | ⟨framesRead, outerRead, identifier, argumentsRead⟩ := framesRead
    have arguments := argumentsRead.areArguments (pendingRead.isSum atom)
    simpa using HasRead.operand (.call framesRead outerRead identifier (.some arguments)) .empty

theorem run {r last : Reading} {us : List Token} (reads : Reads r us last)
    (formed : ∀ t ∈ us, t.Formed) (read : HasRead r ts) : HasRead last (ts ++ us) := by
  induction reads generalizing ts with
  | nil => simpa using read
  | cons advance _ ih =>
    obtain ⟨formedFirst, formedRest⟩ := List.forall_mem_cons.mp formed
    simpa using ih formedRest (read.step formedFirst advance)

end HasRead

theorem Reading.finish_eq_ok_iff {r : Reading} {length : Nat} {e : Expr} :
    r.finish length = .ok e ↔
      r.frames = [] ∧ ∃ v, r.focus.value? = some v ∧ r.pending.whole v = e := by
  obtain ⟨frames, p, focus⟩ := r
  cases focus <;> cases frames <;> simp [finish, Focus.value?]

theorem isSum_iff_reads {ts : List Token} (formed : ∀ t ∈ ts, t.Formed) {e : Expr} (length : Nat) :
    IsSum ts e ↔ ∃ last, Reads .start ts last ∧ last.finish length = .ok e := by
  constructor
  · intro phrase
    obtain ⟨q, focus, v, reads, value, whole⟩ := phrase.reads []
    exact ⟨_, reads, finish_eq_ok_iff.mpr ⟨rfl, v, value, whole⟩⟩
  · rintro ⟨⟨frames, p, focus⟩, reads, finished⟩
    obtain ⟨rfl, v, value, rfl⟩ := finish_eq_ok_iff.mp finished
    -- no bracket is open in the end, so all that was read waits outside of them
    have read : HasRead .start [] := HasRead.operand .nil .empty
    obtain ⟨before, us, vs, same, framesRead, pendingRead, atom⟩ :=
      (read.run reads formed).value value
    obtain ⟨⟩ := framesRead
    rw [List.nil_append, List.nil_append] at same
    rw [same]
    exact pendingRead.isSum atom

/-! ## The limit -/

namespace Reading

theorem Advance.not_stray {r next : Reading} {c : Char} : ¬Advance r (.stray c) next := by
  intro advance
  cases advance with
  | product _ sign | sum _ sign => cases sign

theorem Reads.formed {r last : Reading} {ts : List Token} (reads : Reads r ts last)
    (known : ∀ t ∈ ts, t.Formed ∨ ∃ c, t = .stray c) : ∀ t ∈ ts, t.Formed := by
  induction reads with
  | nil => simp
  | cons advance _ ih =>
    obtain ⟨knownFirst, knownRest⟩ := List.forall_mem_cons.mp known
    refine List.forall_mem_cons.mpr ⟨knownFirst.resolve_right ?_, ih knownRest⟩
    rintro ⟨c, rfl⟩
    exact advance.not_stray

theorem reads_of_steps {limit : Nat} {r last : Reading} {ls : List Lexeme}
    (done : r.steps limit ls = .ok last) : Reads r (ls.map Lexeme.token) last := by
  induction ls generalizing r with
  | nil =>
    cases done
    exact .nil
  | cons l ls ih =>
    simp only [steps] at done
    split at done
    · next next stepped =>
      split at done
      · cases done
      · exact .cons (step_eq_ok_iff.mp stepped) (ih done)
    · cases done

theorem steps_of_reads (limit : Nat) {r last : Reading} {ls : List Lexeme}
    (reads : Reads r (ls.map Lexeme.token) last) :
    r.steps limit ls = .ok last ∨ ∃ position, r.steps limit ls = .error ⟨position, .tooDeep⟩ := by
  induction ls generalizing r with
  | nil =>
    cases reads
    exact .inl rfl
  | cons l ls ih =>
    obtain _ | ⟨advance, rest⟩ := reads
    simp only [steps, step_eq_ok_iff.mpr advance]
    split
    · exact .inr ⟨_, rfl⟩
    · exact ih rest

/-- How many levels the open phrases nest, the innermost one left out. -/
def openDepth : List Frame → Nat
  | [] => 0
  | frame :: frames => frame.outer.depth + 5 + openDepth frames

theorem foldl_depth (frames : List Frame) (n : Nat) :
    frames.foldl (fun depth frame => depth + frame.outer.depth + 5) n = n + openDepth frames := by
  induction frames generalizing n with
  | nil => rfl
  | cons frame frames ih =>
    rw [List.foldl_cons, ih, openDepth]
    omega

theorem Advance.depth_le {r next : Reading} {t : Token} (advance : Advance r t next) :
    next.depth ≤ r.depth + 5 := by
  cases advance <;>
    simp only [depth, foldl_depth, openDepth] <;>
    simp only [Pending.depth, Pending.empty, List.length_cons, List.length_nil] <;>
    omega

theorem Reads.depth_le {r last : Reading} {ts : List Token} (reads : Reads r ts last) :
    last.depth ≤ r.depth + 5 * ts.length := by
  induction reads with
  | nil => exact Nat.le_add_right _ _
  | cons advance _ ih =>
    have first := advance.depth_le
    rw [List.length_cons]
    omega

/-- Some of the tokens leave more levels open than the limit allows. -/
def Exceeds (limit : Nat) (r : Reading) (ts : List Token) : Prop :=
  ∃ us last, us <+: ts ∧ Reads r us last ∧ limit < last.depth

theorem not_exceeds_nil {limit : Nat} {r : Reading} (within : r.depth ≤ limit) :
    ¬Exceeds limit r [] := by
  rintro ⟨us, last, initial, reads, deep⟩
  obtain rfl := List.prefix_nil.mp initial
  cases reads
  omega

theorem exceeds_cons_iff {limit : Nat} {r : Reading} {t : Token} {ts : List Token}
    (within : r.depth ≤ limit) :
    Exceeds limit r (t :: ts) ↔
      ∃ next, Advance r t next ∧ (limit < next.depth ∨ Exceeds limit next ts) := by
  constructor
  · rintro ⟨us, last, initial, reads, deep⟩
    cases reads with
    | nil => omega
    | cons advance rest =>
      obtain ⟨rfl, initialRest⟩ := List.cons_prefix_cons.mp initial
      exact ⟨_, advance, .inr ⟨_, last, initialRest, rest, deep⟩⟩
  · rintro ⟨next, advance, deep | ⟨us, last, initial, reads, deep⟩⟩
    · exact ⟨[t], next, ⟨ts, rfl⟩, .single advance, deep⟩
    · exact ⟨t :: us, last, List.cons_prefix_cons.mpr ⟨rfl, initial⟩, .cons advance reads, deep⟩

theorem readOperand_fault {r : Reading} {l : Lexeme} {position : Nat} :
    r.readOperand l ≠ .error ⟨position, .tooDeep⟩ := by
  unfold readOperand
  split <;> simp

theorem readOperator_fault {r : Reading} {l : Lexeme} {v : Expr} {position : Nat} :
    r.readOperator v l ≠ .error ⟨position, .tooDeep⟩ := by
  unfold readOperator refuse
  split <;> try simp
  split <;> simp

theorem step_fault {r : Reading} {l : Lexeme} {position : Nat} :
    r.step l ≠ .error ⟨position, .tooDeep⟩ := by
  unfold step
  split
  · exact readOperand_fault
  · exact readOperand_fault
  · split
    · simp
    · exact readOperator_fault
  · exact readOperator_fault

theorem finish_fault {r : Reading} {length position : Nat} :
    r.finish length ≠ .error ⟨position, .tooDeep⟩ := by
  unfold finish
  split <;> simp

/-- The reader stops for the depth exactly if some of the tokens exceed the limit. -/
theorem steps_tooDeep_iff {limit : Nat} {r : Reading} {ls : List Lexeme}
    (within : r.depth ≤ limit) :
    (∃ position, r.steps limit ls = .error ⟨position, .tooDeep⟩) ↔
      Exceeds limit r (ls.map Lexeme.token) := by
  induction ls generalizing r with
  | nil => simpa [steps] using not_exceeds_nil within
  | cons l ls ih =>
    rw [List.map_cons, exceeds_cons_iff within]
    cases stepped : r.step l with
    | error error =>
      have refused : ∀ next, ¬Advance r l.token next := by
        intro next advance
        rw [step_eq_ok_iff.mpr advance] at stepped
        cases stepped
      simp only [steps, stepped, refused, false_and, exists_false, iff_false]
      rintro ⟨position, same⟩
      cases same
      exact step_fault stepped
    | ok next =>
      have only : ∀ other, Advance r l.token other ↔ other = next := by
        intro other
        rw [← step_eq_ok_iff, stepped, Except.ok.injEq, eq_comm]
      simp only [steps, stepped, only, exists_eq_left]
      by_cases deep : limit < next.depth
      · simp [deep]
      · simpa [deep] using ih (Nat.le_of_not_lt deep)

end Reading

theorem length_tokens_le (cs : List Char) : (tokens cs).length ≤ cs.length := by
  have short (fuel position : Nat) (cs : List Char) :
      (lexemesFrom fuel position cs).length ≤ fuel := by
    induction fuel generalizing position cs with
    | zero => simp [lexemesFrom]
    | succ fuel ih =>
      cases cs with
      | nil => simp [lexemesFrom]
      | cons c rest =>
        simp only [lexemesFrom]
        split
        · exact (ih _ _).trans (Nat.le_succ fuel)
        · exact Nat.succ_le_succ (ih _ _)
  rw [tokens, List.length_map]
  exact short _ _ _

/-! ## Formulas -/

/-- A phrase is spelled by the tokens that the reader takes, and by no others. -/
theorem writes_iff {s : String} {e : Expr} : Writes s e ↔ IsSum (tokens s.toList) e := by
  constructor
  · rintro ⟨ts, spelling, phrase⟩
    have bounded := phrase.bounded
    rwa [tokens_of_spelling spelling bounded.formed bounded.separable]
  · intro phrase
    exact ⟨_, spelling_tokens _, phrase⟩

theorem reads_of_writes {s : String} {e : Expr} (writes : Writes s e) (length : Nat) :
    ∃ last, Reads .start (tokens s.toList) last ∧ last.finish length = .ok e := by
  have phrase := writes_iff.mp writes
  exact (isSum_iff_reads phrase.bounded.formed length).mp phrase

theorem writes_of_reads {s : String} {e : Expr} {last : Reading} {length : Nat}
    (reads : Reads .start (tokens s.toList) last) (finished : last.finish length = .ok e) :
    Writes s e := by
  have formed := reads.formed (tokens_formed _)
  exact writes_iff.mpr ((isSum_iff_reads formed length).mpr ⟨last, reads, finished⟩)

theorem writes_of_parseWithin {limit : Nat} {s : String} {e : Expr}
    (parsed : parseWithin limit s.toList = .ok e) : Writes s e := by
  unfold parseWithin at parsed
  split at parsed
  · next last done => exact writes_of_reads (reads_of_steps done) parsed
  · cases parsed

theorem parseWithin_of_writes (limit : Nat) {s : String} {e : Expr} (writes : Writes s e) :
    parseWithin limit s.toList = .ok e ∨
      ∃ position, parseWithin limit s.toList = .error ⟨position, .tooDeep⟩ := by
  obtain ⟨last, reads, finished⟩ := reads_of_writes writes s.toList.length
  obtain done | ⟨position, deep⟩ := steps_of_reads limit reads
  · exact .inl (by simp only [parseWithin, done, finished])
  · exact .inr ⟨position, by simp only [parseWithin, deep]⟩

/-- Some beginning of the text leaves more levels open than the limit allows. -/
def NestsBeyond (limit : Nat) (s : String) : Prop :=
  Exceeds limit .start (tokens s.toList)

theorem parseWithin_tooDeep_iff (limit : Nat) (s : String) :
    (∃ position, parseWithin limit s.toList = .error ⟨position, .tooDeep⟩) ↔
      NestsBeyond limit s := by
  have level : start.depth ≤ limit := Nat.zero_le limit
  rw [NestsBeyond, tokens, ← steps_tooDeep_iff level, parseWithin]
  split
  · next done => simp [done, finish_fault]
  · next failed => simp [failed]

/-- A token opens five levels at most, so a short text does not exceed the limit. -/
theorem not_nestsBeyond {limit : Nat} {s : String} (short : 5 * s.length ≤ limit) :
    ¬NestsBeyond limit s := by
  rintro ⟨us, last, initial, reads, deep⟩
  have level : start.depth = 0 := rfl
  have opened := reads.depth_le
  have taken := initial.length_le.trans (length_tokens_le s.toList)
  rw [String.length_toList] at taken
  omega

theorem parseWithin_eq_ok_iff {limit : Nat} {s : String} (within : ¬NestsBeyond limit s)
    {e : Expr} :
    parseWithin limit s.toList = .ok e ↔ Writes s e := by
  refine ⟨writes_of_parseWithin, fun writes => ?_⟩
  refine (parseWithin_of_writes limit writes).resolve_right ?_
  rwa [parseWithin_tooDeep_iff]

/-- A text writes one expression at most, however deep it is nested: with enough room the reader
finds every expression that the text writes, and it finds one only. -/
theorem Writes.unique {s : String} {e e' : Expr} (first : Writes s e) (second : Writes s e') :
    e = e' := by
  have within : ¬NestsBeyond (5 * s.length) s := not_nestsBeyond le_rfl
  have parsed := (parseWithin_eq_ok_iff within).mpr first
  rw [(parseWithin_eq_ok_iff within).mpr second] at parsed
  cases parsed
  rfl

theorem parseValue_eq_ok_iff [Machine] {v : Value} {e : Expr} :
    parseValue v = .ok e ↔ ∃ s, v = .text s ∧ parse s = .ok e := by
  cases v with
  | text s =>
    rw [parseValue]
    cases parsed : parse s <;> simp [parsed]
  | _ => simp [parseValue]

/-- The reader decides the grammar: unless the formula is nested too deeply, which no short one is,
an expression comes out exactly if the text writes it, and otherwise the formula is refused. -/
theorem parse_spec [Machine] (s : String) :
    (∀ e e', Writes s e → Writes s e' → e = e') ∧
    ((∃ position, parse s = .error ⟨position, .tooDeep⟩) ↔ NestsBeyond Machine.formulaDepth s) ∧
    (¬NestsBeyond Machine.formulaDepth s →
      (∀ e, parse s = .ok e ↔ Writes s e) ∧
      ((¬∃ e, Writes s e) → ∃ error, parse s = .error error)) ∧
    (5 * s.length ≤ Machine.formulaDepth → ¬NestsBeyond Machine.formulaDepth s) := by
  refine ⟨fun _ _ => Writes.unique, parseWithin_tooDeep_iff _ s, fun within => ?_, not_nestsBeyond⟩
  have decides (e : Expr) : parse s = .ok e ↔ Writes s e := parseWithin_eq_ok_iff within
  refine ⟨decides, fun none => ?_⟩
  cases parsed : parse s with
  | ok e => exact absurd ⟨e, (decides e).mp parsed⟩ none
  | error error => exact ⟨error, rfl⟩

end Reckon.Formula
