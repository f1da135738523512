import Reckon.Formula.Expr
import Reckon.Formula.Token
import Reckon.Value.Told

/-!
Reading formulas.

From the loosest to the tightest the operators are `+` and `-`, then `*` and `/`, then `**`, then
the sign; the first two levels group to the left and `**` to the right, so a sign binds tighter than
a power. The reader takes one token at a time. It keeps what waits for a right operand inside the
innermost bracket, and for each open bracket what waited when it was opened.
-/

set_option autoImplicit false

namespace Reckon.Formula

/-- What waits for a right operand inside one bracket, from the loosest to the tightest. -/
structure Pending where
  sum : Option (String × Expr)
  product : Option (String × Expr)
  powers : List Expr
  signs : Nat

namespace Pending

def empty : Pending := ⟨none, none, [], 0⟩

def signed : (signs : Nat) → Expr → Expr
  | 0, e => e
  | signs + 1, e => .unary "-" (signed signs e)

def raised (powers : List Expr) (e : Expr) : Expr :=
  powers.foldl (fun exponent base => .binary "**" base exponent) e

def joined (left : Option (String × Expr)) (e : Expr) : Expr :=
  match left with
  | some (op, left) => .binary op left e
  | none => e

def factor (p : Pending) (e : Expr) : Expr :=
  raised p.powers (signed p.signs e)

def term (p : Pending) (e : Expr) : Expr :=
  joined p.product (p.factor e)

def whole (p : Pending) (e : Expr) : Expr :=
  joined p.sum (p.term e)

def depth (p : Pending) : Nat :=
  p.powers.length + p.signs

end Pending

/-- An open bracket: one around an expression, or one around the arguments of a function, with the
arguments that are complete. -/
inductive Bracket where
  | group
  | call (name : String) (args : List Expr)

structure Frame where
  bracket : Bracket
  outer : Pending

inductive Focus where
  | operand
  /-- The first argument or the end of the arguments must follow. -/
  | firstArgument
  | named (name : String)
  | complete (value : Expr)

structure Reading where
  frames : List Frame
  pending : Pending
  focus : Focus

namespace Reading

def start : Reading := ⟨[], .empty, .operand⟩

/-- How deep the open levels are nested: a bracket counts as five, a sign and a power as one. -/
def depth (r : Reading) : Nat :=
  r.frames.foldl (fun depth frame => depth + frame.outer.depth + 5) r.pending.depth

def readOperand (r : Reading) (l : Lexeme) : Except Malformed Reading :=
  match l.token, r.focus, r.frames with
  | .number literal, _, _ => .ok { r with focus := .complete (.num (Token.literalValue literal)) }
  | .name letters, _, _ => .ok { r with focus := .named (String.ofList letters) }
  | .minus, _, _ =>
    .ok { r with pending := { r.pending with signs := r.pending.signs + 1 }, focus := .operand }
  | .opening, _, _ => .ok ⟨⟨.group, r.pending⟩ :: r.frames, .empty, .operand⟩
  | .closing, .firstArgument, ⟨.call name args, outer⟩ :: frames =>
    .ok ⟨frames, outer, .complete (.call name args)⟩
  | token, _, _ => .error ⟨l.position, .noOperand token.first⟩

def refuse (r : Reading) (l : Lexeme) : Except Malformed Reading :=
  match r.frames with
  | [] => .error ⟨l.position, .trailing l.token.first⟩
  | _ :: _ => .error ⟨l.position, .unclosed⟩

def readOperator (r : Reading) (operand : Expr) (l : Lexeme) : Except Malformed Reading :=
  let p := r.pending
  match l.token, r.frames with
  | .power, frames =>
    .ok ⟨frames, { p with powers := Pending.signed p.signs operand :: p.powers, signs := 0 },
      .operand⟩
  | .times, frames => .ok ⟨frames, ⟨p.sum, some ("*", p.term operand), [], 0⟩, .operand⟩
  | .divide, frames => .ok ⟨frames, ⟨p.sum, some ("/", p.term operand), [], 0⟩, .operand⟩
  | .plus, frames => .ok ⟨frames, ⟨some ("+", p.whole operand), none, [], 0⟩, .operand⟩
  | .minus, frames => .ok ⟨frames, ⟨some ("-", p.whole operand), none, [], 0⟩, .operand⟩
  | .closing, ⟨.group, outer⟩ :: frames => .ok ⟨frames, outer, .complete (p.whole operand)⟩
  | .closing, ⟨.call name args, outer⟩ :: frames =>
    .ok ⟨frames, outer, .complete (.call name (args ++ [p.whole operand]))⟩
  | .comma, ⟨.call name args, outer⟩ :: frames =>
    .ok ⟨⟨.call name (args ++ [p.whole operand]), outer⟩ :: frames, .empty, .operand⟩
  | _, _ => r.refuse l

def step (r : Reading) (l : Lexeme) : Except Malformed Reading :=
  match r.focus with
  | .operand | .firstArgument => r.readOperand l
  | .named name =>
    match l.token with
    | .opening => .ok ⟨⟨.call name [], r.pending⟩ :: r.frames, .empty, .firstArgument⟩
    | _ => r.readOperator (.var name) l
  | .complete value => r.readOperator value l

def steps (limit : Nat) (r : Reading) : List Lexeme → Except Malformed Reading
  | [] => .ok r
  | l :: rest =>
    match r.step l with
    | .ok next =>
      if limit < next.depth then .error ⟨l.position, .tooDeep⟩ else next.steps limit rest
    | .error error => .error error

/-- The expression, if the formula may end here; `length` is the position of its end. -/
def finish (r : Reading) (length : Nat) : Except Malformed Expr :=
  match r.focus, r.frames with
  | .operand, _ | .firstArgument, _ => .error ⟨length, .ended⟩
  | .named name, [] => .ok (r.pending.whole (.var name))
  | .complete value, [] => .ok (r.pending.whole value)
  | _, _ :: _ => .error ⟨length, .unclosed⟩

end Reading

def parseWithin (limit : Nat) (cs : List Char) : Except Malformed Expr :=
  match Reading.start.steps limit (lexemes cs) with
  | .ok reading => reading.finish cs.length
  | .error error => .error error

/-- The expression that a text writes, nested no deeper than the machine lets calls go. -/
def parse [Machine] (s : String) : Except Malformed Expr :=
  parseWithin Machine.formulaDepth s.toList

def parseValue [Machine] : Value → Except Failure Expr
  | .text s =>
    match parse s with
    | .ok e => .ok e
    | .error error => .error (.malformed error)
  | value => .error (value.naming (.malformed ⟨0, .notText value⟩))

end Reckon.Formula
