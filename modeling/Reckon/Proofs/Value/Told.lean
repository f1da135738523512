import Reckon.Value.Told

/-!
Which values cannot be told, and why.

Values without long whole numbers are told unless they are nested too deeply, and however deep a
machine lets values be nested, those that are nested no deeper are told.
-/

set_option autoImplicit false

namespace Reckon.Value

mutual

def depth : Value → Nat
  | list items | tuple items | array items | set items => depthAmong items + 1
  | record entries => depthIn entries + 1
  | shared _ value => depth value
  | null | bool _ | int _ | real _ | text _ | bytes _ | date .. | moment _ => 0

def depthAmong : List Value → Nat
  | [] => 0
  | item :: rest => max (depth item) (depthAmong rest)

def depthIn : List (Value × Value) → Nat
  | [] => 0
  | (key, value) :: rest => max (max (depth key) (depth value)) (depthIn rest)

end

theorem depthIn_le_iff {entries : List (Value × Value)} {bound : Nat} :
    depthIn entries ≤ bound ↔ ∀ entry ∈ entries, entry.1.depth ≤ bound ∧ entry.2.depth ≤ bound := by
  induction entries with
  | nil => simp [depthIn]
  | cons entry rest ih =>
    obtain ⟨key, value⟩ := entry
    rw [depthIn, Nat.max_le, Nat.max_le, ih, List.forall_mem_cons]

/-- Why a value that is nested that deep is not told, if it may be nested `room` deep. -/
def Untold (room depth : Nat) (failure : Failure) : Prop :=
  failure = .unsuitable .unwritten ∨ failure = .tooNested ∧ room < depth

theorem Untold.mono {room depth depth' : Nat} {failure : Failure}
    (untold : Untold room depth failure)
    (le : depth ≤ depth') : Untold room depth' failure :=
  untold.imp_right fun ⟨nested, deep⟩ => ⟨nested, Nat.lt_of_lt_of_le deep le⟩

theorem Untold.succ {room depth : Nat} {failure : Failure} (untold : Untold room depth failure) :
    Untold (room + 1) (depth + 1) failure :=
  untold.imp_right fun ⟨nested, deep⟩ => ⟨nested, Nat.succ_lt_succ deep⟩

theorem untold_of_troubleInside {room depth : Nat} {inner : Nat → Option Failure}
    {failure : Failure} (untold : ∀ room, inner room = some failure → Untold room depth failure)
    (trouble : troubleInside room inner = some failure) : Untold room (depth + 1) failure := by
  cases room with
  | zero =>
    cases trouble
    exact .inr ⟨rfl, Nat.succ_pos depth⟩
  | succ room => exact (untold room trouble).succ

mutual

theorem untold_of_troubleWithin {around : List Nat} {room : Nat} {failure : Failure} :
    ∀ v : Value, troubleWithin around room v = some failure → Untold room v.depth failure
  | int n, trouble => by
    rw [troubleWithin] at trouble
    split at trouble
    · cases trouble
      exact .inl rfl
    · cases trouble
  | list items, trouble | tuple items, trouble | array items, trouble | set items, trouble => by
    rw [troubleWithin] at trouble
    rw [depth]
    exact untold_of_troubleInside (fun room => untold_of_troubleAmong items) trouble
  | record entries, trouble => by
    rw [troubleWithin] at trouble
    rw [depth]
    exact untold_of_troubleInside (fun room => untold_of_troubleIn entries) trouble
  | shared label value, trouble => by
    rw [troubleWithin] at trouble
    rw [depth]
    split at trouble
    · cases trouble
    · exact untold_of_troubleWithin value trouble
  | null, trouble | bool _, trouble | real _, trouble | text _, trouble | bytes _, trouble
  | date .., trouble | moment _, trouble => by
    rw [troubleWithin] at trouble
    cases trouble

theorem untold_of_troubleAmong {around : List Nat} {room : Nat} {failure : Failure} :
    ∀ items : List Value, troubleAmong around room items = some failure →
      Untold room (depthAmong items) failure
  | [], trouble => by cases trouble
  | item :: rest, trouble => by
    rw [troubleAmong, Option.or_eq_some_iff] at trouble
    rw [depthAmong]
    rcases trouble with first | ⟨-, later⟩
    · exact (untold_of_troubleWithin item first).mono (Nat.le_max_left ..)
    · exact (untold_of_troubleAmong rest later).mono (Nat.le_max_right ..)

theorem untold_of_troubleIn {around : List Nat} {room : Nat} {failure : Failure} :
    ∀ entries : List (Value × Value), troubleIn around room entries = some failure →
      Untold room (depthIn entries) failure
  | [], trouble => by cases trouble
  | (key, value) :: rest, trouble => by
    rw [troubleIn, Option.or_eq_some_iff, Option.or_eq_some_iff] at trouble
    rw [depthIn]
    rcases trouble with first | ⟨-, second | ⟨-, later⟩⟩
    · exact (untold_of_troubleWithin key first).mono (by omega)
    · exact (untold_of_troubleWithin value second).mono (by omega)
    · exact (untold_of_troubleIn rest later).mono (by omega)

end

def wrapped (v : Value) : (levels : Nat) → Value
  | 0 => v
  | levels + 1 => .list [wrapped v levels]

theorem troubleWithin_wrapped (v : Value) (around : List Nat) {room levels : Nat}
    (deep : room < levels) : troubleWithin around room (v.wrapped levels) = some .tooNested := by
  induction levels generalizing room with
  | zero => cases deep
  | succ levels ih =>
    rw [wrapped, troubleWithin]
    cases room with
    | zero => rfl
    | succ room =>
      rw [troubleInside, troubleAmong, ih (Nat.lt_of_succ_lt_succ deep)]
      rfl

variable [Machine] {v : Value} {failure trouble : Failure}

/-- A value is not told for one of two reasons: it holds a long whole number, or it is nested deeper
than the machine lets it be. -/
theorem untold_of_trouble? (found : v.trouble? = some trouble) :
    Untold Machine.valueDepth v.depth trouble :=
  untold_of_troubleWithin v found

theorem naming_of_told (told : v.trouble? = none) (failure : Failure) :
    v.naming failure = failure := by
  rw [naming, told, Option.getD_none]

theorem naming_of_trouble (found : v.trouble? = some trouble) (failure : Failure) :
    v.naming failure = trouble := by
  rw [naming, found, Option.getD_some]

/-- A message that names a value says what it was to say, or fails because the value is not told. -/
theorem naming_cases (v : Value) (failure : Failure) :
    v.naming failure = failure ∨ Untold Machine.valueDepth v.depth (v.naming failure) := by
  cases found : v.trouble? with
  | none => exact .inl (naming_of_told found failure)
  | some trouble =>
    rw [naming_of_trouble found]
    exact .inr (untold_of_trouble? found)

theorem told_eq_error_iff : v.told = .error failure ↔ v.trouble? = some failure := by
  rw [told]
  cases v.trouble? <;> simp

theorem trouble?_record_wrapped (v : Value) (key : String) {levels : Nat}
    (deep : Machine.valueDepth ≤ levels) :
    (record [(.text key, v.wrapped levels)]).trouble? = some .tooNested := by
  rw [trouble?, troubleWithin]
  generalize Machine.valueDepth = room at deep
  cases room with
  | zero => rfl
  | succ room =>
    rw [troubleInside, troubleIn, troubleWithin_wrapped v [] deep]
    rfl

@[simp] theorem trouble?_text (s : String) : (text s).trouble? = none := rfl

@[simp] theorem told_text (s : String) : (text s).told = .ok s := rfl

end Reckon.Value
