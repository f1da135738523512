import Mathlib.Data.Set.Function
import Reckon.Proofs.Formula.Evaluation
import Reckon.Proofs.Model.Bindings

/-!
Expressions under other names of their variables.

A renaming that keeps the variables apart and away from the constants renames the list of the
variables, and keeps the value wherever each new name has the value of the old one.
-/

set_option autoImplicit false

namespace Reckon

namespace Expr

mutual

/-- The expression with other names for its variables; constants keep theirs. -/
def rename (r : String → String) : Expr → Expr
  | num value => num value
  | var name => if (constant? name).isSome then var name else var (r name)
  | binary op left right => binary op (rename r left) (rename r right)
  | unary op operand => unary op (rename r operand)
  | call name args => call name (renameIn r args)
  | foreign value => foreign value

def renameIn (r : String → String) : List Expr → List Expr
  | [] => []
  | e :: rest => rename r e :: renameIn r rest

end

section

variable {r : String → String}

mutual

theorem foreigns_rename (r : String → String) (e : Expr) : (e.rename r).foreigns = e.foreigns :=
  match e with
  | num _ | foreign _ => rfl
  | var name => by
    rw [rename]
    split <;> rfl
  | binary _ left right => by
    simp only [rename, foreigns, foreigns_rename r left, foreigns_rename r right]
  | unary _ operand => by simp only [rename, foreigns, foreigns_rename r operand]
  | call _ args => by simp only [rename, foreigns, foreignsIn_renameIn r args]

theorem foreignsIn_renameIn (r : String → String) (args : List Expr) :
    foreignsIn (renameIn r args) = foreignsIn args :=
  match args with
  | [] => rfl
  | e :: rest => by
    simp only [renameIn, foreignsIn, foreigns_rename r e, foreignsIn_renameIn r rest]

end

/-! ## Variables -/

/-- No variable is taken for a constant under its new name. -/
def Free (r : String → String) (names : List String) : Prop :=
  ∀ name ∈ names, constant? (r name) = none

theorem free_append_iff {names names' : List String} :
    Free r (names ++ names') ↔ Free r names ∧ Free r names' :=
  List.forall_mem_append

mutual

theorem occurrences_rename (e : Expr) (free : Free r e.occurrences) :
    (e.rename r).occurrences = e.occurrences.map r :=
  match e with
  | num _ | foreign _ => rfl
  | var name => by
    cases known : constant? name with
    | some _ => simp [rename, occurrences, known]
    | none =>
      have unknown : constant? (r name) = none := free name (by simp [occurrences, known])
      simp [rename, occurrences, known, unknown]
  | binary _ left right => by
    obtain ⟨freeLeft, freeRight⟩ := free_append_iff.mp free
    simp only [rename, occurrences, occurrences_rename left freeLeft,
      occurrences_rename right freeRight, List.map_append]
  | unary _ operand => by
    rw [rename, occurrences, occurrences_rename operand free, occurrences]
  | call _ args => by
    rw [rename, occurrences, occurrencesIn_renameIn args free, occurrences]

theorem occurrencesIn_renameIn (args : List Expr) (free : Free r (occurrencesIn args)) :
    occurrencesIn (renameIn r args) = (occurrencesIn args).map r :=
  match args with
  | [] => rfl
  | e :: rest => by
    obtain ⟨freeFirst, freeRest⟩ := free_append_iff.mp free
    simp only [renameIn, occurrencesIn, occurrences_rename e freeFirst,
      occurrencesIn_renameIn rest freeRest, List.map_append]

end

theorem eraseDups_map {names : List String} (apart : Set.InjOn r {name | name ∈ names}) :
    (names.map r).eraseDups = names.eraseDups.map r :=
  match names with
  | [] => rfl
  | name :: rest => by
    -- taking the first name out of the rest and renaming the rest can be exchanged
    have others : (rest.map r).filter (fun other => !other == r name) =
        (rest.filter fun other => !other == name).map r := by
      rw [List.filter_map]
      congr 1
      apply List.filter_congr
      intro other member
      have same : r other = r name ↔ other = name :=
        apart.eq_iff (List.mem_cons_of_mem _ member) List.mem_cons_self
      simp [same]
    have apartRest : Set.InjOn r {other | other ∈ rest.filter fun other => !other == name} := by
      apply apart.mono
      intro other member
      exact List.mem_cons_of_mem _ (List.mem_of_mem_filter member)
    rw [List.map_cons, List.eraseDups_cons, List.eraseDups_cons, others,
      eraseDups_map apartRest, List.map_cons]
termination_by names.length
decreasing_by
  exact Nat.lt_succ_of_le (List.length_filter_le _ _)

mutual

theorem constant?_of_occurs {name : String} (e : Expr) (occurs : name ∈ e.occurrences) :
    constant? name = none :=
  match e with
  | num _ | foreign _ => nomatch occurs
  | var other => by
    cases known : constant? other with
    | some _ => simp [occurrences, known] at occurs
    | none =>
      obtain rfl : name = other := by simpa [occurrences, known] using occurs
      exact known
  | binary _ left right => by
    rcases List.mem_append.mp occurs with occursLeft | occursRight
    · exact constant?_of_occurs left occursLeft
    · exact constant?_of_occurs right occursRight
  | unary _ operand => constant?_of_occurs operand occurs
  | call _ args => constant?_of_occursIn args occurs

theorem constant?_of_occursIn {name : String} (args : List Expr)
    (occurs : name ∈ occurrencesIn args) : constant? name = none :=
  match args with
  | [] => nomatch occurs
  | e :: rest => by
    rcases List.mem_append.mp occurs with occursFirst | occursRest
    · exact constant?_of_occurs e occursFirst
    · exact constant?_of_occursIn rest occursRest

end

/-- The renaming keeps the names apart and takes none of them for a constant. -/
structure Renames (r : String → String) (names : List String) : Prop where
  apart : Set.InjOn r {name | name ∈ names}
  free : Free r names

theorem variableNames_rename {e : Expr} (renames : Renames r e.variableNames) :
    (e.rename r).variableNames = e.variableNames.map r := by
  have free : Free r e.occurrences := fun name occurs =>
    renames.free name (List.mem_eraseDups.mpr occurs)
  have apart : Set.InjOn r {name | name ∈ e.occurrences} := by
    apply renames.apart.mono
    intro name occurs
    exact List.mem_eraseDups.mpr occurs
  rw [variableNames, occurrences_rename e free, eraseDups_map apart, variableNames]

/-! ## Values -/

/-- Each variable has a value, the same one under its new name, and the constants look alike. -/
structure Follows (r : String → String) (names : List String) (env env' : Environment) : Prop where
  carried : ∀ name ∈ names, ∃ value, env name = some value ∧ env' (r name) = some value
  constants : ∀ name, (constant? name).isSome = true → env' name = env name

section

variable {env env' : Environment} {names names' : List String}

theorem Follows.left (follows : Follows r (names ++ names') env env') : Follows r names env env' :=
  { follows with carried := (List.forall_mem_append.mp follows.carried).1 }

theorem Follows.right (follows : Follows r (names ++ names') env env') :
    Follows r names' env env' :=
  { follows with carried := (List.forall_mem_append.mp follows.carried).2 }

mutual

theorem eval_rename [Machine] (e : Expr) (follows : Follows r e.occurrences env env') :
    eval env' (e.rename r) = eval env e :=
  match e with
  | num _ | foreign _ => rfl
  | var name => by
    -- a constant is looked up under its own name, a variable under the new one
    cases known : constant? name with
    | some value =>
      have same : env' name = env name := follows.constants name (by simp [known])
      simp only [rename, known, Option.isSome_some, if_true, eval, lookUp, same]
    | none =>
      have occurs : name ∈ occurrences (.var name) := by simp [occurrences, known]
      obtain ⟨value, old, new⟩ := follows.carried name occurs
      simp only [rename, known, Option.isSome_none, Bool.false_eq_true, if_false, eval, lookUp, old,
        new]
  | binary _ left right => by
    simp only [rename, eval, eval_rename left follows.left, eval_rename right follows.right]
  | unary _ operand => by
    rw [rename, eval, eval, eval_rename operand follows]
  | call _ args => by
    simp only [rename, eval, evalArgs_renameIn args follows]

theorem evalArgs_renameIn [Machine] (args : List Expr)
    (follows : Follows r (occurrencesIn args) env env') :
    evalArgs env' (renameIn r args) = evalArgs env args :=
  match args with
  | [] => rfl
  | e :: rest => by
    simp only [renameIn, evalArgs, eval_rename e follows.left,
      evalArgs_renameIn rest follows.right]

end

end

end

end Expr

end Reckon
