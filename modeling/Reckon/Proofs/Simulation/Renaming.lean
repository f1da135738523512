import Reckon.Proofs.Formula.Renaming
import Reckon.Proofs.Model.Trials
import Reckon.Proofs.Simulation.Conclusion

/-!
Simulations under other names of the variables.

Nothing that a simulation shows depends on the names. Main statement: with the variables renamed in
the formula and in the bindings it takes the same draws and comes to the same outcome.
-/

set_option autoImplicit false

namespace Reckon

open Reckon.Random

def renameAll {α : Type} (r : String → String) (entries : List (String × α)) : List (String × α) :=
  entries.map fun entry => (r entry.1, entry.2)

section

variable {α : Type} {r : String → String} {entries : List (String × α)} {name : String}

theorem lookup_renameAll (apart : ∀ entry ∈ entries, r entry.1 = r name → entry.1 = name) :
    (renameAll r entries).lookup (r name) = entries.lookup name := by
  induction entries with
  | nil => rfl
  | cons entry entries ih =>
    obtain ⟨first, a⟩ := entry
    obtain ⟨apartFirst, apartRest⟩ := List.forall_mem_cons.mp apart
    have rest := ih apartRest
    simp only [renameAll, List.map_cons, List.lookup_cons] at rest ⊢
    by_cases same : name = first
    · simp [same]
    · have differs : (name == first) = false := by simpa using same
      have differsNew : (r name == r first) = false := by
        simpa using fun found => same (apartFirst found.symm).symm
      simp only [differs, differsNew, rest]

theorem lookup_renameAll_of_free (free : ∀ entry ∈ entries, r entry.1 ≠ name)
    (absent : ∀ entry ∈ entries, entry.1 ≠ name) :
    (renameAll r entries).lookup name = entries.lookup name := by
  have missing : entries.lookup name = none :=
    List.lookup_eq_none_iff.mpr fun entry member => by simpa using (absent entry member).symm
  rw [missing, List.lookup_eq_none_iff]
  intro entry member
  obtain ⟨old, isOld, rfl⟩ := List.mem_map.mp member
  simpa using (free old isOld).symm

end

/-! ## Bindings -/

namespace Bindings

theorem refreshed_rename {r : String → String} {names : List String} (distinct : names.Nodup)
    (apart : Set.InjOn r {name | name ∈ names}) {b : Bindings} (covers : b.names ⊆ names) :
    refreshed (names.map r) (renameAll r b) = renameAll r (b.refreshed names) := by
  have distinctNew : (names.map r).Nodup := distinct.map_on fun x isX y isY => apart isX isY
  have kept_rename : ∀ name ∈ names, kept (renameAll r b) (r name) = b.kept name := by
    intro name listed
    have apartBound : ∀ entry ∈ b, r entry.1 = r name → entry.1 = name := by
      intro entry member same
      exact apart (covers (List.mem_map_of_mem member)) listed same
    rw [kept, find?, lookup_renameAll apartBound, kept, find?]
  calc refreshed (names.map r) (renameAll r b)
      = names.map fun name => (r name, kept (renameAll r b) (r name)) := by
        rw [refreshed_eq distinctNew, List.map_map]
        rfl
    _ = names.map fun name => (r name, b.kept name) :=
        List.map_congr_left fun name listed => by rw [kept_rename name listed]
    _ = renameAll r (b.refreshed names) := by
        rw [refreshed_eq distinct, renameAll, List.map_map]
        rfl

end Bindings

namespace Simulation

/-! ## Trials -/

def Trial.rename (r : String → String) (trial : Trial) : Trial :=
  { trial with values := renameAll r trial.values }

section

variable (r : String → String) (b : Bindings)

theorem drawValues?_rename (s : Source) :
    drawValues? (renameAll r b) s =
      (drawValues? b s).map fun drawn => (renameAll r drawn.1, drawn.2) := by
  induction b generalizing s with
  | nil => rfl
  | cons binding b ih =>
    obtain ⟨name, d⟩ := binding
    simp only [renameAll, List.map_cons, drawValues?] at ih ⊢
    -- the number of draws depends on the distribution and not on the name
    cases d.sample? s with
    | none => rfl
    | some next =>
      simp only [Option.bind_eq_bind, Option.bind_some, ih]
      cases drawValues? b next.2 <;> rfl

theorem drawn_rename (count : Nat) (s : Source) :
    drawn (renameAll r b) count s = (drawn b count s).map (Trial.rename r) := by
  induction count generalizing s with
  | zero => rfl
  | succ count ih =>
    simp only [drawn, drawValues?_rename]
    cases drawValues? b s with
    | none => rfl
    | some next => simp only [Option.map_some, ih, List.map_cons, Trial.rename]

theorem sourceAfter_rename (s : Source) (record : List Trial) :
    sourceAfter s (record.map (Trial.rename r)) = sourceAfter s record := by
  rw [sourceAfter, List.foldl_map]
  rfl

theorem lasts_rename_iff (count : Nat) (s : Source) :
    Lasts (renameAll r b) count s ↔ Lasts b count s := by
  rw [Lasts, drawn_rename, List.length_map, Lasts]

theorem drawnWithin_rename [Machine] (trials : Value) (s : Source) :
    drawnWithin (renameAll r b) trials s = (drawnWithin b trials s).map (Trial.rename r) := by
  unfold drawnWithin
  split
  · rfl
  · split
    · rfl
    · exact drawn_rename r b _ s

end

/-! ## Values of the formula -/

section

variable {r : String → String} {e : Expr} (renames : Expr.Renames r e.variableNames)

include renames

theorem follows_environment {values : List (String × Float)}
    (covers : ∀ name, name ∈ values.map Prod.fst ↔ name ∈ e.variableNames) :
    Expr.Follows r e.occurrences (environment values) (environment (renameAll r values)) where
  carried name occurs := by
    have isVariable : name ∈ e.variableNames := List.mem_eraseDups.mpr occurs
    obtain ⟨entry, isEntry, isName⟩ := List.mem_map.mp ((covers name).mpr isVariable)
    have bound : (values.lookup name).isSome = true :=
      List.lookup_isSome_iff.mpr ⟨entry, isEntry, by simp [isName]⟩
    obtain ⟨x, found⟩ := Option.isSome_iff_exists.mp bound
    have apart : ∀ entry ∈ values, r entry.1 = r name → entry.1 = name := by
      intro other member same
      exact renames.apart ((covers other.1).mp (List.mem_map_of_mem member)) isVariable same
    refine ⟨.real x, ?_, ?_⟩
    · simp [environment, found]
    · simp [environment, lookup_renameAll apart, found]
  constants name known := by
    -- a constant is neither an old name of a variable nor a new one
    have free : ∀ entry ∈ values, r entry.1 ≠ name := by
      intro entry member same
      have unknown := renames.free entry.1 ((covers entry.1).mp (List.mem_map_of_mem member))
      rw [same] at unknown
      simp [unknown] at known
    have absent : ∀ entry ∈ values, entry.1 ≠ name := by
      intro entry member same
      have isVariable := (covers entry.1).mp (List.mem_map_of_mem member)
      have unknown := Expr.constant?_of_occurs e (List.mem_eraseDups.mp isVariable)
      rw [same] at unknown
      simp [unknown] at known
    simp only [environment, lookup_renameAll_of_free free absent]

theorem finiteValue?_rename [Machine] {values : List (String × Float)}
    (covers : ∀ name, name ∈ values.map Prod.fst ↔ name ∈ e.variableNames) :
    finiteValue? (e.rename r) (renameAll r values) = finiteValue? e values := by
  simp only [finiteValue?, Expr.eval_rename e (follows_environment renames covers)]

theorem finiteValues_rename [Machine] {b : Bindings} (covers : b.names.Perm e.variableNames)
    (count : Nat) (s : Source) :
    finiteValues (e.rename r) (drawn (renameAll r b) count s) =
      finiteValues e (drawn b count s) := by
  rw [drawn_rename, finiteValues, List.filterMap_map, finiteValues]
  apply List.filterMap_congr
  intro trial member
  apply finiteValue?_rename renames
  intro name
  rw [names_of_drawn member]
  exact covers.mem_iff

theorem outcomeOf_rename [Machine] {b : Bindings} (covers : b.names.Perm e.variableNames)
    (trials : Value) (s : Source) :
    outcomeOf (e.rename r) (renameAll r b) trials s = outcomeOf e b trials s := by
  simp only [outcomeOf, lasts_rename_iff, finiteValues_rename renames covers]

end

/-! ## Simulations -/

theorem observe_rename [Machine] {r : String → String} {e : Expr} (plain : e.foreigns = [])
    (renames : Expr.Renames r e.variableNames) {b : Bindings}
    (covers : b.names.Perm e.variableNames) (stale stale' : Nat → Float) (trials : Value)
    (s : Source) :
    observe stale' (e.rename r) (renameAll r b) trials s =
      { observe stale e b trials s with
        record := (observe stale e b trials s).record.map (Trial.rename r) } := by
  have plainNew : (e.rename r).foreigns = [] := by rw [Expr.foreigns_rename, plain]
  rw [observe_eq plainNew, observe_eq plain, outcomeOf_rename renames covers, drawnWithin_rename,
    sourceAfter_rename]

/-- Under other names a parsed formula has the same variables in the same order, the bindings are
refreshed to the same distributions in the same order, and a simulation takes the same draws to the
same outcome, messages included, and leaves the same source. -/
theorem simulateOver_rename [Machine] {text : String} {e : Expr}
    (parsed : Formula.parse text = .ok e) {r : String → String}
    (renames : Expr.Renames r e.variableNames) {b : Bindings}
    (covers : b.names.Perm e.variableNames) :
    (e.rename r).variableNames = e.variableNames.map r ∧
    Bindings.refreshed (e.rename r).variableNames (renameAll r b) =
      renameAll r (b.refreshed e.variableNames) ∧
    ∀ (stale stale' : Nat → Float) (trials : Value) (s : Source),
      simulateOver stale' (e.rename r) (renameAll r b) trials s = simulateOver stale e b trials s ∧
      (observe stale e b trials s).handOn = simulateOver stale e b trials s ∧
      (observe stale' (e.rename r) (renameAll r b) trials s).handOn =
        simulateOver stale' (e.rename r) (renameAll r b) trials s ∧
      observe stale' (e.rename r) (renameAll r b) trials s =
        { observe stale e b trials s with
          record := (observe stale e b trials s).record.map (Trial.rename r) } := by
  have plain : e.foreigns = [] := Formula.foreigns_of_parse parsed
  have renamed : (e.rename r).variableNames = e.variableNames.map r :=
    Expr.variableNames_rename renames
  refine ⟨renamed, ?_, ?_⟩
  · rw [renamed]
    exact Bindings.refreshed_rename (Expr.nodup_variableNames e) renames.apart covers.subset
  · intro stale stale' trials s
    have seen := observe_rename plain renames covers stale stale' trials s
    have handed := handOn_observe stale' (e.rename r) (renameAll r b) trials s
    refine ⟨?_, handOn_observe .., handed, seen⟩
    rw [← handed, ← handOn_observe stale e, seen]
    rfl

def exchange : String → String
  | "a" => "x"
  | "x" => "a"
  | name => name

section

attribute [local instance] Machine.standard

/-- The names change places, and the bindings stand in another order than the variables. -/
theorem simulateOver_exchange :
    ∃ e, Formula.parse "a*x + x/pi" = .ok e ∧ Expr.Renames exchange e.variableNames ∧
      (Bindings.names [("x", .uniform 0 1), ("a", .poisson 3)]).Perm e.variableNames ∧
      e.rename exchange =
        .binary "+" (.binary "*" (.var "x") (.var "a")) (.binary "/" (.var "a") (.var "pi")) ∧
      simulateOver (fun _ => 0) (e.rename exchange) [("a", .uniform 0 1), ("x", .poisson 3)] (.int 9)
          (.congruential 1) =
        simulateOver (fun _ => 7) e [("x", .uniform 0 1), ("a", .poisson 3)] (.int 9)
          (.congruential 1) := by
  have parsed : Formula.parse "a*x + x/pi" = .ok
      (.binary "+" (.binary "*" (.var "a") (.var "x")) (.binary "/" (.var "x") (.var "pi"))) := rfl
  have renames : Expr.Renames exchange ["a", "x"] := by
    constructor
    · intro name isName other isOther
      simp only [Set.mem_ofPred_eq, List.mem_cons, List.not_mem_nil, or_false] at isName isOther
      rcases isName with rfl | rfl <;> rcases isOther with rfl | rfl <;> decide
    · intro name isName
      simp only [List.mem_cons, List.not_mem_nil, or_false] at isName
      rcases isName with rfl | rfl <;> rfl
  have covers : (Bindings.names [("x", .uniform 0 1), ("a", .poisson 3)]).Perm ["a", "x"] :=
    List.Perm.swap ..
  obtain ⟨_, _, run⟩ := simulateOver_rename parsed renames covers
  have same := (run (fun _ => 7) (fun _ => 0) (.int 9) (.congruential 1)).1
  exact ⟨_, parsed, renames, covers, rfl, same⟩

end

end Simulation

end Reckon
