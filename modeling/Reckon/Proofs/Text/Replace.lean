import Reckon.Text.Lines

/-!
Replacing the occurrences of a pattern.

A replacement runs from left to right. What holds no occurrence of the pattern, whatever stands
after it, is passed over.
-/

set_option autoImplicit false

namespace Reckon.Text

theorem after?_append (pattern rest : List Char) :
    after? pattern (pattern ++ rest) = some rest := by
  induction pattern with
  | nil => rfl
  | cons p pattern ih => rw [List.cons_append, after?, if_pos rfl, ih]

theorem after?_eq_some {pattern cs rest : List Char} (found : after? pattern cs = some rest) :
    cs = pattern ++ rest := by
  induction pattern generalizing cs with
  | nil => exact Option.some.inj found
  | cons p pattern ih =>
    cases cs with
    | nil => cases found
    | cons c cs =>
      rw [after?] at found
      split at found
      · next same => rw [same, ih found, List.cons_append]
      · cases found

section

variable {first : Char} {pattern replacement : List Char}

theorem replaceFrom_of_le {fuel : Nat} {cs : List Char} (enough : cs.length ≤ fuel) :
    replaceFrom (first :: pattern) replacement fuel cs =
      replaceChars (first :: pattern) replacement cs := by
  suffices same : ∀ fuel fuel' cs, cs.length ≤ fuel → cs.length ≤ fuel' →
      replaceFrom (first :: pattern) replacement fuel cs =
        replaceFrom (first :: pattern) replacement fuel' cs from
    same fuel cs.length cs enough (Nat.le_refl _)
  intro fuel
  induction fuel with
  | zero =>
    intro fuel' cs enough _
    obtain rfl : cs = [] := List.length_eq_zero_iff.mp (Nat.le_zero.mp enough)
    cases fuel' <;> rfl
  | succ fuel ih =>
    intro fuel' cs enough enough'
    cases cs with
    | nil => cases fuel' <;> rfl
    | cons c cs =>
      rw [List.length_cons] at enough enough'
      obtain ⟨fuel', rfl⟩ : ∃ n, fuel' = n + 1 := ⟨fuel' - 1, by omega⟩
      rw [replaceFrom, replaceFrom]
      cases found : after? (first :: pattern) (c :: cs) with
      | none => exact congrArg _ (ih fuel' cs (by omega) (by omega))
      | some tail =>
        -- what follows an occurrence is shorter, as the pattern is not empty
        have cut := congrArg List.length (after?_eq_some found)
        simp only [List.length_cons, List.length_append] at cut
        exact congrArg _ (ih fuel' tail (by omega) (by omega))

theorem replaceChars_found (rest : List Char) :
    replaceChars (first :: pattern) replacement (first :: pattern ++ rest) =
      replacement ++ replaceChars (first :: pattern) replacement rest := by
  have found := after?_append (first :: pattern) rest
  have enough : rest.length ≤ (pattern ++ rest).length := by simp
  rw [List.cons_append] at found ⊢
  rw [replaceChars, List.length_cons, replaceFrom, found]
  exact congrArg _ (replaceFrom_of_le enough)

theorem replaceChars_skip {c : Char} {rest : List Char}
    (none : after? (first :: pattern) (c :: rest) = none) :
    replaceChars (first :: pattern) replacement (c :: rest) =
      c :: replaceChars (first :: pattern) replacement rest := by
  rw [replaceChars, List.length_cons, replaceFrom, none]
  rfl

end

/-- No occurrence of the pattern begins in the characters, whatever stands after them. -/
def Passes (pattern cs : List Char) : Prop :=
  ∀ replacement rest, replaceChars pattern replacement (cs ++ rest) =
    cs ++ replaceChars pattern replacement rest

namespace Passes

variable {pattern cs ds : List Char}

theorem nil (pattern : List Char) : Passes pattern [] := fun _ _ => rfl

theorem append (front : Passes pattern cs) (back : Passes pattern ds) :
    Passes pattern (cs ++ ds) := by
  intro replacement rest
  rw [List.append_assoc, front, back, List.append_assoc]

theorem replaceChars_eq (passes : Passes pattern cs) (replacement : List Char) :
    replaceChars pattern replacement cs = cs := by
  have done : replaceChars pattern replacement [] = [] := rfl
  have whole := passes replacement []
  rwa [List.append_nil, done, List.append_nil] at whole

theorem of_not_mem {first : Char} {pattern : List Char} (absent : first ∉ cs) :
    Passes (first :: pattern) cs := by
  induction cs with
  | nil => exact nil _
  | cons c cs ih =>
    intro replacement rest
    rw [List.mem_cons, not_or] at absent
    have none : after? (first :: pattern) (c :: (cs ++ rest)) = none := by
      rw [after?, if_neg absent.1]
    rw [List.cons_append, replaceChars_skip none, ih absent.2, List.cons_append]

end Passes

end Reckon.Text
